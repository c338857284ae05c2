import TickerBoard.Proofs.Storage.Layout

/-! Which symbols share files.

A symbol is in the files under its `stem`, and the records of a symbol whose stem
leaves no name lie among the folders of the others. Whatever is saved for a symbol
changes only places that are its `Own`, and makes no folder but that of its records
(`touched_saveAll`). Another symbol reads none of these unless the two meet
(`Meets`): if their records lie in one folder, or the folder of the one stands where
a record of the other belongs. Then a single record of the one disturbs the other
(`disturbs`). `isolated_iff` puts both together. -/
namespace TickerBoard.FileStore
open Directory

/-! ### Places -/

/-- The folders of the store are there. -/
structure Opened (d : Directory) : Prop where
  bars : d.isFolder ["bars"] = true
  divergences : d.isFolder ["divergences"] = true

/-- Where the records of a symbol lie once its folder is there. -/
def home (symbol : String) : Path :=
  if stem symbol = "" ∨ stem symbol = "." then ["divergences"]
  else if stem symbol = ".." then []
  else ["divergences", stem symbol]

theorem home_cases (symbol : String) :
    ((stem symbol = "" ∨ stem symbol = ".") ∧ home symbol = ["divergences"]) ∨
      (stem symbol = ".." ∧ home symbol = []) ∨
      (Plain (stem symbol) ∧ home symbol = ["divergences", stem symbol]) := by
  unfold home
  split
  · rename_i nameless
    exact .inl ⟨nameless, rfl⟩
  · rename_i named
    split
    · rename_i up
      exact .inr (.inl ⟨up, rfl⟩)
    · rename_i own
      exact .inr (.inr ⟨⟨fun h => named (.inl h), fun h => named (.inr h), own⟩, rfl⟩)

theorem plain_bars : Plain "bars" := plain_of_length (by decide)

theorem plain_barsPath (symbol : String) : ∀ name ∈ (barsFile symbol).path, Plain name :=
  List.forall_mem_cons.mpr ⟨plain_bars, List.forall_mem_singleton.mpr (plain_json _)⟩

theorem plain_divergences : Plain "divergences" := plain_of_length (by decide)

theorem home_plain (symbol : String) : ∀ name ∈ home symbol, Plain name := by
  rcases home_cases symbol with ⟨-, home⟩ | ⟨-, home⟩ | ⟨plain, home⟩ <;> rw [home]
  · exact List.forall_mem_singleton.mpr plain_divergences
  · exact nofun
  · exact List.forall_mem_cons.mpr ⟨plain_divergences, List.forall_mem_singleton.mpr plain⟩

variable {d d' : Directory} {symbol : String}

/-- The folder that the path of a record names is the home of its symbol. -/
theorem walk_home (opened : Opened d) (symbol : String) :
    d.walk [] ["divergences", stem symbol] = if Short (stem symbol) then some (home symbol) else none := by
  rw [walk_plain plain_divergences, if_pos ⟨rfl, by decide⟩, List.nil_append]
  rcases home_cases symbol with ⟨nameless, home⟩ | ⟨up, home⟩ | ⟨plain, home⟩ <;> rw [home]
  · have short : Short (stem symbol) := by rcases nameless with same | same <;> rw [same] <;> decide
    rw [if_pos short, walk, if_neg (by simp [opened.divergences]), if_pos nameless]
    rfl
  · rw [up, if_pos (by decide), walk, if_neg (by simp [opened.divergences]), if_neg (by decide), if_pos rfl]
    rfl
  · rw [walk_plain plain]
    simp only [opened.divergences, true_and]
    rfl

/-- A file that a path below the records of a symbol names lies in its home. -/
theorem place_of_record (opened : Opened d) {name : String} (plain : Plain name) {q : Path}
    (h : d.walk [] (["divergences", stem symbol] ++ [name]) = some q) : q = home symbol ++ [name] := by
  rw [walk_append, walk_home opened] at h
  split at h
  · rw [Option.bind_some] at h
    exact walk_eq_some (List.forall_mem_singleton.mpr plain) h
  · cases h

/-! ### What a save changes -/

/-- A place that saves of a symbol may change. -/
inductive Own (symbol : String) : Path → Prop
  | bars : Own symbol ["bars", stem symbol ++ ".json"]
  | record (day : Day) : Own symbol (home symbol ++ [day.text ++ ".json"])
  | folder : Own symbol ["divergences", stem symbol]
  | temporary (folder : Path) (name : String) : Own symbol (folder ++ [name ++ ".json.tmp"])

/-- Between two disks only places of a symbol changed, and no folder but that of its records. -/
structure Touched (symbol : String) (d d' : Directory) : Prop where
  folders : ∀ q, q ≠ ["divergences", stem symbol] → d'.isFolder q = d.isFolder q
  others : ∀ q, ¬ Own symbol q → d'.node? q = d.node? q

theorem Touched.rfl : Touched symbol d d := ⟨fun _ _ => .refl _, fun _ _ => .refl _⟩

theorem Touched.trans {d'' : Directory} (first : Touched symbol d d') (second : Touched symbol d' d'') :
    Touched symbol d d'' :=
  ⟨fun q other => (second.folders q other).trans (first.folders q other),
    fun q other => (second.others q other).trans (first.others q other)⟩

theorem touched_of_rewritten {places : Path → Prop} (rewritten : Rewritten places d d')
    (own : ∀ q, places q → Own symbol q) : Touched symbol d d' :=
  ⟨fun q _ => rewritten.folders q, fun q other => rewritten.others q fun h => other (own q h)⟩

theorem Touched.opened (touched : Touched symbol d d') (opened : Opened d) : Opened d' :=
  ⟨by rw [touched.folders _ (by simp), opened.bars], by rw [touched.folders _ (by simp), opened.divergences]⟩

/-- A temporary file has a name of its own, but for the stem of one dot. -/
theorem temporary_cases (t : Target) :
    (∃ name, t.temporary = t.folder ++ [name ++ ".json.tmp"]) ∨ t.temporary = t.folder ++ [".."] := by
  unfold Target.temporary
  split
  · exact .inl ⟨".json", rfl⟩
  · split
    · exact .inr rfl
    · exact .inl ⟨t.stem, rfl⟩

theorem place_below_bars {name : String} (plain : Plain name) {q : Path}
    (h : d.filePlace? (["bars"] ++ [name]) = some q) : q = ["bars", name] :=
  walk_eq_some (List.forall_mem_cons.mpr ⟨plain_bars, List.forall_mem_singleton.mpr plain⟩) (filePlace?_eq_some.mp h).1

/-- The temporary file of bars lies beside them. -/
theorem temporary_bars_place (opened : Opened d) {q : Path} (h : d.filePlace? (barsFile symbol).temporary = some q) :
    ∃ name, q = ["bars"] ++ [name ++ ".json.tmp"] := by
  rcases temporary_cases (barsFile symbol) with ⟨name, path⟩ | path <;> rw [path] at h
  · exact ⟨name, place_below_bars (plain_temporary name) h⟩
  · -- two dots lead back to the root, which is a folder
    obtain ⟨walked, free⟩ := filePlace?_eq_some.mp h
    have root : d.walk [] ["bars", ".."] = some [] := by
      rw [walk_plain plain_bars, if_pos ⟨rfl, by decide⟩, List.nil_append, walk, if_neg (by simp [opened.bars]),
        if_neg (by decide), if_pos rfl]
      rfl
    obtain rfl := Option.some.inj (root.symm.trans walked)
    cases free

theorem own_bars_place (opened : Opened d) {q : Path}
    (h : d.filePlace? (barsFile symbol).temporary = some q ∨ d.filePlace? (barsFile symbol).path = some q) :
    Own symbol q := by
  rcases h with beside | target
  · obtain ⟨name, rfl⟩ := temporary_bars_place opened beside
    exact .temporary ["bars"] name
  · rw [place_below_bars (plain_json _) target]
    exact .bars

theorem temporary_recordFile (symbol : String) (day : Day) :
    (recordFile symbol day).temporary = ["divergences", stem symbol] ++ [day.text ++ ".json.tmp"] := by
  have hyphen := day.hyphen_mem_text
  have some_text : day.text ≠ "" ∧ day.text ≠ "." := by
    constructor <;> intro same <;> rw [same] at hyphen <;> exact absurd hyphen (by decide)
  exact congrArg (["divergences", stem symbol] ++ [·]) ((if_neg some_text.1).trans (if_neg some_text.2))

theorem path_recordFile (symbol : String) (day : Day) :
    (recordFile symbol day).path = ["divergences", stem symbol] ++ [day.text ++ ".json"] := rfl

theorem own_record_place (opened : Opened d) (day : Day) {q : Path}
    (h : d.filePlace? (recordFile symbol day).temporary = some q ∨ d.filePlace? (recordFile symbol day).path = some q) :
    Own symbol q := by
  rcases h with beside | target
  · rw [temporary_recordFile] at beside
    rw [place_of_record opened (plain_temporary _) (filePlace?_eq_some.mp beside).1]
    exact .temporary _ day.text
  · rw [place_of_record opened (plain_json _) (filePlace?_eq_some.mp target).1]
    exact .record day

/-- The folder of the records is all that is made. -/
theorem touched_makeFolders (opened : Opened d) (symbol : String) :
    Touched symbol d (d.makeFolders (recordFolder symbol)).1 := by
  have top : ∀ rest, d.makeFolders ("divergences" :: rest) = d.makeFoldersFrom ["divergences"] rest := by
    intro rest
    rw [makeFolders, makeFoldersFrom_plain rfl plain_divergences (by decide), List.nil_append,
      isFolder_iff.mp opened.divergences]
    rfl
  rw [recordFolder]
  split
  · rw [top]
    exact .rfl
  · rename_i named
    rw [top, makeFoldersFrom, if_neg (by simp [opened.divergences]), if_neg named]
    split
    · exact .rfl
    · split
      · exact .rfl
      · dsimp only
        split
        · exact .rfl
        · have nodes := node?_put (d := d) (child_ne_root ["divergences"] (stem symbol)) .folder
          refine ⟨fun q other => ?_, fun q other => ?_⟩
          · show isFolder _ q = _
            rw [makeFoldersFrom, isFolder, nodes]
            exact congrArg (· == some Node.folder) (if_neg other)
          · show node? _ q = _
            rw [makeFoldersFrom, nodes, if_neg]
            rintro rfl
            exact other .folder

/-! ### Saves -/

/-- What may be saved for a symbol. -/
inductive Saving
  | bars (new : List (Bar Float))
  | record (day : Day) (r : DayRecord)

def save (s : FileStore) (symbol : String) : Saving → FileStore × Except StoreFault Unit
  | .bars new => s.saveBars symbol new
  | .record day r => s.saveRecord symbol day r

/-- The store after some saves for a symbol, whether or not they succeed. -/
def saveAll (s : FileStore) (symbol : String) (savings : List Saving) : FileStore :=
  savings.foldl (fun s saving => (s.save symbol saving).1) s

variable {s : FileStore}

theorem writeFile_fst (s : FileStore) (t : Target) (j : Json) :
    (s.writeFile t j).1 = { s with disk := (s.disk.replace t.temporary t.path j.compact).1 } := by
  rw [writeFile]
  split <;> rename_i replaced <;> rw [replaced]

theorem touched_save (opened : Opened s.disk) (symbol : String) (saving : Saving) :
    (s.save symbol saving).1.root = s.root ∧ Touched symbol s.disk (s.save symbol saving).1.disk := by
  cases saving with
  | bars new =>
    have written : ∀ j, Touched symbol s.disk (s.writeFile (barsFile symbol) j).1.disk := fun j => by
      rw [writeFile_fst]
      exact touched_of_rewritten (replace_rewritten ..) fun q => own_bars_place opened
    simp only [save, saveBars_eq]
    split
    · exact ⟨rfl, .rfl⟩
    · split
      · exact ⟨rfl, .rfl⟩
      · split
        · exact ⟨rfl, .rfl⟩
        · exact ⟨by rw [writeFile_fst], written _⟩
  | record day r =>
    have made := touched_makeFolders opened symbol
    simp only [save, saveRecord_eq]
    split
    · rename_i folders
      rw [folders] at made
      exact ⟨rfl, made⟩
    · rename_i folders
      rw [folders] at made
      rw [writeFile_fst]
      exact ⟨rfl, made.trans (touched_of_rewritten (replace_rewritten ..) fun q => own_record_place (made.opened opened) day)⟩

theorem touched_saveAll (opened : Opened s.disk) (symbol : String) (savings : List Saving) :
    (s.saveAll symbol savings).root = s.root ∧ Touched symbol s.disk (s.saveAll symbol savings).disk := by
  induction savings generalizing s with
  | nil => exact ⟨rfl, .rfl⟩
  | cons saving rest ih =>
    obtain ⟨root, touched⟩ := touched_save opened symbol saving
    obtain ⟨root', others⟩ := ih (touched.opened opened)
    exact ⟨root'.trans root, touched.trans others⟩

/-! ### Symbols that meet -/

/-- Two symbols meet in the files: their records lie in one folder, or the folder for the
records of the first stands where a record of the second belongs. -/
def Meets (a b : String) : Prop :=
  home a = home b ∨ ∃ day : Day, day.inCalendar = true ∧ ["divergences", stem a] = home b ++ [day.text ++ ".json"]

/-- The records of two symbols lie in one folder if their names in the files are the same, or
both leave no name. -/
theorem home_eq_iff {a b : String} : home a = home b ↔
    stem a = stem b ∨ (stem a = "" ∨ stem a = ".") ∧ (stem b = "" ∨ stem b = ".") := by
  constructor
  · intro same
    rcases home_cases a with ⟨nameless, place⟩ | ⟨up, place⟩ | ⟨plain, place⟩ <;>
      rcases home_cases b with ⟨nameless', place'⟩ | ⟨up', place'⟩ | ⟨plain', place'⟩ <;>
      rw [place, place'] at same
    · exact .inr ⟨nameless, nameless'⟩
    · cases same
    · cases same
    · cases same
    · exact .inl (up.trans up'.symm)
    · cases same
    · cases same
    · cases same
    · exact .inl (List.cons.inj (List.cons.inj same).2).1
  · rintro (same | ⟨nameless, nameless'⟩)
    · rw [home, home, same]
    · rw [home, home, if_pos nameless, if_pos nameless']

/-- Symbols that are their own file names meet only themselves. -/
theorem not_meets_of_named {a b : String} (ha : Named a) (hb : Named b) (other : a ≠ b) : ¬ Meets a b := by
  have own : home b = ["divergences", b] := by
    rw [home, hb.own, if_neg hb.plain.named, if_neg hb.plain.no_dots]
  rintro (same | ⟨day, -, place⟩)
  · rcases home_eq_iff.mp same with same | ⟨nameless, -⟩
    · rw [ha.own, hb.own] at same
      exact other same
    · rw [ha.own] at nameless
      exact ha.plain.named nameless
  · rw [own] at place
    cases place

/-- The answers about a symbol are the same. -/
structure SameAnswers (symbol : String) (s s' : FileStore) : Prop where
  bars : ∀ since, Store.loadBars s' symbol since = Store.loadBars s symbol since
  latest : ∀ since, Store.latestBar s' symbol since = Store.latestBar s symbol since
  records : ∀ day : Day, day.inCalendar = true → Store.loadRecord s' symbol day = Store.loadRecord s symbol day

/-- What leads to the same on the other disk is read the same. -/
theorem get?_of_touched {a : String} (touched : Touched a d d') {p : Path} {q : Path}
    (through : ∀ first, first <+: p → ∀ q, d.walk [] first = some q → q ≠ ["divergences", stem a])
    (leads : ∀ q', d.walk [] p = some q' → q' = q) (other : ¬ Own a q) : d'.get? p = d.get? p := by
  have same : d'.walk [] p = d.walk [] p :=
    walk_congr_through fun first h q hq => touched.folders q (through first h q hq)
  rw [get?, get?, same]
  cases place : d.walk [] p with
  | none => rfl
  | some q' =>
    obtain rfl := leads q' place
    exact touched.others q' other

section Apart
variable {a b : String}

/-- Bars under another stem are not owned, -/
theorem not_own_bars (other : stem a ≠ stem b) : ¬ Own a ["bars", stem b ++ ".json"] := by
  generalize place : ["bars", stem b ++ ".json"] = p
  rintro own
  cases own with
  | bars =>
    have same := (List.cons.inj (List.cons.inj place).2).1
    exact other ((String.append_left_inj _).mp same).symm
  | record day => rcases home_cases a with ⟨-, home⟩ | ⟨-, home⟩ | ⟨-, home⟩ <;> simp [home] at place
  | folder => simp at place
  | temporary folder name =>
    have place : ["bars"] ++ [stem b ++ ".json"] = folder ++ [name ++ ".json.tmp"] := place
    exact temporary_ne_json _ _ (List.append_singleton_inj.mp place).2.symm

/-- and so they stay. -/
theorem get?_bars_of_touched (other : stem a ≠ stem b) (touched : Touched a d d') :
    d'.get? (barsFile b).path = d.get? (barsFile b).path := by
  refine get?_of_touched touched ?_ (fun q hq => walk_eq_some (plain_barsPath b) hq) (not_own_bars other)
  intro first within q hq same
  have there : q = first := walk_eq_some (fun name h => plain_barsPath b name (within.subset h)) hq
  rw [← there, same] at within
  simp [Target.path, barsFile] at within

variable (apart : ¬ Meets a b)
include apart

theorem stem_ne_of_apart : stem a ≠ stem b := fun same => apart (.inl (home_eq_iff.mpr (.inl same)))

/-- The first symbol owns neither the records of the second -/
theorem not_own_record {day : Day} (inside : day.inCalendar = true) : ¬ Own a (home b ++ [day.text ++ ".json"]) := by
  generalize place : home b ++ [day.text ++ ".json"] = p
  rintro own
  cases own with
  | bars => rcases home_cases b with ⟨-, home⟩ | ⟨-, home⟩ | ⟨-, home⟩ <;> simp [home] at place
  | record day' => exact apart (.inl (List.append_singleton_inj.mp place).1.symm)
  | folder => exact apart (.inr ⟨day, inside, place.symm⟩)
  | temporary folder name => exact temporary_ne_json _ _ (List.append_singleton_inj.mp place).2.symm

/-- nor the folder they are in. -/
theorem home_ne_folder : home b ≠ ["divergences", stem a] := by
  intro same
  rcases home_cases b with ⟨-, home⟩ | ⟨-, home⟩ | ⟨-, home⟩ <;> rw [home] at same
  · cases same
  · cases same
  · exact stem_ne_of_apart apart (List.cons.inj (List.cons.inj same).2).1.symm

theorem get?_record_of_touched (opened : Opened d) (touched : Touched a d d') {day : Day} (inside : day.inCalendar = true) :
    d'.get? (recordFile b day).path = d.get? (recordFile b day).path := by
  have path : (recordFile b day).path = [] ++ ["divergences"] ++ [stem b] ++ [day.text ++ ".json"] := rfl
  refine get?_of_touched touched ?_ (fun q hq => place_of_record opened (plain_json _) hq) (not_own_record apart inside)
  intro first within q hq
  rw [path, List.prefix_concat_iff, List.prefix_concat_iff, List.prefix_concat_iff, List.prefix_nil] at within
  rcases within with rfl | rfl | rfl | rfl
  · rw [place_of_record opened (plain_json _) hq]
    exact fun same => apart (.inr ⟨day, inside, same.symm⟩)
  · have reached := walk_home opened b
    rw [show d.walk [] ["divergences", stem b] = some q from hq] at reached
    split at reached
    · rw [Option.some.inj reached]
      exact home_ne_folder apart
    · cases reached
  · rw [walk_eq_some (List.forall_mem_singleton.mpr plain_divergences) hq]
    simp
  · rw [← Option.some.inj hq]
    simp

/-- So all that can be asked about the second symbol is answered as before. -/
theorem sameAnswers_of_touched {s s' : FileStore} (opened : Opened s.disk) (root : s'.root = s.root)
    (touched : Touched a s.disk s'.disk) : SameAnswers b s s' := by
  have bars : s'.bars b = s.bars b := by
    rw [bars, bars, readFile_of_get? root (get?_bars_of_touched (stem_ne_of_apart apart) touched)]
  have records : ∀ day : Day, day.inCalendar = true → s'.record b day = s.record b day := fun day inside => by
    rw [record, record, readFile_of_get? root (get?_record_of_touched apart opened touched inside)]
  have loaded : ∀ since, Store.loadBars s' b since = Store.loadBars s b since := fun since =>
    congrArg (Except.map (·.filter fun b => since.ms ≤ b.time.ms)) bars
  exact ⟨loaded, fun since => congrArg (Except.map List.getLast?) (loaded since), records⟩

end Apart

/-! ### A save that disturbs another symbol -/

/-- The store as it is opened in an empty folder. -/
def fresh (root : String) : FileStore :=
  ⟨root, none, ⟨Table.ofList [(["bars"], .folder), (["divergences"], .folder)]⟩⟩

theorem create?_fresh (root : String) : create? root none = some (fresh root) := rfl

theorem eq_fresh_of_create? {root : String} {retention : Option Int} {s : FileStore} (made : create? root retention = some s) :
    s = { fresh root with retention } := by
  rw [create?] at made
  split at made
  · exact (Option.some.inj made).symm
  · cases made

theorem opened_fresh (root : String) : Opened (fresh root).disk := ⟨rfl, rfl⟩

theorem node?_fresh (root : String) (q : Path) : (fresh root).disk.node? q =
    if q = [] ∨ q = ["bars"] ∨ q = ["divergences"] then some .folder else none := by
  have nodes : (fresh root).disk.nodes.find? q =
      if q = ["divergences"] then some .folder else if q = ["bars"] then some .folder else none := by
    show ((Table.empty.insert ["bars"] Node.folder).insert ["divergences"] .folder).find? q = _
    simp only [Table.find?_insert, eq_comm (b := q)]
    rfl
  rw [node?, nodes]
  by_cases top : q = [] <;> by_cases bars : q = ["bars"] <;> by_cases divergences : q = ["divergences"] <;>
    simp [top, bars, divergences]

theorem closed_fresh (root : String) : (fresh root).disk.Closed := (create?_spec (create?_fresh root)).1.closed

/-- No path of bars leads to a file yet. -/
theorem get?_bars_fresh (root symbol : String) : (fresh root).disk.get? (barsFile symbol).path = none := by
  rw [get?_closed (closed_fresh root) (plain_barsPath symbol), node?_fresh]
  exact if_neg (by simp [Target.path, barsFile])

variable {a b : String} {root : String}

/-- Below the path of its records a symbol's files are in its home. -/
theorem walk_records (opened : Opened d) (closed : d.Closed) (short : Short (stem a)) (there : d.isFolder (home a) = true)
    (name : String) : d.walk [] (["divergences", stem a] ++ [name]) = d.walk [] (home a ++ [name]) := by
  rw [walk_append, walk_append, walk_home opened, if_pos short, walk_folder closed (home_plain a) there]

/-- Making the folder of the records goes through, and adds that folder alone. -/
theorem makeFolders_fresh (root : String) (short : Short (stem a)) :
    ∃ d, (fresh root).disk.makeFolders (recordFolder a) = (d, true) ∧ d.Closed ∧
      ∀ q, d.node? q = if q = home a then some .folder else (fresh root).disk.node? q := by
  have standing : ∀ {place : Path}, (fresh root).disk.node? place = some .folder →
      ∀ q, (fresh root).disk.node? q = if q = place then some .folder else (fresh root).disk.node? q := by
    intro place there q
    split
    · rename_i same
      rw [same, there]
    · rfl
  have closed := closed_fresh root
  rw [recordFolder]
  rcases home_cases a with ⟨nameless, home⟩ | ⟨up, home⟩ | ⟨plain, home⟩ <;> rw [home]
  · rw [if_pos nameless]
    exact ⟨_, rfl, closed, standing rfl⟩
  · rw [up, if_neg (by decide)]
    exact ⟨_, rfl, closed, standing rfl⟩
  · rw [if_neg plain.named]
    refine makeFolders_child closed ["divergences"] (stem a) (List.forall_mem_singleton.mpr plain_divergences) rfl
      plain short fun text there => ?_
    rw [node?_fresh] at there
    simp at there

/-- The first record goes through, whatever name the symbol has that is not too long. -/
theorem saveRecord_fresh (root : String) (short : Short (stem a)) {day : Day} (inside : day.inCalendar = true)
    (r : DayRecord) : ∃ d, (fresh root).saveRecord a day r = (⟨root, none, d⟩, .ok ()) ∧ Opened d ∧ d.Closed ∧
      d.isFolder (home a) = true ∧ d.node? (home a ++ [day.text ++ ".json"]) = some (.file (some r.json.compact)) := by
  obtain ⟨d, made, closed, nodes⟩ := makeFolders_fresh root short
  have folder : ∀ {q}, (fresh root).disk.isFolder q = true → d.isFolder q = true := by
    intro q there
    rw [isFolder_iff, nodes, isFolder_iff.mp there, ite_self]
  have opened : Opened d := ⟨folder (opened_fresh root).bars, folder (opened_fresh root).divergences⟩
  have there : d.isFolder (home a) = true := by rw [isFolder_iff, nodes, if_pos rfl]
  have empty : ∀ {name : String}, name.toList.getLast? ≠ some 's' → d.node? (home a ++ [name]) = none := by
    intro name ending
    have other : name ≠ "bars" ∧ name ≠ "divergences" := by
      constructor <;> rintro rfl <;> exact ending (by decide)
    rw [nodes, if_neg (by simp), node?_fresh, if_neg]
    rcases home_cases a with ⟨-, home⟩ | ⟨-, home⟩ | ⟨-, home⟩ <;> simp [home, other]
  have free : d.isFolder (home a ++ [day.text ++ ".json"]) = false := by
    rw [isFolder, empty (by rw [last_json]; decide)]
    rfl
  have room := Day.short_text inside
  obtain ⟨d', replaced, closed', nodes'⟩ := replace_spec closed (home_plain a) there (plain_json day.text)
    (short_of_temporary room) (plain_temporary day.text) room (temporary_ne_json _ _)
    (empty (by rw [last_temporary]; decide)) free r.json.compact
  rw [← replace_congr (walk_records opened closed short there _) (walk_records opened closed short there _)] at replaced
  have folder' : ∀ {q}, d.isFolder q = true → d'.isFolder q = true := by
    intro q standing
    rw [isFolder_iff, nodes', if_neg, isFolder_iff.mp standing]
    rintro rfl
    rw [free] at standing
    cases standing
  refine ⟨d', ?_, ⟨folder' opened.bars, folder' opened.divergences⟩, closed', folder' there, by rw [nodes', if_pos rfl]⟩
  simp only [saveRecord_eq, made]
  rw [writeFile, temporary_recordFile, path_recordFile, replaced]
  rfl

/-- A record with one empty list. -/
def marker : DayRecord := Table.ofList [("5Min", [])]

theorem readsAs_marker : Json.ReadsAs DayRecord.ofWritten? marker.json marker := by
  refine DayRecord.readsAs_json ⟨List.pairwise_singleton _ _, fun e he d hd => ?_⟩
  rw [List.mem_singleton.mp he] at hd
  cases hd

theorem loadRecord_fresh (root b : String) (day : Day) : Store.loadRecord (fresh root) b day = .ok .empty := by
  have missing : (fresh root).disk.get? (recordFile b day).path = none := by
    rw [get?]
    cases place : (fresh root).disk.walk [] (recordFile b day).path with
    | none => rfl
    | some q =>
      rw [path_recordFile] at place
      rw [place_of_record (opened_fresh root) (plain_json _) place, Option.bind_some, node?_fresh, if_neg]
      have name : day.text ++ ".json" ≠ "bars" ∧ day.text ++ ".json" ≠ "divergences" := by
        constructor <;> intro same <;> have ends := last_json day.text <;> rw [same] at ends <;> cases ends
      rcases home_cases b with ⟨-, home⟩ | ⟨-, home⟩ | ⟨-, home⟩ <;> simp [home, name]
  show ((fresh root).readFile _ _).map _ = _
  rw [readFile, contains, missing]
  rfl

/-- Where two symbols meet, a first record of the one changes an answer about the other. -/
theorem disturbs (root : String) (short : Short (stem a)) (meets : Meets a b) :
    ∃ day : Day, day.inCalendar = true ∧ ((fresh root).save a (.record ⟨0⟩ marker)).2 = .ok () ∧
      Store.loadRecord (fresh root) b day = .ok .empty ∧
      Store.loadRecord ((fresh root).save a (.record ⟨0⟩ marker)).1 b day ≠ .ok .empty := by
  obtain ⟨d, saved, opened, closed, there, written⟩ := saveRecord_fresh root short
    (show (⟨0⟩ : Day).inCalendar = true by decide) marker
  rw [save, saved]
  rcases meets with same | ⟨day, inside, place⟩
  · -- the record of the first is that of the second
    refine ⟨⟨0⟩, by decide, rfl, loadRecord_fresh root b _, ?_⟩
    have short' : Short (stem b) := by
      rcases home_eq_iff.mp same with stems | ⟨-, nameless⟩
      · rwa [← stems]
      · rcases nameless with stem | stem <;> rw [stem] <;> decide
    have leads : d.get? (recordFile b ⟨0⟩).path = some (.file (some marker.json.compact)) := by
      rw [path_recordFile, get?, walk_records opened closed short' (same ▸ there),
        walk_child closed (home_plain b) (same ▸ there) (plain_json _) (by decide), Option.bind_some, ← same, written]
    show Except.map _ (readFile _ _ _) ≠ _
    simp only [readFile, contains, read?, leads, readsAs_marker.ofText?]
    decide
  · -- its folder stands where the record of the second belongs
    refine ⟨day, inside, rfl, loadRecord_fresh root b _, ?_⟩
    have above : home b = ["divergences"] ∧ stem a = day.text ++ ".json" :=
      (List.append_singleton_inj.mp (show ["divergences"] ++ [stem a] = _ from place)).imp .symm id
    have own : home a = home b ++ [day.text ++ ".json"] := by
      have plain : Plain (stem a) := above.2 ▸ plain_json _
      rw [home, if_neg plain.named, if_neg plain.no_dots, place]
    have short' : Short (stem b) := by
      rcases home_cases b with ⟨stem | stem, -⟩ | ⟨stem, -⟩ | ⟨-, below⟩
      · rw [stem]; decide
      · rw [stem]; decide
      · rw [stem]; decide
      · rw [below] at above
        cases above.1
    have outer : d.isFolder (home b) = true := above.1 ▸ opened.divergences
    have leads : d.get? (recordFile b day).path = some .folder := by
      rw [path_recordFile, get?, walk_records opened closed short' outer,
        walk_child closed (home_plain b) outer (plain_json _) (above.2 ▸ short), Option.bind_some, ← own,
        isFolder_iff.mp there]
    show Except.map _ (readFile _ _ _) ≠ _
    simp only [readFile, contains, read?, leads]
    intro same
    cases same

/-! ### When symbols are isolated -/

/-- Nothing is saved for a symbol whose name in the files is too long. -/
theorem save_long (opened : Opened s.disk) (long : ¬ Short (stem a)) (saving : Saving) : (s.save a saving).1 = s := by
  have named : Plain (stem a) := by
    rcases home_cases a with ⟨stem | stem, -⟩ | ⟨stem, -⟩ | ⟨plain, -⟩
    · exact absurd (by rw [stem]; decide) long
    · exact absurd (by rw [stem]; decide) long
    · exact absurd (by rw [stem]; decide) long
    · exact plain
  cases saving with
  | bars new =>
    have temporary : (barsFile a).temporary = ["bars", stem a ++ ".json.tmp"] :=
      congrArg (["bars"] ++ [·]) ((if_neg named.some_name).trans (if_neg named.no_dot))
    have nowhere : s.disk.walk [] (barsFile a).temporary = none := by
      rw [temporary, walk_plain plain_bars, if_pos ⟨rfl, by decide⟩, List.nil_append, walk_plain (plain_temporary _),
        if_neg]
      rintro ⟨-, short⟩
      refine long (Nat.le_trans ?_ short)
      rw [String.utf8ByteSize_append]
      exact Nat.le_add_right ..
    have unwritten : ∀ j, (s.writeFile (barsFile a) j).1 = s := fun j => by
      rw [writeFile_fst, replace_eq, write?, filePlace?, nowhere]
      rfl
    simp only [save, saveBars_eq]
    repeat' split
    all_goals first | rfl | exact unwritten _
  | record day r =>
    have unmade : s.disk.makeFolders (recordFolder a) = (s.disk, false) := by
      rw [recordFolder, if_neg named.named, makeFolders, makeFoldersFrom_plain rfl plain_divergences (by decide),
        List.nil_append, isFolder_iff.mp opened.divergences, Option.isSome_some, if_pos rfl, makeFoldersFrom,
        if_neg (by simp [opened.divergences]), if_neg named.named, if_neg named.no_dots,
        if_pos (Nat.lt_of_not_le long)]
    simp only [save, saveRecord_eq, unmade]

/-- Whatever is saved for the first symbol in an open store, everything that can be asked
about the second is answered as before. -/
def Isolated (a b : String) : Prop :=
  ∀ s : FileStore, Opened s.disk → ∀ savings, SameAnswers b s (s.saveAll a savings)

theorem isolated_of_apart (apart : ¬ Meets a b) : Isolated a b := fun _ opened savings =>
  have ⟨root, touched⟩ := touched_saveAll opened a savings
  sameAnswers_of_touched apart opened root touched

theorem isolated_of_long (long : ¬ Short (stem a)) : Isolated a b := by
  intro s opened savings
  have unchanged : s.saveAll a savings = s := by
    induction savings with
    | nil => rfl
    | cons saving rest ih =>
      rw [saveAll, List.foldl_cons, save_long opened long]
      exact ih
  rw [unchanged]
  exact ⟨fun _ => rfl, fun _ => rfl, fun _ _ => rfl⟩

/-- **Symbols are isolated unless they meet in the files.** Whatever is saved for one symbol,
failing or not, all that can be asked about another is answered as before, unless the two
meet and the name of the first is not too long. Where they do, there is a record of the first
that an empty store saves without a failure and that changes an answer about the second.
Different symbols that are their own file names are isolated. -/
theorem isolated_iff (a b : String) :
    (Isolated a b ↔ ¬ (Short (stem a) ∧ Meets a b)) ∧
      (Short (stem a) → Meets a b → ∀ root, ∃ saving, ((fresh root).save a saving).2 = .ok () ∧
        ¬ SameAnswers b (fresh root) ((fresh root).save a saving).1) ∧
      (Named a → Named b → a ≠ b → Isolated a b) := by
  have disturbed : Short (stem a) → Meets a b → ∀ root, ∃ saving, ((fresh root).save a saving).2 = .ok () ∧
      ¬ SameAnswers b (fresh root) ((fresh root).save a saving).1 := by
    intro short meets root
    obtain ⟨day, inside, saved, before, after⟩ := disturbs root short meets
    exact ⟨_, saved, fun same => after ((same.records day inside).trans before)⟩
  refine ⟨⟨fun isolated ⟨short, meets⟩ => ?_, fun apart => ?_⟩, disturbed, fun ha hb other => ?_⟩
  · obtain ⟨saving, -, differ⟩ := disturbed short meets ""
    exact differ (isolated (fresh "") (opened_fresh "") [saving])
  · by_cases short : Short (stem a)
    · exact isolated_of_apart fun meets => apart ⟨short, meets⟩
    · exact isolated_of_long short
  · exact isolated_of_apart (not_meets_of_named ha hb other)

theorem named_of_toList {symbol : String}
    (own : (symbol.toList.map fun c => if c.isAlphanum || c == '.' || c == '-' then c else '_') = symbol.toList)
    (plain : Plain symbol) : Named symbol :=
  ⟨String.toList_inj.mp (by rw [stem, String.toList_map, own]), plain⟩

theorem isolated_iff_tickers : Named "XYZ" ∧ Named "BRK.B" ∧ Isolated "XYZ" "BRK.B" := by
  have own : Named "XYZ" := named_of_toList (by decide) (plain_of_length (by decide))
  have other : Named "BRK.B" := named_of_toList (by decide) (plain_of_length (by decide))
  exact ⟨own, other, (isolated_iff "XYZ" "BRK.B").2.2 own other (by decide)⟩

/-- A slash and an underscore are one name in the files. -/
theorem slash_meets_underscore : "BRK/B" ≠ "BRK_B" ∧ Meets "BRK/B" "BRK_B" ∧ ¬ Isolated "BRK/B" "BRK_B" := by
  have slash : stem "BRK/B" = "BRK_B" := String.toList_inj.mp (by rw [stem, String.toList_map]; decide)
  have underscore : Named "BRK_B" := named_of_toList (by decide) (plain_of_length (by decide))
  have meets : Meets "BRK/B" "BRK_B" := .inl (home_eq_iff.mpr (.inl (slash.trans underscore.own.symm)))
  refine ⟨by decide, meets, fun isolated => ?_⟩
  obtain ⟨day, inside, -, before, after⟩ := disturbs "" (slash ▸ by decide) meets
  exact after (((isolated (fresh "") (opened_fresh "") [.record ⟨0⟩ marker]).records day inside).trans before)

end TickerBoard.FileStore

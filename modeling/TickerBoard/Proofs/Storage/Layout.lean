import TickerBoard.Proofs.Calendar.DayText
import TickerBoard.Proofs.Storage.Directory
import TickerBoard.Proofs.Storage.Encoding

/-! The files of a store.

A store leaves its disk tidy (`Tidy`): there is nothing on it but the list of
instruments, files of bars and, in a folder for each symbol, files of records,
and no file that was still to be moved. On a tidy disk a write of a symbol whose
name can be a file's goes through, the value is read back, and every other file
reads as before (`writeFile_spec`, `saveRecord_spec`). -/
namespace TickerBoard
open Directory

/-! ### Names -/

theorem Directory.plain_of_length {name : String} (long : 2 < name.length) : Plain name := by
  constructor <;> rintro rfl <;> exact absurd long (by decide)

theorem Directory.plain_json (stem : String) : Plain (stem ++ ".json") :=
  plain_of_length (by rw [String.length_append]; exact Nat.lt_add_left _ (by decide))

theorem Directory.plain_temporary (stem : String) : Plain (stem ++ ".json.tmp") :=
  plain_of_length (by rw [String.length_append]; exact Nat.lt_add_left _ (by decide))

theorem last_json (stem : String) : (stem ++ ".json").toList.getLast? = some 'n' := by
  rw [String.toList_append, List.getLast?_append_of_ne_nil _ (by decide)]
  rfl

theorem last_temporary (stem : String) : (stem ++ ".json.tmp").toList.getLast? = some 'p' := by
  rw [String.toList_append, List.getLast?_append_of_ne_nil _ (by decide)]
  rfl

/-- No file of a store is named like one that is still to be moved. -/
theorem temporary_ne_json (a b : String) : a ++ ".json.tmp" ≠ b ++ ".json" := by
  intro same
  have ends := last_temporary a
  rw [same, last_json] at ends
  cases ends

theorem short_of_temporary {stem : String} (h : Short (stem ++ ".json.tmp")) : Short (stem ++ ".json") := by
  have temporary : ".json.tmp".utf8ByteSize = 9 := rfl
  have ending : ".json".utf8ByteSize = 5 := rfl
  unfold Short at *
  rw [String.utf8ByteSize_append] at *
  omega

theorem utf8ByteSize_ofList_le (cs : List Char) : (String.ofList cs).utf8ByteSize ≤ 4 * cs.length := by
  induction cs with
  | nil => exact Nat.le_refl 0
  | cons c rest ih =>
    have := c.utf8Size_le_four
    rw [String.ofList_cons, String.utf8ByteSize_append, String.utf8ByteSize_singleton, List.length_cons]
    omega

/-- The text of a day leaves room for the endings. -/
theorem Day.short_text {d : Day} (inside : d.inCalendar = true) : Short (d.text ++ ".json.tmp") := by
  have ending : ".json.tmp".utf8ByteSize = 9 := rfl
  have limit : nameLimit = 255 := rfl
  have bytes := utf8ByteSize_ofList_le d.text.toList
  have chars := d.length_text_le inside
  rw [String.ofList_toList] at bytes
  unfold Short
  rw [String.utf8ByteSize_append]
  omega

namespace FileStore

/-- A symbol that is its own file name. -/
structure Named (symbol : String) : Prop where
  own : stem symbol = symbol
  plain : Plain symbol

/-- The folders that files are in. -/
inductive Home : Path → Prop
  | root : Home []
  | bars : Home ["bars"]
  | records {symbol : String} (plain : Plain symbol) : Home ["divergences", symbol]

theorem Home.plain {folder : Path} (home : Home folder) : ∀ name ∈ folder, Plain name := by
  have top : Plain "bars" ∧ Plain "divergences" := ⟨plain_of_length (by decide), plain_of_length (by decide)⟩
  cases home with
  | root => exact nofun
  | bars => exact List.forall_mem_singleton.mpr top.1
  | records plain => exact List.forall_mem_cons.mpr ⟨top.2, List.forall_mem_singleton.mpr plain⟩

/-- A file that is in a folder of the store, and whose stem leaves it a name. -/
structure Target.Usable (t : Target) : Prop where
  home : Home t.folder
  some_stem : t.stem ≠ ""
  no_dot : t.stem ≠ "."

theorem Target.Usable.plain {t : Target} (usable : t.Usable) : ∀ name ∈ t.path, Plain name :=
  List.forall_mem_append.mpr ⟨usable.home.plain, List.forall_mem_singleton.mpr (plain_json t.stem)⟩

theorem Target.Usable.temporary_eq {t : Target} (usable : t.Usable) :
    t.temporary = t.folder ++ [t.stem ++ ".json.tmp"] := by
  rw [Target.temporary, if_neg usable.some_stem, if_neg usable.no_dot]

/-- No file is where the folder of a symbol's records may be. -/
theorem Target.Usable.path_ne {t : Target} (usable : t.Usable) (symbol : String) : t.path ≠ ["divergences", symbol] := by
  obtain ⟨folder, stem⟩ := t
  have home : Home folder := usable.home
  cases home <;> simp [Target.path]

theorem Target.path_inj {t t' : Target} (h : t.path = t'.path) : t = t' := by
  obtain ⟨folder, name⟩ := List.append_singleton_inj.mp h
  obtain ⟨_, _⟩ := t
  obtain ⟨_, _⟩ := t'
  exact congr (congrArg Target.mk folder) ((String.append_left_inj _).mp name)

theorem usable_instruments : instrumentsFile.Usable := ⟨.root, by decide, by decide⟩

theorem usable_bars {symbol : String} (named : Named symbol) : (barsFile symbol).Usable := by
  have stem : (barsFile symbol).stem = symbol := named.own
  exact ⟨.bars, by rw [stem]; exact named.plain.some_name, by rw [stem]; exact named.plain.no_dot⟩

theorem usable_record {symbol : String} (named : Named symbol) (day : Day) : (recordFile symbol day).Usable := by
  have hyphen := day.hyphen_mem_text
  refine ⟨?_, ?_, ?_⟩
  · show Home ["divergences", stem symbol]
    rw [named.own]
    exact .records named.plain
  · rintro (none : day.text = "")
    rw [none] at hyphen
    cases hyphen
  · rintro (dot : day.text = ".")
    rw [dot] at hyphen
    exact absurd hyphen (by decide)

theorem barsFile_inj {a b : String} (ha : Named a) (hb : Named b) (h : barsFile a = barsFile b) : a = b := by
  have : stem a = stem b := (Target.mk.inj h).2
  rwa [ha.own, hb.own] at this

theorem barsFile_ne_recordFile (a b : String) (day : Day) : barsFile a ≠ recordFile b day := fun same =>
  nomatch congrArg List.length (Target.mk.inj same).1

theorem recordFile_inj {a b : String} {day day' : Day} (ha : Named a) (hb : Named b)
    (inside : day.inCalendar = true) (inside' : day'.inCalendar = true) (h : recordFile a day = recordFile b day') :
    a = b ∧ day = day' := by
  obtain ⟨folder, text⟩ := Target.mk.inj h
  have : stem a = stem b := (List.cons.inj (List.cons.inj folder).2).1
  rw [ha.own, hb.own] at this
  exact ⟨this, Day.text_injective inside inside' text⟩

/-! ### Tidy disks -/

/-- The disk as a store leaves it. -/
structure Tidy (d : Directory) : Prop where
  closed : d.Closed
  bars : d.isFolder ["bars"] = true
  divergences : d.isFolder ["divergences"] = true
  folders : ∀ p, d.isFolder p = true →
    p = [] ∨ p = ["bars"] ∨ p = ["divergences"] ∨ ∃ symbol, p = ["divergences", symbol]
  files : ∀ p text, d.node? p = some (.file text) → ∃ t : Target, t.Usable ∧ p = t.path

namespace Tidy
variable {d : Directory}

theorem not_folder (tidy : Tidy d) {folder : Path} (home : Home folder) {name : String}
    (ending : name.toList.getLast? ≠ some 's') : d.isFolder (folder ++ [name]) = false := by
  have other : name ≠ "bars" ∧ name ≠ "divergences" := by
    constructor <;> rintro rfl <;> exact ending (by decide)
  by_contra there
  have place := tidy.folders _ (Bool.of_not_eq_false there)
  cases home <;> simp [other] at place

/-- No file of a store is in the way of another. -/
theorem free (tidy : Tidy d) {t : Target} (usable : t.Usable) : d.isFolder t.path = false :=
  tidy.not_folder usable.home (by rw [last_json]; decide)

/-- Nothing was left to be moved. -/
theorem unused (tidy : Tidy d) {t : Target} (usable : t.Usable) :
    d.node? (t.folder ++ [t.stem ++ ".json.tmp"]) = none := by
  cases there : d.node? (t.folder ++ [t.stem ++ ".json.tmp"]) with
  | none => rfl
  | some node =>
    cases node with
    | folder =>
      have other : d.isFolder (t.folder ++ [t.stem ++ ".json.tmp"]) = false :=
        tidy.not_folder usable.home (by rw [last_temporary]; decide)
      rw [isFolder_iff.mpr there] at other
      cases other
    | file text =>
      obtain ⟨t', -, place⟩ := tidy.files _ text there
      exact absurd (List.append_singleton_inj.mp place).2 (temporary_ne_json _ _)

/-- A file of the store leaves the disk tidy. -/
theorem filed (tidy : Tidy d) {d' : Directory} (closed : d'.Closed) {t : Target} (usable : t.Usable) {text : Option String}
    (nodes : ∀ q, d'.node? q = if q = t.path then some (.file text) else d.node? q) : Tidy d' := by
  have kept : Rewritten (fun _ => True) d d' := rewritten_of_nodes (tidy.free usable) trivial nodes nofun
  have folders := kept.folders
  refine ⟨closed, by rw [folders, tidy.bars], by rw [folders, tidy.divergences],
    fun p there => tidy.folders p (by rwa [folders] at there), fun p text there => ?_⟩
  rw [nodes] at there
  split at there
  · rename_i same
    exact ⟨t, usable, same⟩
  · exact tidy.files p text there

/-- A folder for the records of a symbol leaves the disk tidy. -/
theorem folded (tidy : Tidy d) {d' : Directory} (closed : d'.Closed) {symbol : String}
    (nodes : ∀ q, d'.node? q = if q = ["divergences", symbol] then some .folder else d.node? q) : Tidy d' := by
  have folders : ∀ q, q ≠ ["divergences", symbol] → d'.isFolder q = d.isFolder q := fun q other => by
    rw [isFolder, nodes, if_neg other]
    rfl
  refine ⟨closed, by rw [folders _ (by simp), tidy.bars], by rw [folders _ (by simp), tidy.divergences],
    fun p there => ?_, fun p text there => ?_⟩
  · by_cases own : p = ["divergences", symbol]
    · exact .inr (.inr (.inr ⟨symbol, own⟩))
    · exact tidy.folders p (by rwa [folders p own] at there)
  · rw [nodes] at there
    split at there
    · cases there
    · exact tidy.files p text there

end Tidy

/-! ### Reading -/

section Read
variable {α : Type} {decode : Json.Written → Option α} {s s' : FileStore} {t : Target}

theorem readFile_missing (closed : s.disk.Closed) (usable : t.Usable) (missing : s.disk.node? t.path = none) :
    s.readFile decode t = .ok none := by
  rw [readFile, contains, get?_closed closed usable.plain, missing]
  rfl

/-- A value that was written is read back. -/
theorem readFile_written (closed : s.disk.Closed) (usable : t.Usable) {j : Json} {a : α} (reads : Json.ReadsAs decode j a)
    (there : s.disk.node? t.path = some (.file (some j.compact))) : s.readFile decode t = .ok (some a) := by
  simp only [readFile, contains, read?, get?_closed closed usable.plain, there, reads.ofText?]
  rfl

/-- What is read depends only on what the path of the file leads to. -/
theorem readFile_of_get? (root : s'.root = s.root) (same : s'.disk.get? t.path = s.disk.get? t.path) :
    s'.readFile decode t = s.readFile decode t := by
  simp only [readFile, contains, read?, same, display, root]
  rfl

/-- On closed disks that is what stands under it. -/
theorem readFile_congr (closed : s.disk.Closed) (closed' : s'.disk.Closed) (usable : t.Usable) (root : s'.root = s.root)
    (same : s'.disk.node? t.path = s.disk.node? t.path) : s'.readFile decode t = s.readFile decode t :=
  readFile_of_get? root (by rw [get?_closed closed usable.plain, get?_closed closed' usable.plain, same])

end Read

/-! ### Operations on a disk where no call breaks off -/

section Unbroken
variable (s : FileStore)

/-- Puts a new version of a file in its place. -/
def writeFile (t : Target) (j : Json) : FileStore × Except StoreFault Unit :=
  match s.disk.replace t.temporary t.path j.compact with
  | (disk, .ok ()) => ({ s with disk }, .ok ())
  | (disk, .error .write) => ({ s with disk }, .error (.write (s.display t.temporary)))
  | (disk, .error .rename) => ({ s with disk }, .error (.rename (s.display t.path)))

/-- The calls for it, on a disk where folders may be new, come to that. -/
theorem carryOut_writing (disk : Directory) (t : Target) (j : Json) :
    (match disk.carryOut (s.writing t j) [] with
      | (disk, result) => (({ s with disk } : FileStore), result)) = { s with disk }.writeFile t j := by
  rw [writing, carryOut_replacing, writeFile, replace_eq]
  cases disk.write? t.temporary (some j.compact) with
  | none => rfl
  | some beside =>
    dsimp only
    cases beside.rename? t.temporary t.path <;> rfl

theorem perform_writing {op : Operation} {t : Target} {j : Json} (calls : s.calls op = .ok (s.writing t j)) :
    s.perform op [] = s.writeFile t j := by
  rw [perform, calls]
  exact s.carryOut_writing s.disk t j

theorem prepare_eq :
    s.prepare =
      match s.disk.makeFolders ["bars"] with
      | (disk, false) => ({ s with disk }, .error (.createStore (s.display ["bars"])))
      | (disk, true) =>
        match disk.makeFolders ["divergences"] with
        | (disk, false) => ({ s with disk }, .error (.createStore (s.display ["divergences"])))
        | (disk, true) => ({ s with disk }, .ok ()) := by
  simp only [prepare, perform, calls, making, carryOut, List.head?_nil, Option.join_none, Call.attempt, Call.run]
  rcases s.disk.makeFolders ["bars"] with ⟨bars, made | made⟩
  · rfl
  · dsimp only [List.tail_nil]
    rcases bars.makeFolders ["divergences"] with ⟨both, made | made⟩ <;> rfl

theorem saveBars_eq (symbol : String) (new : List (Bar Float)) :
    s.saveBars symbol new =
      if new.isEmpty then (s, .ok ())
      else
        match s.bars symbol with
        | .error e => (s, .error e)
        | .ok old =>
          match retained? s.retention (BarSeries.merge (BarSeries.merge .empty old) new).values with
          | none => (s, .error .outsideCalendar)
          | some kept => s.writeFile (barsFile symbol) (.listOf Bar.json kept) := by
  rw [saveBars]
  split
  · rename_i nothing
    rw [perform, calls, adding, if_pos nothing]
    rfl
  · rename_i something
    cases stored : s.bars symbol with
    | error e => rw [perform, calls, adding, if_neg something, stored]
    | ok old =>
      dsimp only
      cases kept : retained? s.retention (BarSeries.merge (BarSeries.merge .empty old) new).values with
      | none => simp only [perform, calls, adding, if_neg something, stored, kept]
      | some bars => exact s.perform_writing (by simp only [calls, adding, if_neg something, stored, kept])

theorem saveRecord_eq (symbol : String) (day : Day) (r : DayRecord) :
    s.saveRecord symbol day r =
      match s.disk.makeFolders (recordFolder symbol) with
      | (disk, false) => ({ s with disk }, .error (.createFolder (s.display (recordFolder symbol))))
      | (disk, true) => { s with disk }.writeFile (recordFile symbol day) r.json := by
  simp only [saveRecord, perform, calls, making]
  rw [carryOut, List.head?_nil, Option.join_none, Call.attempt, Call.run]
  rcases s.disk.makeFolders (recordFolder symbol) with ⟨disk, made | made⟩
  · rfl
  · exact s.carryOut_writing disk (recordFile symbol day) r.json

end Unbroken

/-! ### Writing -/

/-- The disk of a store changed, but what all files read as is the same, but for some. -/
structure Keeps (s s' : FileStore) (changed : Target → Prop) : Prop where
  tidy : Tidy s'.disk
  retention : s'.retention = s.retention
  others : ∀ {α : Type} (decode : Json.Written → Option α) {t : Target}, t.Usable → ¬ changed t →
    s'.readFile decode t = s.readFile decode t

/-- A write goes through: the value is read back, and every other file reads as before. -/
theorem writeFile_spec {s : FileStore} (tidy : Tidy s.disk) {t : Target} (usable : t.Usable)
    (there : s.disk.isFolder t.folder = true) (short : Short (t.stem ++ ".json.tmp")) (j : Json) :
    ∃ s', s.writeFile t j = (s', .ok ()) ∧ Keeps s s' (· = t) ∧
      ∀ {α : Type} {decode : Json.Written → Option α} {a : α}, Json.ReadsAs decode j a →
        s'.readFile decode t = .ok (some a) := by
  obtain ⟨disk, replaced, closed, nodes⟩ := replace_spec tidy.closed usable.home.plain there (plain_json t.stem)
    (short_of_temporary short) (plain_temporary t.stem) short (temporary_ne_json _ _) (tidy.unused usable)
    (tidy.free usable) j.compact
  have written : s.writeFile t j = ({ s with disk }, .ok ()) := by
    rw [writeFile, usable.temporary_eq, Target.path, replaced]
  refine ⟨_, written, ⟨tidy.filed closed usable nodes, rfl, fun decode t' usable' other => ?_⟩, fun reads => ?_⟩
  · refine readFile_congr tidy.closed closed usable' rfl ?_
    rw [nodes]
    exact if_neg fun same => other (Target.path_inj same)
  · refine readFile_written closed usable reads ?_
    rw [nodes]
    exact if_pos rfl

/-! ### The operations of a store -/

section Operations
variable {s : FileStore}

theorem changing_spec (tidy : Tidy s.disk) {names : Instruments} (stored : s.instruments = .ok names)
    {op : Operation} {change : Instruments → Instruments} (calls : s.calls op = s.changing change)
    (ascending : (change names).Ascending) :
    ∃ s', s.perform op [] = (s', .ok ()) ∧ Keeps s s' (· = instrumentsFile) ∧
      s'.instruments = .ok (change names) := by
  obtain ⟨s', written, keeps, own⟩ := writeFile_spec tidy usable_instruments rfl (by decide)
    (.listOf .text (change names).keys)
  refine ⟨s', ?_, keeps, ?_⟩
  · rw [changing, stored] at calls
    rw [s.perform_writing calls]
    exact written
  · rw [instruments, own (readsAs_instruments ascending)]
    rfl

theorem saveRecord_spec (tidy : Tidy s.disk) {symbol : String} (named : Named symbol) (short : Short symbol) {day : Day}
    (inside : day.inCalendar = true) {r : DayRecord} (encodable : r.Encodable) :
    ∃ s', s.saveRecord symbol day r = (s', .ok ()) ∧ Keeps s s' (· = recordFile symbol day) ∧
      s'.record symbol day = .ok r := by
  have path : recordFolder symbol = ["divergences", symbol] := by
    rw [recordFolder, named.own, if_neg named.plain.named]
  have outer : ∀ name ∈ ["divergences"], Plain name :=
    List.forall_mem_singleton.mpr (plain_of_length (by decide))
  have free : ∀ text, s.disk.node? ["divergences", symbol] ≠ some (.file text) := by
    intro text there
    obtain ⟨t, usable, place⟩ := tidy.files _ text there
    exact usable.path_ne symbol place.symm
  obtain ⟨disk, made, closed, nodes⟩ := makeFolders_child tidy.closed ["divergences"] symbol outer tidy.divergences
    named.plain short free
  have tidy' : Tidy disk := tidy.folded closed nodes
  have there : disk.isFolder ["divergences", symbol] = true := by
    rw [isFolder_iff, nodes]
    exact if_pos rfl
  have usable := usable_record named day
  obtain ⟨s', written, keeps, own⟩ := writeFile_spec (s := { s with disk }) tidy' usable
    (by show disk.isFolder ["divergences", stem symbol] = true; rwa [named.own]) (Day.short_text inside) r.json
  refine ⟨s', ?_, ⟨keeps.tidy, keeps.retention, fun decode t usable' other => ?_⟩, ?_⟩
  · rw [saveRecord_eq, path]
    simp only [List.singleton_append] at made
    simp only [made]
    exact written
  · rw [keeps.others decode usable' other]
    refine readFile_congr tidy.closed closed usable' rfl ?_
    rw [nodes]
    exact if_neg (usable'.path_ne symbol)
  · rw [record, own (DayRecord.readsAs_json encodable)]
    rfl

/-- Opening a store again finds the folders there, and changes nothing. -/
theorem prepare_spec (tidy : Tidy s.disk) : s.prepare = (s, .ok ()) := by
  have bars := makeFolders_there tidy.closed Home.bars.plain tidy.bars
  have divergences := makeFolders_there tidy.closed
    (List.forall_mem_singleton.mpr (plain_of_length (by decide))) tidy.divergences
  rw [prepare_eq, bars]
  simp only [divergences]

theorem closed_empty : (Directory.empty).Closed := by
  intro folder name some_node
  rw [node?, if_neg (child_ne_root _ _)] at some_node
  cases some_node

/-- A new store has its folders, and no file. -/
theorem create?_spec {root : String} {retention : Option Int} (made : create? root retention = some s) :
    Tidy s.disk ∧ s.retention = retention ∧ ∀ {α : Type} (decode : Json.Written → Option α) {t : Target}, t.Usable →
      s.readFile decode t = .ok none := by
  obtain ⟨d, madeBars, closed, nodes⟩ := makeFolders_child closed_empty [] "bars" nofun rfl
    (plain_of_length (by decide)) (by decide) (fun _ => nofun)
  obtain ⟨disk, madeDivergences, closed', nodes'⟩ := makeFolders_child closed [] "divergences" nofun
    (isFolder_iff.mpr (by rw [nodes]; rfl)) (plain_of_length (by decide)) (by decide)
    (fun text => by rw [nodes]; exact nofun)
  have standing : ∀ p, disk.node? p = if p = ["divergences"] ∨ p = ["bars"] ∨ p = [] then some .folder else none := by
    intro p
    have before : Directory.empty.node? p = if p = [] then some .folder else none := rfl
    simp only [nodes', nodes, before, List.nil_append]
    by_cases divergences : p = ["divergences"] <;> by_cases bars : p = ["bars"] <;> simp [divergences, bars]
  have same : s = ⟨root, retention, disk⟩ := by
    rw [create?] at made
    split at made
    · obtain rfl := Option.some.inj made
      simp only [List.nil_append] at madeBars madeDivergences
      rw [prepare_eq]
      simp only [madeBars, madeDivergences]
    · cases made
  subst same
  have tidy : Tidy disk := by
    refine ⟨closed', ?_, ?_, fun p there => ?_, fun p text there => ?_⟩
    · rw [isFolder_iff, standing]; rfl
    · rw [isFolder_iff, standing]; rfl
    · rw [isFolder_iff, standing] at there
      split at there
      · rename_i place
        rcases place with top | top | top
        · exact .inr (.inr (.inl top))
        · exact .inr (.inl top)
        · exact .inl top
      · cases there
    · rw [standing] at there
      split at there <;> cases there
  refine ⟨tidy, rfl, fun decode t usable => readFile_missing closed' usable ?_⟩
  have free := tidy.free usable
  rw [isFolder, standing] at free
  rw [standing]
  split
  · rename_i folder
    rw [if_pos folder] at free
    cases free
  · rfl

end Operations

end FileStore
end TickerBoard

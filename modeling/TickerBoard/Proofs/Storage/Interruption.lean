import TickerBoard.Proofs.Storage.Isolation

/-! Operations of a store that fail, or that break off.

An operation makes its calls one after another, and each of them may fail or break off
part-way, by a full disk say: then some of its folders are made, any text may be in the file
that it writes, and no file is moved. What each call keeps, all of them keep
(`carryOut_keeps`), so before it moves a new version of a file into its place an operation
has at most made folders where nothing stood, and written the temporary file
(`interrupted_of_error`). After that all that can be asked about the store is answered as
before; only records of a symbol whose name in the files is no name may be found in, or hidden
by, a folder that is new (`untouched_of_interrupted`). An operation that succeeds leaves the
new version in its place and no temporary file (`saved_of_writeFile`), and a closed disk stays
closed. `atomic_under_failure` puts these together. -/
namespace TickerBoard
open Directory

/-! ### Folders that were made -/

namespace Directory
variable {d d' : Directory} {places : Path → Prop}

/-- Folders were made, at some places only, where nothing stood. -/
def Grown (places : Path → Prop) (d d' : Directory) : Prop :=
  ∀ q, d'.node? q = d.node? q ∨ d.node? q = none ∧ places q ∧ d'.node? q = some .folder

theorem Grown.rfl : Grown places d d := fun _ => .inl (.refl _)

theorem Grown.trans {d'' : Directory} (first : Grown places d d') (second : Grown places d' d'') :
    Grown places d d'' := by
  intro q
  rcases first q with same | ⟨free, own, made⟩ <;> rcases second q with same' | ⟨free', own', made'⟩
  · exact .inl (same'.trans same)
  · exact .inr ⟨same ▸ free', own', made'⟩
  · exact .inr ⟨free, own, same'.trans made⟩
  · rw [made] at free'
    cases free'

theorem Grown.mono {places' : Path → Prop} (grown : Grown places d d') (more : ∀ q, places q → places' q) :
    Grown places' d d' :=
  fun q => (grown q).imp_right fun ⟨free, own, made⟩ => ⟨free, more q own, made⟩

/-- A folder is made in a folder, if nothing is there. -/
theorem grown_child (closed : d.Closed) {folder : Path} {name : String} (there : d.isFolder folder = true)
    (short : Short name) :
    let d' := if (d.node? (folder ++ [name])).isSome then d else d.put (folder ++ [name]) .folder
    Grown (· = folder ++ [name]) d d' ∧ d'.Closed := by
  dsimp only
  split
  · exact ⟨.rfl, closed⟩
  · rename_i free
    have nodes := node?_put (d := d) (child_ne_root folder name) .folder
    refine ⟨fun q => ?_, closed.placed there short (fun _ => rfl) nodes⟩
    rw [nodes]
    split
    · rename_i own
      exact .inr ⟨by rw [own]; simpa using free, own, rfl⟩
    · exact .inl rfl

/-- So is one in the root. -/
theorem grown_name (closed : d.Closed) {name : String} (short : Short name) :
    let d' := if (d.node? [name]).isSome then d else d.put [name] .folder
    Grown (· = [name]) d d' ∧ d'.Closed := by
  have root : d.isFolder [] = true := rfl
  exact grown_child closed root short

theorem makeFolders_name {name : String} (plain : Plain name) (short : Short name) (rest : Path) :
    d.makeFolders (name :: rest) =
      (if (d.node? [name]).isSome then d else d.put [name] .folder).makeFoldersFrom [name] rest := by
  rw [makeFolders, makeFoldersFrom_plain rfl plain short, List.nil_append]

/-- However far the making of a folder in the root gets. -/
theorem grown_makeFolders (closed : d.Closed) {name : String} (plain : Plain name) (short : Short name) (n : Nat) :
    Grown (· = [name]) d (d.makeFolders ([name].take n)).1 ∧ (d.makeFolders ([name].take n)).1.Closed := by
  cases n with
  | zero => exact ⟨.rfl, closed⟩
  | succ n =>
    rw [List.take_succ_cons, List.take_nil, makeFolders_name plain short, makeFoldersFrom]
    exact grown_name closed short

/-! ### Calls that break off -/

section Calls
variable {ε : Type} {calls : List (Call × ε)} {mishaps : List (Option Mishap)}

/-- What each call keeps, whether it succeeds, fails or breaks off, all of them keep. -/
theorem carryOut_keeps {P : Directory → Prop}
    (kept : ∀ c ∈ calls, ∀ d mishap, P d → P (c.1.attempt d mishap).1) (h : P d) :
    P (d.carryOut calls mishaps).1 := by
  induction calls generalizing d mishaps with
  | nil => exact h
  | cons c calls ih =>
    have first := kept c List.mem_cons_self d mishaps.head?.join h
    rw [carryOut]
    split <;> rename_i attempted <;> rw [attempted] at first
    · exact first
    · exact ih (fun c hc => kept c (List.mem_cons_of_mem _ hc)) first

/-- Calls that all succeed have met no mishap. -/
theorem carryOut_ok (h : d.carryOut calls mishaps = (d', .ok ())) : d.carryOut calls [] = (d', .ok ()) := by
  induction calls generalizing d mishaps with
  | nil => exact h
  | cons c calls ih =>
    rw [carryOut] at h ⊢
    cases mishap : mishaps.head?.join with
    | none =>
      rw [mishap] at h
      rw [List.head?_nil, Option.join_none]
      split at h
      · cases h
      · exact ih h
    | some m =>
      rw [mishap] at h
      cases h

theorem carryOut_append (calls' : List (Call × ε)) :
    d.carryOut (calls ++ calls') mishaps =
      match d.carryOut calls mishaps with
      | (d, .error fault) => (d, .error fault)
      | (d, .ok ()) => d.carryOut calls' (mishaps.drop calls.length) := by
  induction calls generalizing d mishaps with
  | nil => rfl
  | cons c calls ih =>
    rw [List.cons_append, carryOut, carryOut]
    split
    · rfl
    · rw [ih, List.length_cons, List.drop_tail]

end Calls

/-! ### Replacements that fail, and that succeed -/

theorem write?_eq_some {p : Path} {text : Option String} :
    d.write? p text = some d' ↔ ∃ place, d.filePlace? p = some place ∧ d.put place (.file text) = d' := by
  rw [write?, Option.map_eq_some_iff]

/-- Whatever becomes of the call, only its file may have another text. -/
theorem attempt_write (d : Directory) (p : Path) (text : String) (mishap : Option Mishap) :
    ((Call.write p text).attempt d mishap).1 = d ∨
      ∃ left, d.write? p left = some ((Call.write p text).attempt d mishap).1 := by
  cases mishap with
  | none =>
    rw [Call.attempt, Call.run]
    split
    · exact .inl rfl
    · rename_i written
      exact .inr ⟨_, written⟩
  | some m =>
    have broken : ((Call.write p text).attempt d (some m)).1 = (m.written.bind (d.write? p)).getD d := rfl
    rw [broken]
    cases opened : m.written.bind (d.write? p) with
    | none => exact .inl rfl
    | some d' =>
      obtain ⟨left, -, written⟩ := Option.bind_eq_some_iff.mp opened
      exact .inr ⟨left, written⟩

/-- A move that does not succeed has moved nothing. -/
theorem attempt_rename {source target : Path} {mishap : Option Mishap}
    (h : ((Call.rename source target).attempt d mishap).2 = false) :
    ((Call.rename source target).attempt d mishap).1 = d := by
  cases mishap with
  | none =>
    rw [Call.attempt, Call.run] at h ⊢
    split at h
    · rfl
    · cases h
  | some m => rfl

/-- A replacement that fails or breaks off has at most left some text in the temporary file. -/
theorem replacing_error {ε : Type} {temporary target : Path} {text : String} {unwritten unmoved fault : ε}
    {mishaps : List (Option Mishap)}
    (h : d.carryOut (replacing temporary target text unwritten unmoved) mishaps = (d', .error fault)) :
    d' = d ∨ ∃ left, d.write? temporary left = some d' := by
  have written := attempt_write d temporary text mishaps.head?.join
  rw [replacing, carryOut] at h
  split at h <;> rename_i attempted <;> rw [attempted] at written
  · rwa [(Prod.mk.inj h).1] at written
  · rw [carryOut] at h
    split at h <;> rename_i moved
    · have unchanged := attempt_rename (congrArg Prod.snd moved)
      rw [moved] at unchanged
      rwa [← unchanged, (Prod.mk.inj h).1] at written
    · cases h

/-- A replacement that succeeds leaves the text in its place and takes the temporary file away. -/
theorem replace_ok {temporary target : Path} {text : String} (h : d.replace temporary target text = (d', .ok ())) :
    ∃ source place, d.filePlace? temporary = some source ∧ d.filePlace? target = some place ∧
      ∀ q, d'.node? q = if q = place then some (.file (some text)) else if q = source then none else d.node? q := by
  rw [replace_eq] at h
  split at h
  · cases h
  · rename_i written
    obtain ⟨source, beside, rfl⟩ := write?_eq_some.mp written
    obtain ⟨reached, free⟩ := filePlace?_eq_some.mp beside
    have filed : Rewritten (fun _ => True) d (d.put source (.file (some text))) := .put free trivial _
    have below := ne_root_of_not_folder free
    split at h
    · cases h
    · rename_i moved
      obtain ⟨rfl, -⟩ := Prod.mk.inj h
      rw [rename?, filed.filePlace?, walk_congr filed.folders, reached] at moved
      cases final : d.filePlace? target with
      | none => simp [final] at moved
      | some place =>
        have below' := ne_root_of_not_folder (filePlace?_eq_some.mp final).2
        rw [final] at moved
        dsimp only at moved
        rw [node?_put below, if_pos (.refl _)] at moved
        refine ⟨source, place, beside, .refl _, fun q => ?_⟩
        rw [← Option.some.inj moved, node?_put below', node?_erase below, node?_put below]
        split
        · rfl
        · split <;> rfl

/-- A move from one place to another, neither of which is a folder, keeps a directory closed. -/
theorem Closed.moved (closed : d.Closed) {folder source : Path} {name : String} {node : Node}
    (there : d.isFolder folder = true) (short : Short name) (free : d.isFolder (folder ++ [name]) = false)
    (free' : d.isFolder source = false)
    (nodes : ∀ q, d'.node? q = if q = folder ++ [name] then some node else if q = source then none else d.node? q) :
    d'.Closed := by
  have kept : ∀ q, d.isFolder q = true → d'.isFolder q = true := by
    intro q standing
    rw [isFolder_iff, nodes, if_neg, if_neg, isFolder_iff.mp standing]
    · rintro rfl
      rw [free'] at standing
      cases standing
    · rintro rfl
      rw [free] at standing
      cases standing
  intro q own some_node
  rw [nodes] at some_node
  split at some_node
  · rename_i same
    obtain ⟨rfl, rfl⟩ := List.append_singleton_inj.mp same
    exact ⟨kept q there, short⟩
  · split at some_node
    · cases some_node
    · obtain ⟨above, short'⟩ := closed q own some_node
      exact ⟨kept q above, short'⟩

end Directory

namespace FileStore
variable {d d' : Directory}

/-! ### The places of a file -/

theorem place_of_path {t : Target} {q : Path} (h : d.walk [] t.path = some q) :
    ∃ folder, q = folder ++ [t.stem ++ ".json"] ∧ d.isFolder folder = true ∧ Short (t.stem ++ ".json") := by
  rw [Target.path, walk_append] at h
  obtain ⟨folder, -, leads⟩ := Option.bind_eq_some_iff.mp h
  rw [walk_plain (plain_json t.stem)] at leads
  split at leads
  · rename_i there
    exact ⟨folder, (Option.some.inj leads).symm, there⟩
  · cases leads

/-- The temporary file is in a folder, and its name is none that a file of the store has. -/
theorem place_of_temporary (closed : d.Closed) {t : Target} {q : Path} (h : d.filePlace? t.temporary = some q) :
    ∃ folder name, q = folder ++ [name ++ ".json.tmp"] ∧ d.isFolder folder = true ∧ Short (name ++ ".json.tmp") := by
  obtain ⟨reached, free⟩ := filePlace?_eq_some.mp h
  rcases temporary_cases t with ⟨name, path⟩ | path <;> rw [path, walk_append] at reached <;>
    obtain ⟨folder, -, leads⟩ := Option.bind_eq_some_iff.mp reached
  · rw [walk_plain (plain_temporary name)] at leads
    split at leads
    · rename_i there
      exact ⟨folder, name, (Option.some.inj leads).symm, there⟩
    · cases leads
  · -- two dots lead back to a folder, which no file can replace
    rw [walk] at leads
    split at leads
    · cases leads
    · rename_i there
      rw [if_neg (by decide), if_pos rfl, walk] at leads
      rw [← Option.some.inj leads] at free
      have above : d.isFolder folder.dropLast = true := by
        rcases List.eq_nil_or_concat folder with rfl | ⟨outer, last, rfl⟩
        · rfl
        · rw [List.concat_eq_append, List.dropLast_concat]
          rw [List.concat_eq_append] at there
          exact closed.above (by simpa using there)
      rw [above] at free
      cases free

theorem node?_eq_none (closed : d.Closed) {folder : Path} (nothing : d.isFolder folder = false) (name : String) :
    d.node? (folder ++ [name]) = none := by
  cases there : d.node? (folder ++ [name]) with
  | none => rfl
  | some node =>
    rw [(closed folder name (by rw [there]; rfl)).1] at nothing
    cases nothing

/-- In a closed directory a plain name leads from a place to what stands under it there. -/
theorem node?_of_walk (closed : d.Closed) {name : String} (plain : Plain name) (place : Path) :
    (d.walk place [name]).bind d.node? = d.node? (place ++ [name]) := by
  rw [walk_plain plain]
  split
  · rfl
  · rename_i nowhere
    cases there : d.node? (place ++ [name]) with
    | none => rfl
    | some node => exact absurd (closed place name (by rw [there]; rfl)) nowhere

/-- On a closed disk the path of a record leads to its place in the home of its symbol, unless
two dots lead back out of a folder that is not there. -/
theorem get?_record (closed : d.Closed) (symbol : String) (day : Day) :
    d.get? (recordFile symbol day).path =
      if stem symbol = ".." ∧ d.isFolder ["divergences"] = false then none
      else d.node? (home symbol ++ [day.text ++ ".json"]) := by
  have below : d.get? (recordFile symbol day).path =
      (d.walk [] ["divergences", stem symbol]).bind fun place => d.node? (place ++ [day.text ++ ".json"]) := by
    rw [path_recordFile, get?, walk_append, Option.bind_assoc]
    simp only [node?_of_walk closed (plain_json day.text)]
  rw [below, walk_plain plain_divergences, if_pos ⟨rfl, by decide⟩, List.nil_append]
  rcases home_cases symbol with ⟨nameless, home⟩ | ⟨up, home⟩ | ⟨plain, home⟩ <;> rw [home]
  · have noDots : stem symbol ≠ ".." := by rcases nameless with same | same <;> rw [same] <;> decide
    rw [if_neg fun h => noDots h.1, walk, if_pos nameless]
    cases there : d.isFolder ["divergences"] with
    | true => rfl
    | false => exact (node?_eq_none closed there _).symm
  · rw [up, walk]
    cases there : d.isFolder ["divergences"] <;> rfl
  · rw [if_neg fun h => plain.no_dots h.1, walk_plain plain]
    split
    · rfl
    · rename_i nowhere
      refine (node?_eq_none closed (Bool.eq_false_iff.mpr fun there => nowhere ?_) _).symm
      refine closed ["divergences"] (stem symbol) ?_
      show (d.node? ["divergences", stem symbol]).isSome
      rw [isFolder_iff.mp there]
      rfl

/-! ### Operations -/

namespace Operation

/-- The file that an operation replaces. -/
def target? : Operation → Option Target
  | .reopen => none
  | .saveInstrument _ | .deleteInstrument _ => some instrumentsFile
  | .saveBars symbol _ => some (barsFile symbol)
  | .saveRecord symbol day _ => some (recordFile symbol day)

/-- The places where an operation may make folders. -/
def Makes : Operation → Path → Prop
  | .reopen, q => q = ["bars"] ∨ q = ["divergences"]
  | .saveRecord symbol _ _, q => q = ["divergences"] ∨ q = ["divergences", stem symbol]
  | _, _ => False

/-- The new value, if there is one: the list of instruments with the change, the bars that are
kept of the old and the new ones, or the record. -/
def value? (s : FileStore) : Operation → Option Json
  | .reopen => none
  | .saveInstrument symbol => s.instruments.toOption.map fun names => .listOf .text (names.insert symbol ()).keys
  | .deleteInstrument symbol => s.instruments.toOption.map fun names => .listOf .text (names.erase symbol).keys
  | .saveBars symbol new => do
    let old ← (s.bars symbol).toOption
    let kept ← retained? s.retention (BarSeries.merge (BarSeries.merge .empty old) new).values
    pure (.listOf Bar.json kept)
  | .saveRecord _ _ r => some r.json

/-- The calls that an operation makes first. -/
def folders (s : FileStore) : Operation → List (Call × StoreFault)
  | .reopen => [s.making ["bars"] .createStore, s.making ["divergences"] .createStore]
  | .saveRecord symbol _ _ => [s.making (recordFolder symbol) .createFolder]
  | _ => []

/-- What all disks are like on the way to the move: some of the folders are made, and there may
be any text in the temporary file. -/
def Interrupted (op : Operation) (d d' : Directory) : Prop :=
  ∃ grown, Grown op.Makes d grown ∧ grown.Closed ∧
    (d' = grown ∨ ∃ t text, op.target? = some t ∧ grown.write? t.temporary text = some d')

end Operation

/-- The folders on the way to a record are all that is made, however far the making gets. -/
theorem grown_recordFolder (closed : d.Closed) (symbol : String) (n : Nat) :
    Grown (fun q => q = ["divergences"] ∨ q = ["divergences", stem symbol]) d
        (d.makeFolders ((recordFolder symbol).take n)).1 ∧
      (d.makeFolders ((recordFolder symbol).take n)).1.Closed := by
  have outer : ∀ n, _ ∧ _ := grown_makeFolders closed plain_divergences (show Short "divergences" by decide)
  rw [recordFolder]
  split
  · exact ⟨(outer n).1.mono fun _ => .inl, (outer n).2⟩
  · rename_i named
    rcases n with _ | _ | n
    · exact ⟨.rfl, closed⟩
    · exact ⟨(outer 1).1.mono fun _ => .inl, (outer 1).2⟩
    · obtain ⟨grown, closed'⟩ := grown_name closed (show Short "divergences" by decide)
      rw [List.take_succ_cons, List.take_succ_cons, List.take_nil, makeFolders_name plain_divergences (by decide)]
      generalize (if (d.node? ["divergences"]).isSome then d else d.put ["divergences"] .folder) = d' at *
      have above : Grown (fun q => q = ["divergences"] ∨ q = ["divergences", stem symbol]) d d' :=
        grown.mono fun _ => .inl
      rw [makeFoldersFrom, if_neg named]
      split
      · exact ⟨above, closed'⟩
      · rename_i there
        split
        · exact ⟨above, closed'⟩
        · split
          · exact ⟨above, closed'⟩
          · rename_i short
            obtain ⟨own, closed''⟩ := grown_child closed' (by simpa using there) (Nat.le_of_not_lt short)
            exact ⟨above.trans (own.mono fun _ => .inr), closed''⟩

/-- A call for folders makes all the names of its path into folders, or some. -/
theorem attempt_making (s : FileStore) (p : Path) (fault : String → StoreFault) (d : Directory)
    (mishap : Option Mishap) :
    ∃ n, ((s.making p fault).1.attempt d mishap).1 = (d.makeFolders (p.take n)).1 := by
  cases mishap with
  | none => exact ⟨p.length, by rw [List.take_length]; rfl⟩
  | some m => exact ⟨m.folders, rfl⟩

theorem grown_folders {s : FileStore} (op : Operation) {c : Call × StoreFault} (own : c ∈ op.folders s)
    (closed : d.Closed) (mishap : Option Mishap) :
    Grown op.Makes d (c.1.attempt d mishap).1 ∧ (c.1.attempt d mishap).1.Closed := by
  cases op with
  | reopen =>
    rcases List.mem_cons.mp own with rfl | own
    · obtain ⟨n, made⟩ := attempt_making s ["bars"] .createStore d mishap
      obtain ⟨grown, closed'⟩ := grown_makeFolders closed plain_bars (by decide) n
      rw [made]
      exact ⟨grown.mono fun _ => .inl, closed'⟩
    · obtain rfl := List.mem_singleton.mp own
      obtain ⟨n, made⟩ := attempt_making s ["divergences"] .createStore d mishap
      obtain ⟨grown, closed'⟩ := grown_makeFolders closed plain_divergences (by decide) n
      rw [made]
      exact ⟨grown.mono fun _ => .inr, closed'⟩
  | saveRecord symbol day r =>
    obtain rfl := List.mem_singleton.mp own
    obtain ⟨n, made⟩ := attempt_making s (recordFolder symbol) .createFolder d mishap
    rw [made]
    exact grown_recordFolder closed symbol n
  | saveInstrument symbol | deleteInstrument symbol | saveBars symbol new => cases own

/-- The folders that stand when the first calls are done, or one of them failed or broke off. -/
theorem grown_of_folders {s : FileStore} (closed : s.disk.Closed) (op : Operation)
    (mishaps : List (Option Mishap)) :
    Grown op.Makes s.disk (s.disk.carryOut (op.folders s) mishaps).1 ∧
      (s.disk.carryOut (op.folders s) mishaps).1.Closed := by
  refine carryOut_keeps (P := fun d => Grown op.Makes s.disk d ∧ d.Closed) (fun c own d mishap h => ?_) ⟨.rfl, closed⟩
  obtain ⟨grown, closed'⟩ := grown_folders op own h.2 mishap
  exact ⟨h.1.trans grown, closed'⟩

/-- All that an operation asks for: it is stopped by what it reads, or it makes its folders, and
then replaces its file by the new value, if there is one. -/
theorem calls_cases (s : FileStore) (op : Operation) :
    (∃ e, s.calls op = .error e) ∨
      ((op = .reopen ∨ ∃ symbol, op = .saveBars symbol []) ∧ s.calls op = .ok (op.folders s)) ∨
      ∃ t j, op.target? = some t ∧ op.value? s = some j ∧ s.calls op = .ok (op.folders s ++ s.writing t j) := by
  have changed : ∀ change : Instruments → Instruments, (∃ e, s.changing change = .error e) ∨
      ∃ names, s.instruments = .ok names ∧
        s.changing change = .ok (s.writing instrumentsFile (.listOf .text (change names).keys)) := fun change => by
    rw [changing]
    cases s.instruments with
    | error e => exact .inl ⟨e, rfl⟩
    | ok names => exact .inr ⟨names, rfl, rfl⟩
  cases op with
  | reopen => exact .inr (.inl ⟨.inl rfl, rfl⟩)
  | saveInstrument symbol =>
    rcases changed (·.insert symbol ()) with failed | ⟨names, listed, calls⟩
    · exact .inl failed
    · refine .inr (.inr ⟨_, _, rfl, ?_, calls⟩)
      rw [Operation.value?, listed]
      rfl
  | deleteInstrument symbol =>
    rcases changed (·.erase symbol) with failed | ⟨names, listed, calls⟩
    · exact .inl failed
    · refine .inr (.inr ⟨_, _, rfl, ?_, calls⟩)
      rw [Operation.value?, listed]
      rfl
  | saveBars symbol new =>
    by_cases nothing : new = []
    · subst nothing
      exact .inr (.inl ⟨.inr ⟨symbol, rfl⟩, rfl⟩)
    · rw [calls, adding, if_neg (by simpa using nothing)]
      cases loaded : s.bars symbol with
      | error e => exact .inl ⟨e, rfl⟩
      | ok old =>
        dsimp only
        cases kept : retained? s.retention (BarSeries.merge (BarSeries.merge .empty old) new).values with
        | none => exact .inl ⟨_, rfl⟩
        | some bars =>
          refine .inr (.inr ⟨_, _, rfl, ?_, rfl⟩)
          simp [Operation.value?, loaded, Except.toOption, kept]
  | saveRecord symbol day r => exact .inr (.inr ⟨_, _, rfl, rfl, rfl⟩)

/-! ### What is left of an operation that is stopped -/

/-- All that can be asked about a store is answered as before, and everything is where it was but
for the temporary file of an operation and folders that it made. Records of a symbol whose name
in the files is no name may be told apart only by such a folder. -/
structure Untouched (op : Operation) (s s' : FileStore) : Prop where
  others : ∀ q, (∀ t, op.target? = some t → s'.disk.walk [] t.temporary ≠ some q) →
    s'.disk.node? q = s.disk.node? q ∨ s.disk.node? q = none ∧ op.Makes q ∧ s'.disk.node? q = some .folder
  instruments : Store.instruments s' = Store.instruments s
  bars : ∀ symbol since, Store.loadBars s' symbol since = Store.loadBars s symbol since
  latest : ∀ symbol since, Store.latestBar s' symbol since = Store.latestBar s symbol since
  records : ∀ symbol day,
    (stem symbol = ".." → s'.disk.isFolder ["divergences"] = s.disk.isFolder ["divergences"]) →
    (stem symbol = "" ∨ stem symbol = "." → s'.disk.isFolder ["divergences", day.text ++ ".json"] =
      s.disk.isFolder ["divergences", day.text ++ ".json"]) →
    Store.loadRecord s' symbol day = Store.loadRecord s symbol day

/-- Folders and a temporary file aside, an interrupted operation leaves the disk as it was. -/
theorem nodes_of_interrupted {op : Operation} (h : op.Interrupted d d') :
    d'.Closed ∧ ∀ q, (∀ t, op.target? = some t → d'.walk [] t.temporary ≠ some q) ∨
        (∃ folder name, q = folder ++ [name ++ ".json"]) →
      d'.node? q = d.node? q ∨ d.node? q = none ∧ op.Makes q ∧ d'.node? q = some .folder := by
  obtain ⟨grown, made, closed, rfl | ⟨t, text, target, written⟩⟩ := h
  · exact ⟨closed, fun q _ => made q⟩
  · obtain ⟨place, beside, rfl⟩ := write?_eq_some.mp written
    obtain ⟨reached, free⟩ := filePlace?_eq_some.mp beside
    have filed : Rewritten (· = place) grown (grown.put place (.file text)) := Rewritten.put free (.refl place) text
    obtain ⟨folder, name, own, there, short⟩ := place_of_temporary closed beside
    have nodes := node?_put (d := grown) (ne_root_of_not_folder free) (.file text)
    refine ⟨?_, fun q apart => ?_⟩
    · subst own
      refine closed.placed there short (fun folder => ?_) nodes
      rw [free] at folder
      cases folder
    · have other : q ≠ place := by
        rcases apart with unreached | ⟨folder', name', named⟩
        · rintro rfl
          refine unreached t target ?_
          rw [walk_congr filed.folders, reached]
        · rw [named, own]
          exact fun same => temporary_ne_json _ _ (List.append_singleton_inj.mp same).2.symm
      rw [filed.others q other]
      exact made q

theorem json_ne_folder (stem : String) : stem ++ ".json" ≠ "bars" ∧ stem ++ ".json" ≠ "divergences" := by
  constructor <;> intro same <;> have ends := last_json stem <;> rw [same] at ends <;> cases ends

/-- No operation makes a folder where the instruments, bars or a record of a symbol belong, but
perhaps one right in the folder of the records. -/
theorem Operation.not_makes (op : Operation) {folder : Path} (other : folder ≠ ["divergences"]) (stem : String) :
    ¬ op.Makes (folder ++ [stem ++ ".json"]) := by
  have top : ∀ {name : String}, name = "bars" ∨ name = "divergences" → folder ++ [stem ++ ".json"] ≠ [name] := by
    rintro name fixed same
    have own := (List.append_singleton_inj.mp (show folder ++ [_] = [] ++ [name] from same)).2
    rcases fixed with rfl | rfl
    · exact (json_ne_folder stem).1 own
    · exact (json_ne_folder stem).2 own
  cases op with
  | reopen => exact fun made => made.elim (top (.inl rfl)) (top (.inr rfl))
  | saveRecord symbol day r =>
    refine fun made => made.elim (top (.inr rfl)) fun same => other ?_
    exact (List.append_singleton_inj.mp (show folder ++ [_] = ["divergences"] ++ [_] from same)).1
  | saveInstrument symbol | deleteInstrument symbol | saveBars symbol new => exact id

/-- A file with plain names reads as before. -/
theorem get?_of_interrupted (closed : d.Closed) {op : Operation} (h : op.Interrupted d d') {folder : Path}
    (plain : ∀ name ∈ folder, Plain name) (other : folder ≠ ["divergences"]) (stem : String) :
    d'.get? (folder ++ [stem ++ ".json"]) = d.get? (folder ++ [stem ++ ".json"]) := by
  obtain ⟨closed', nodes⟩ := nodes_of_interrupted h
  have names : ∀ name ∈ folder ++ [stem ++ ".json"], Plain name :=
    List.forall_mem_append.mpr ⟨plain, List.forall_mem_singleton.mpr (plain_json stem)⟩
  rw [get?_closed closed names, get?_closed closed' names]
  exact (nodes _ (.inr ⟨folder, stem, rfl⟩)).resolve_right fun new => op.not_makes other stem new.2.1

theorem get?_record_of_interrupted (closed : d.Closed) {op : Operation} (h : op.Interrupted d d') {symbol : String}
    {day : Day} (way : stem symbol = ".." → d'.isFolder ["divergences"] = d.isFolder ["divergences"])
    (own : stem symbol = "" ∨ stem symbol = "." →
      d'.isFolder ["divergences", day.text ++ ".json"] = d.isFolder ["divergences", day.text ++ ".json"]) :
    d'.get? (recordFile symbol day).path = d.get? (recordFile symbol day).path := by
  obtain ⟨closed', nodes⟩ := nodes_of_interrupted h
  have same : d'.node? (home symbol ++ [day.text ++ ".json"]) = d.node? (home symbol ++ [day.text ++ ".json"]) := by
    rcases nodes _ (.inr ⟨home symbol, day.text, rfl⟩) with same | ⟨free, made, new⟩
    · exact same
    · -- only among the records themselves can a folder be new at the place of a record
      have within : home symbol = ["divergences"] := by
        by_contra other
        exact op.not_makes other day.text made
      rcases home_cases symbol with ⟨nameless, -⟩ | ⟨-, elsewhere⟩ | ⟨-, elsewhere⟩
      · have changed := own nameless
        rw [within] at free new
        rw [show d'.isFolder ["divergences", day.text ++ ".json"] = true from isFolder_iff.mpr new, isFolder,
          show d.node? ["divergences", day.text ++ ".json"] = none from free] at changed
        cases changed
      · rw [within] at elsewhere
        cases elsewhere
      · rw [within] at elsewhere
        cases elsewhere
  rw [get?_record closed, get?_record closed', same]
  by_cases up : stem symbol = ".."
  · rw [way up]
  · rw [if_neg fun h => up h.1, if_neg fun h => up h.1]

theorem untouched_of_interrupted {s : FileStore} (closed : s.disk.Closed) {op : Operation}
    (h : op.Interrupted s.disk d') : Untouched op s { s with disk := d' } := by
  have root : ({ s with disk := d' } : FileStore).root = s.root := rfl
  have instruments : ({ s with disk := d' } : FileStore).instruments = s.instruments :=
    congrArg (Except.map _)
      (readFile_of_get? root (get?_of_interrupted closed h Home.root.plain (by decide) "instruments"))
  have bars : ∀ symbol, ({ s with disk := d' } : FileStore).bars symbol = s.bars symbol := fun symbol =>
    congrArg (Except.map _) (readFile_of_get? root
      (get?_of_interrupted closed h Home.bars.plain (by decide) (stem symbol)))
  have loaded : ∀ symbol since, Store.loadBars { s with disk := d' } symbol since = Store.loadBars s symbol since :=
    fun symbol since => congrArg (Except.map (·.filter fun b => since.ms ≤ b.time.ms)) (bars symbol)
  refine ⟨fun q apart => (nodes_of_interrupted h).2 q (.inl apart), congrArg (Except.map _) instruments, loaded,
    fun symbol since => congrArg (Except.map List.getLast?) (loaded symbol since), fun symbol day way own => ?_⟩
  exact congrArg (Except.map _) (readFile_of_get? root (get?_record_of_interrupted closed h way own))

/-! ### What an operation leaves that succeeds -/

/-- The file holds the new value, there is no temporary file, and everything else is where it
was but for folders that the operation made. -/
structure Saved (op : Operation) (s s' : FileStore) (t : Target) (j : Json) : Prop where
  value : s'.disk.get? t.path = some (.file (some j.compact))
  temporary : s'.disk.get? t.temporary = none
  others : ∀ q, s'.disk.walk [] t.path ≠ some q → s'.disk.walk [] t.temporary ≠ some q →
    s'.disk.node? q = s.disk.node? q ∨ s.disk.node? q = none ∧ op.Makes q ∧ s'.disk.node? q = some .folder

theorem replace_of_writeFile {s s' : FileStore} {t : Target} {j : Json} (h : s.writeFile t j = (s', .ok ())) :
    s.disk.replace t.temporary t.path j.compact = (s'.disk, .ok ()) := by
  rw [writeFile] at h
  split at h
  · rename_i replaced
    rw [replaced, ← (Prod.mk.inj h).1]
  · cases h
  · cases h

theorem saved_of_writeFile {op : Operation} {s s' : FileStore} {grown : Directory}
    (made : Grown op.Makes s.disk grown) (closed : grown.Closed) {t : Target} {j : Json}
    (h : ({ s with disk := grown } : FileStore).writeFile t j = (s', .ok ())) : Saved op s s' t j := by
  have replaced := replace_of_writeFile h
  have kept := replace_rewritten grown t.temporary t.path j.compact
  rw [replaced] at kept
  obtain ⟨source, place, beside, final, nodes⟩ := replace_ok replaced
  have walked := fun p => walk_congr kept.folders [] p
  obtain ⟨toSource, -⟩ := filePlace?_eq_some.mp beside
  obtain ⟨toPlace, -⟩ := filePlace?_eq_some.mp final
  have apart : source ≠ place := by
    obtain ⟨folder, name, own, -⟩ := place_of_temporary closed beside
    obtain ⟨folder', own', -⟩ := place_of_path toPlace
    rw [own, own']
    exact fun same => temporary_ne_json _ _ (List.append_singleton_inj.mp same).2
  refine ⟨?_, ?_, fun q other other' => ?_⟩
  · rw [get?, walked, toPlace, Option.bind_some, nodes, if_pos rfl]
  · rw [get?, walked, toSource, Option.bind_some, nodes, if_neg apart, if_pos rfl]
  · rw [walked, toPlace] at other
    rw [walked, toSource] at other'
    rw [nodes, if_neg fun same => other (congrArg some same.symm), if_neg fun same => other' (congrArg some same.symm)]
    exact made q

/-- A file that is replaced leaves a closed disk. -/
theorem closed_of_writeFile {s s' : FileStore} (closed : s.disk.Closed) {t : Target} {j : Json}
    (h : s.writeFile t j = (s', .ok ())) : s'.disk.Closed := by
  obtain ⟨source, place, beside, final, nodes⟩ := replace_ok (replace_of_writeFile h)
  obtain ⟨-, free'⟩ := filePlace?_eq_some.mp beside
  obtain ⟨toPlace, free⟩ := filePlace?_eq_some.mp final
  obtain ⟨folder, rfl, there, short⟩ := place_of_path toPlace
  exact closed.moved there short free free' nodes

/-! ### Operations that fail, and that succeed -/

section Perform
variable {s : FileStore} {op : Operation} {mishaps : List (Option Mishap)}

theorem perform_disk (s : FileStore) (op : Operation) (mishaps : List (Option Mishap)) :
    (s.perform op mishaps).1 = { s with disk := (s.perform op mishaps).1.disk } := by
  rw [perform]
  split <;> rfl

/-- An operation that fails or breaks off has moved nothing. -/
theorem interrupted_of_error (closed : s.disk.Closed) {e : StoreFault} (failed : (s.perform op mishaps).2 = .error e) :
    op.Interrupted s.disk (s.perform op mishaps).1.disk := by
  obtain ⟨grown, closed'⟩ := grown_of_folders closed op mishaps
  rcases s.calls_cases op with ⟨e', stopped⟩ | ⟨-, folders⟩ | ⟨t, j, target, -, all⟩
  · rw [perform, stopped]
    exact ⟨s.disk, .rfl, closed, .inl rfl⟩
  · rw [perform, folders]
    exact ⟨_, grown, closed', .inl rfl⟩
  · rw [perform, all] at failed ⊢
    simp only [carryOut_append] at failed ⊢
    rcases made : s.disk.carryOut (op.folders s) mishaps with ⟨d, e' | done⟩ <;>
      rw [made] at grown closed' failed <;> dsimp only at failed ⊢
    · exact ⟨d, grown, closed', .inl rfl⟩
    · refine ⟨d, grown, closed', ?_⟩
      rcases replacing_error (Prod.ext (.refl _) failed) with same | ⟨left, written⟩
      · exact .inl same
      · exact .inr ⟨t, left, target, written⟩

/-- An operation that succeeds has made its folders, and replaced its file if it has a new value. -/
theorem cases_of_ok (closed : s.disk.Closed) (succeeded : (s.perform op mishaps).2 = .ok ()) :
    ∃ grown, Grown op.Makes s.disk grown ∧ grown.Closed ∧
      ((op = .reopen ∧ (s.perform op mishaps).1 = { s with disk := grown }) ∨
        ((∃ symbol, op = .saveBars symbol []) ∧ (s.perform op mishaps).1 = s) ∨
        ∃ t j, op.target? = some t ∧ op.value? s = some j ∧
          ({ s with disk := grown } : FileStore).writeFile t j = ((s.perform op mishaps).1, .ok ())) := by
  obtain ⟨grown, closed'⟩ := grown_of_folders closed op mishaps
  refine ⟨_, grown, closed', ?_⟩
  rcases s.calls_cases op with ⟨e', stopped⟩ | ⟨kind, folders⟩ | ⟨t, j, target, value, all⟩
  · rw [perform, stopped] at succeeded
    cases succeeded
  · rw [perform, folders]
    rcases kind with rfl | ⟨symbol, rfl⟩
    · exact .inl ⟨rfl, rfl⟩
    · exact .inr (.inl ⟨⟨symbol, rfl⟩, rfl⟩)
  · refine .inr (.inr ⟨t, j, target, value, ?_⟩)
    rw [perform, all] at succeeded ⊢
    simp only [carryOut_append] at succeeded ⊢
    rcases made : s.disk.carryOut (op.folders s) mishaps with ⟨d, e' | done⟩ <;>
      rw [made] at succeeded <;> dsimp only at succeeded ⊢
    · cases succeeded
    · rw [← s.carryOut_writing, carryOut_ok (Prod.ext (.refl _) succeeded)]

theorem closed_perform (closed : s.disk.Closed) : (s.perform op mishaps).1.disk.Closed := by
  cases result : (s.perform op mishaps).2 with
  | error e => exact (nodes_of_interrupted (interrupted_of_error closed result)).1
  | ok done =>
    obtain ⟨grown, -, closed', ⟨-, state⟩ | ⟨-, state⟩ | ⟨t, j, -, -, written⟩⟩ := cases_of_ok closed result
    · rw [state]
      exact closed'
    · rw [state]
      exact closed
    · exact closed_of_writeFile closed' written

end Perform

/-- **Operations on the files are atomic under failure.** Let the disk of a store be any
directory, and let any calls of an operation break off, after any part of what they do; a store
that stops in such a call leaves the same disk. If the operation fails, be it by what it reads, by
a call that cannot succeed or by one that breaks off, everything is where it was but for its
temporary file and folders that it made where nothing stood, and all that can be asked about the
store is answered as before; only the records of a symbol whose name in the files is empty or a
dot or two need that no folder is new on their way or in their place. If it succeeds, its file
holds the new value and there is no temporary file; opening a store again writes no file, and
saving no bars changes nothing. -/
theorem atomic_under_failure {s : FileStore} (closed : s.disk.Closed) (op : Operation)
    (mishaps : List (Option Mishap)) :
    (s.perform op mishaps).1.disk.Closed ∧
      (∀ e, (s.perform op mishaps).2 = .error e →
        (s.perform op mishaps).1 = { s with disk := (s.perform op mishaps).1.disk } ∧
        Untouched op s (s.perform op mishaps).1) ∧
      ((s.perform op mishaps).2 = .ok () →
        (op = .reopen ∧ Grown op.Makes s.disk (s.perform op mishaps).1.disk) ∨
        ((∃ symbol, op = .saveBars symbol []) ∧ (s.perform op mishaps).1 = s) ∨
        ∃ t j, op.target? = some t ∧ op.value? s = some j ∧ Saved op s (s.perform op mishaps).1 t j) := by
  refine ⟨closed_perform closed, fun e failed => ⟨s.perform_disk op mishaps, ?_⟩, fun succeeded => ?_⟩
  · rw [s.perform_disk op mishaps]
    exact untouched_of_interrupted closed (interrupted_of_error closed failed)
  · obtain ⟨grown, made, closed', cases⟩ := cases_of_ok closed succeeded
    rcases cases with ⟨reopened, state⟩ | ⟨nothing, state⟩ | ⟨t, j, target, value, written⟩
    · rw [state]
      exact .inl ⟨reopened, made⟩
    · exact .inr (.inl ⟨nothing, state⟩)
    · exact .inr (.inr ⟨t, j, target, value, saved_of_writeFile made closed' written⟩)

/-- A disk that is full once the first character is written. -/
def halfWritten : List (Option Mishap) := [some ⟨0, some (some "[")⟩]

theorem atomic_under_failure_fresh :
    (fresh "").disk.Closed ∧
      ((fresh "").perform (.saveInstrument "XYZ") []).2 = .ok () ∧
      (∃ t j, Operation.target? (.saveInstrument "XYZ") = some t ∧
        Operation.value? (fresh "") (.saveInstrument "XYZ") = some j ∧
        Saved (.saveInstrument "XYZ") (fresh "") ((fresh "").perform (.saveInstrument "XYZ") []).1 t j) ∧
      ((fresh "").perform (.saveInstrument "XYZ") halfWritten).2 = .error (.write "/instruments.json.tmp") ∧
      ((fresh "").perform (.saveInstrument "XYZ") halfWritten).1.disk.read? ["instruments.json.tmp"] = some "[" ∧
      Untouched (.saveInstrument "XYZ") (fresh "") ((fresh "").perform (.saveInstrument "XYZ") halfWritten).1 ∧
      ((fresh "").perform (.saveBars "." [Bar.mk "." ⟨0⟩ 1 1 1 1 1]) []).2 = .error (.write "/bars/..") ∧
      Untouched (.saveBars "." [Bar.mk "." ⟨0⟩ 1 1 1 1 1]) (fresh "")
        ((fresh "").perform (.saveBars "." [Bar.mk "." ⟨0⟩ 1 1 1 1 1]) []).1 := by
  have closed := closed_fresh ""
  have saved : ((fresh "").perform (.saveInstrument "XYZ") []).2 = .ok () := by decide +kernel
  have full : ((fresh "").perform (.saveInstrument "XYZ") halfWritten).2 = .error (.write "/instruments.json.tmp") := by
    decide +kernel
  have refused : ((fresh "").perform (.saveBars "." [Bar.mk "." ⟨0⟩ 1 1 1 1 1]) []).2 = .error (.write "/bars/..") := by
    decide +kernel
  obtain ⟨-, -, succeeded⟩ := atomic_under_failure closed (.saveInstrument "XYZ") []
  obtain ⟨-, brokenOff, -⟩ := atomic_under_failure closed (.saveInstrument "XYZ") halfWritten
  obtain ⟨-, failed, -⟩ := atomic_under_failure closed (.saveBars "." [Bar.mk "." ⟨0⟩ 1 1 1 1 1]) []
  refine ⟨closed, saved, ?_, full, by decide +kernel, (brokenOff _ full).2, refused, (failed _ refused).2⟩
  rcases succeeded saved with ⟨opened, -⟩ | ⟨⟨symbol, none⟩, -⟩ | written
  · cases opened
  · cases none
  · exact written

/-- A store that stopped before it moved the bars of a symbol. -/
def halfSaved : FileStore :=
  { fresh "" with disk := (fresh "").disk.put ["bars", "XYZ.json.tmp"] (.file (some "[]")) }

/-- A store whose folder of records is gone, with other things beside it. -/
def displaced : FileStore :=
  { fresh "" with
    disk := ((Directory.empty.put ["bars"] .folder).put ["1970-01-01.json"] (.file (some "x"))).put
      ["1970-01-01.json.tmp"] .folder }

/-- A disk that is full once the folders are made. -/
def fullBeside : List (Option Mishap) := [none, some ⟨0, none⟩]

theorem closed_halfSaved : halfSaved.disk.Closed :=
  (closed_fresh "").placed (show (fresh "").disk.isFolder ["bars"] = true from rfl) (by decide) nofun
    (node?_put (child_ne_root ["bars"] "XYZ.json.tmp") _)

theorem closed_displaced : displaced.disk.Closed := by
  have root : ∀ d : Directory, d.isFolder [] = true := fun _ => rfl
  have top := closed_empty.placed (root _) (show Short "bars" by decide) (fun _ => rfl)
    (node?_put (child_ne_root [] _) .folder)
  have file := top.placed (root _) (show Short "1970-01-01.json" by decide) nofun
    (node?_put (child_ne_root [] _) (.file (some "x")))
  exact file.placed (root _) (show Short "1970-01-01.json.tmp" by decide) (fun _ => rfl)
    (node?_put (child_ne_root [] _) .folder)

/-- Saving no bars succeeds beside a temporary file that was left, and writes none. A record
that cannot be saved leaves the folder of the records, through which a file is found as a record
that was out of reach. The folder of a symbol may be made where the record of another belongs,
and no file is written into it. -/
theorem stopped_operations_leave_traces :
    (halfSaved.disk.Closed ∧ (halfSaved.perform (.saveBars "XYZ" []) []).2 = .ok () ∧
        (halfSaved.perform (.saveBars "XYZ" []) []).1.disk.get? (barsFile "XYZ").temporary = some (.file (some "[]")) ∧
        (halfSaved.perform (.saveBars "XYZ" []) []).1.disk.get? (barsFile "XYZ").path = none) ∧
      (displaced.disk.Closed ∧
        (displaced.perform (.saveRecord ".." ⟨0⟩ .empty) []).2 = .error (.write "/divergences/../1970-01-01.json.tmp") ∧
        Store.loadRecord displaced ".." ⟨0⟩ = .ok .empty ∧
        Store.loadRecord (displaced.perform (.saveRecord ".." ⟨0⟩ .empty) []).1 ".." ⟨0⟩ =
          .error (.parse "/divergences/../1970-01-01.json")) ∧
      ((fresh "").disk.Closed ∧
        ((fresh "").perform (.saveRecord "1970-01-01.json" ⟨0⟩ .empty) fullBeside).2 =
          .error (.write "/divergences/1970-01-01.json/1970-01-01.json.tmp") ∧
        Store.loadRecord (fresh "") "." ⟨0⟩ = .ok .empty ∧
        Store.loadRecord ((fresh "").perform (.saveRecord "1970-01-01.json" ⟨0⟩ .empty) fullBeside).1 "." ⟨0⟩ =
          .error (.read "/divergences/./1970-01-01.json")) := by
  refine ⟨⟨closed_halfSaved, ?_⟩, ⟨closed_displaced, ?_⟩, closed_fresh "", ?_⟩ <;> decide +kernel

end FileStore
end TickerBoard

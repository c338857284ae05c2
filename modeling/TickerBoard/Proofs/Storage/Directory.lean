import Mathlib.Data.List.Induction
import TickerBoard.Storage.Directory

/-! Where paths lead in a directory.

In a closed directory everything stands in a folder, under a name that is not
too long. There a path of plain names leads to what stands under it
(`get?_closed`): no way round by dots, and none that stops. Replacing a file in
a folder puts the text where the path says and changes nothing else
(`replace_spec`), and the directory stays closed. -/
namespace TickerBoard.Directory
variable {d : Directory} {folder : Path} {name : String}

/-- A name that leads to something of its own: it neither stays in the folder nor goes back up. -/
structure Plain (name : String) : Prop where
  some_name : name ≠ ""
  no_dot : name ≠ "."
  no_dots : name ≠ ".."

theorem Plain.named (plain : Plain name) : ¬ (name = "" ∨ name = ".") :=
  fun h => h.elim plain.some_name plain.no_dot

/-- A name that is not too long. -/
def Short (name : String) : Prop := name.utf8ByteSize ≤ nameLimit

instance (name : String) : Decidable (Short name) := inferInstanceAs (Decidable (_ ≤ _))

/-- Everything stands in a folder, under a name that is not too long. -/
def Closed (d : Directory) : Prop :=
  ∀ folder name, (d.node? (folder ++ [name])).isSome → d.isFolder folder = true ∧ Short name

/-! ### What stands where -/

theorem child_ne_root (folder : Path) (name : String) : folder ++ [name] ≠ [] :=
  List.append_ne_nil_of_right_ne_nil _ (List.cons_ne_nil _ _)

theorem isFolder_iff {p : Path} : d.isFolder p = true ↔ d.node? p = some .folder := by
  rw [isFolder, beq_iff_eq]

theorem node?_put {p : Path} (below : p ≠ []) (node : Node) (q : Path) :
    (d.put p node).node? q = if q = p then some node else d.node? q := by
  by_cases top : q = []
  · rw [node?, node?, if_pos top, if_pos top, if_neg]
    exact fun same => below (same.symm.trans top)
  · rw [node?, node?, if_neg top, if_neg top, put, Table.find?_insert]
    by_cases same : q = p
    · rw [if_pos same, if_pos same.symm]
    · rw [if_neg same, if_neg (Ne.symm same)]

theorem node?_erase {p : Path} (below : p ≠ []) (q : Path) :
    (⟨d.nodes.erase p⟩ : Directory).node? q = if q = p then none else d.node? q := by
  by_cases top : q = []
  · rw [node?, node?, if_pos top, if_pos top, if_neg]
    exact fun same => below (same.symm.trans top)
  · rw [node?, node?, if_neg top, if_neg top, Table.find?_erase]
    by_cases same : q = p
    · rw [if_pos same, if_pos same.symm]
    · rw [if_neg same, if_neg (Ne.symm same)]

/-! ### Going through folders -/

theorem walk_append (place a b : Path) : d.walk place (a ++ b) = (d.walk place a).bind (d.walk · b) := by
  induction a generalizing place with
  | nil => rfl
  | cons name rest ih =>
    rw [List.cons_append, walk, walk]
    repeat' split
    all_goals first | exact ih _ | rfl

theorem walk_plain (plain : Plain name) (place rest : Path) :
    d.walk place (name :: rest) =
      if d.isFolder place = true ∧ Short name then d.walk (place ++ [name]) rest else none := by
  rw [walk, if_neg plain.named, if_neg plain.no_dots]
  by_cases there : d.isFolder place = true
  · by_cases short : Short name
    · rw [if_neg (by simp [there]), if_neg (Nat.not_lt.mpr short), if_pos ⟨there, short⟩]
    · rw [if_neg (by simp [there]), if_pos (Nat.lt_of_not_le short), if_neg fun h => short h.2]
  · rw [if_pos (by simp [there]), if_neg fun h => there h.1]

/-- Where a path leads depends only on which of the places it goes through are folders. -/
theorem walk_congr_through {d' : Directory} {place p : Path}
    (same : ∀ a, a <+: p → ∀ q, d.walk place a = some q → d'.isFolder q = d.isFolder q) :
    d'.walk place p = d.walk place p := by
  induction p generalizing place with
  | nil => rfl
  | cons name rest ih =>
    have here := same [] List.nil_prefix place rfl
    have further : ∀ {next}, (∀ a, d.walk place (name :: a) = d.walk next a) → d'.walk next rest = d.walk next rest :=
      fun step => ih fun a first q h => same (name :: a) ((List.prefix_cons_inj name).mpr first) q ((step a).trans h)
    simp only [walk, here] at further ⊢
    split
    · rfl
    · rename_i there
      simp only [if_neg there] at further
      split
      · rename_i stays
        exact further fun a => if_pos stays
      · rename_i moves
        simp only [if_neg moves] at further
        split
        · rename_i up
          exact further fun a => if_pos up
        · rename_i down
          simp only [if_neg down] at further
          split
          · rfl
          · rename_i short
            exact further fun a => if_neg short

/-- Where a path leads depends only on the folders. -/
theorem walk_congr {d' : Directory} (same : ∀ p, d'.isFolder p = d.isFolder p) (place p : Path) :
    d'.walk place p = d.walk place p :=
  walk_congr_through fun _ _ q _ => same q

/-- Plain names lead nowhere else. -/
theorem walk_eq_some {p : Path} (plain : ∀ name ∈ p, Plain name) {place q : Path} (h : d.walk place p = some q) :
    q = place ++ p := by
  induction p generalizing place with
  | nil => rw [List.append_nil]; exact (Option.some.inj h).symm
  | cons name rest ih =>
    rw [walk_plain (plain name (List.mem_cons_self ..))] at h
    split at h
    · rw [ih (fun n hn => plain n (List.mem_cons_of_mem _ hn)) h, List.append_assoc, List.singleton_append]
    · cases h

theorem walk_folder (closed : d.Closed) (plain : ∀ name ∈ folder, Plain name) (there : d.isFolder folder = true) :
    d.walk [] folder = some folder := by
  induction folder using List.reverseRecOn with
  | nil => rfl
  | append_singleton folder name ih =>
    obtain ⟨above, short⟩ := closed folder name (by rw [isFolder_iff.mp there]; rfl)
    rw [List.forall_mem_append] at plain
    rw [walk_append, ih plain.1 above, Option.bind_some, walk_plain (plain.2 name (List.mem_cons_self ..)),
      if_pos ⟨above, short⟩, walk]

theorem walk_child (closed : d.Closed) (plain : ∀ name ∈ folder, Plain name) (there : d.isFolder folder = true)
    (own : Plain name) (short : Short name) : d.walk [] (folder ++ [name]) = some (folder ++ [name]) := by
  rw [walk_append, walk_folder closed plain there, Option.bind_some, walk_plain own, if_pos ⟨there, short⟩, walk]

/-- In a closed directory, plain names lead to what stands under them. -/
theorem get?_closed (closed : d.Closed) {p : Path} (plain : ∀ name ∈ p, Plain name) : d.get? p = d.node? p := by
  rcases List.eq_nil_or_concat p with rfl | ⟨folder, name, rfl⟩
  · rfl
  rw [List.concat_eq_append] at plain ⊢
  rw [get?]
  cases there : d.node? (folder ++ [name]) with
  | some node =>
    obtain ⟨above, short⟩ := closed folder name (by rw [there]; rfl)
    rw [List.forall_mem_append] at plain
    rw [walk_child closed plain.1 above (plain.2 name (List.mem_cons_self ..)) short, Option.bind_some, there]
  | none =>
    cases place : d.walk [] (folder ++ [name]) with
    | none => rfl
    | some q => rw [Option.bind_some, walk_eq_some plain place, List.nil_append, there]

/-! ### Replacing a file -/

theorem filePlace?_eq_some {p place : Path} :
    d.filePlace? p = some place ↔ d.walk [] p = some place ∧ d.isFolder place = false := by
  rw [filePlace?]
  cases d.walk [] p with
  | none => simp
  | some q =>
    dsimp only
    split
    · rename_i there
      simp only [reduceCtorEq, Option.some.injEq, false_iff, not_and]
      rintro rfl
      simp [there]
    · rename_i free
      simp only [Option.some.injEq, iff_self_and]
      rintro rfl
      exact Bool.eq_false_iff.mpr free

theorem ne_root_of_not_folder {p : Path} (h : d.isFolder p = false) : p ≠ [] := by
  rintro rfl
  cases h

/-- Files have changed, at some places only, and no folder. -/
structure Rewritten (places : Path → Prop) (d d' : Directory) : Prop where
  folders : ∀ q, d'.isFolder q = d.isFolder q
  others : ∀ q, ¬ places q → d'.node? q = d.node? q

section Rewritten
variable {d' : Directory} {places : Path → Prop}

theorem Rewritten.rfl : Rewritten places d d := ⟨fun _ => .refl _, fun _ _ => .refl _⟩

theorem Rewritten.trans {d'' : Directory} (first : Rewritten places d d') (then_ : Rewritten places d' d'') :
    Rewritten places d d'' :=
  ⟨fun q => (then_.folders q).trans (first.folders q), fun q other => (then_.others q other).trans (first.others q other)⟩

theorem Rewritten.filePlace? (rewritten : Rewritten places d d') (p : Path) : d'.filePlace? p = d.filePlace? p := by
  simp only [Directory.filePlace?, walk_congr rewritten.folders, rewritten.folders]

/-- What is not a folder changes to what is none. -/
theorem rewritten_of_nodes {place : Path} (free : d.isFolder place = false) (own : places place)
    {node : Option Node} (nodes : ∀ q, d'.node? q = if q = place then node else d.node? q)
    (noFolder : node ≠ some .folder) : Rewritten places d d' := by
  refine ⟨fun q => ?_, fun q other => ?_⟩
  · rw [isFolder, nodes]
    split
    · rename_i same
      rw [same, free]
      exact beq_eq_false_iff_ne.mpr noFolder
    · rfl
  · rw [nodes, if_neg]
    rintro rfl
    exact other own

theorem Rewritten.put {place : Path} (free : d.isFolder place = false) (own : places place) (text : Option String) :
    Rewritten places d (d.put place (.file text)) :=
  rewritten_of_nodes free own (node?_put (ne_root_of_not_folder free) _) nofun

theorem Rewritten.erase {place : Path} (free : d.isFolder place = false) (own : places place) :
    Rewritten places d ⟨d.nodes.erase place⟩ :=
  rewritten_of_nodes free own (node?_erase (ne_root_of_not_folder free)) nofun

/-- A file is replaced in two steps, each of which may fail. -/
theorem carryOut_replacing {ε : Type} (d : Directory) (temporary target : Path) (text : String) (unwritten unmoved : ε) :
    d.carryOut (replacing temporary target text unwritten unmoved) [] =
      match d.write? temporary (some text) with
      | none => (d, .error unwritten)
      | some d =>
        match d.rename? temporary target with
        | none => (d, .error unmoved)
        | some d => (d, .ok ()) := by
  simp only [replacing, carryOut, List.head?_nil, Option.join_none, Call.attempt, Call.run]
  cases d.write? temporary (some text) with
  | none => rfl
  | some d =>
    dsimp only
    cases d.rename? temporary target <;> rfl

theorem replace_eq (d : Directory) (temporary target : Path) (text : String) :
    d.replace temporary target text =
      match d.write? temporary (some text) with
      | none => (d, .error .write)
      | some d =>
        match d.rename? temporary target with
        | none => (d, .error .rename)
        | some d => (d, .ok ()) :=
  carryOut_replacing ..

/-- A replacement, whether or not it succeeds, changes no more than the temporary file and the target. -/
theorem replace_rewritten (d : Directory) (temporary target : Path) (text : String) :
    Rewritten (fun q => d.filePlace? temporary = some q ∨ d.filePlace? target = some q) d
      (d.replace temporary target text).1 := by
  generalize touched : (fun q => d.filePlace? temporary = some q ∨ d.filePlace? target = some q) = places
  have own : ∀ {q}, d.filePlace? temporary = some q ∨ d.filePlace? target = some q → places q := by
    rw [← touched]
    exact id
  rw [replace_eq, write?]
  cases beside : d.filePlace? temporary with
  | none => exact .rfl
  | some source =>
    obtain ⟨reached, free⟩ := filePlace?_eq_some.mp beside
    have written := Rewritten.put free (own (.inl beside)) (some text)
    rw [Option.map_some]
    dsimp only
    generalize d.put source (.file (some text)) = filed at written
    rw [rename?, written.filePlace?, walk_congr written.folders, reached]
    cases final : d.filePlace? target with
    | none => exact written
    | some place =>
      obtain ⟨-, free'⟩ := filePlace?_eq_some.mp final
      dsimp only
      split
      · exact written
      · rename_i moved
        split at moved
        · obtain rfl := Option.some.inj moved
          rw [← written.folders] at free free'
          have erased := Rewritten.erase free (own (.inl beside))
          rw [← erased.folders] at free'
          exact (written.trans erased).trans (.put free' (own (.inr final)) _)
        · cases moved

/-- Where the paths lead is all that counts for a replacement. -/
theorem replace_congr {temporary temporary' target target' : Path} (beside : d.walk [] temporary = d.walk [] temporary')
    (own : d.walk [] target = d.walk [] target') (text : String) :
    d.replace temporary target text = d.replace temporary' target' text := by
  have written : d.write? temporary (some text) = d.write? temporary' (some text) := by
    rw [write?, write?, Directory.filePlace?, Directory.filePlace?, beside]
  rw [replace_eq, replace_eq, ← written]
  cases filed : d.write? temporary (some text) with
  | none => rfl
  | some d' =>
    obtain ⟨place, placed, rfl⟩ := Option.map_eq_some_iff.mp filed
    have changed : Rewritten (fun _ => True) d (d.put place (.file (some text))) :=
      .put (filePlace?_eq_some.mp placed).2 trivial _
    simp only [rename?, Directory.filePlace?, walk_congr changed.folders, beside, own]

end Rewritten

/-- One more thing in a folder keeps a directory closed, unless it takes the place of a folder. -/
theorem Closed.placed (closed : d.Closed) (there : d.isFolder folder = true) (short : Short name) {node : Node}
    (kept : d.isFolder (folder ++ [name]) = true → node = .folder) {d' : Directory}
    (nodes : ∀ q, d'.node? q = if q = folder ++ [name] then some node else d.node? q) : d'.Closed := by
  intro q own some_node
  have place : d.isFolder q = true ∧ Short own := by
    rw [nodes] at some_node
    split at some_node
    · rename_i same
      obtain ⟨rfl, rfl⟩ := List.append_singleton_inj.mp same
      exact ⟨there, short⟩
    · exact closed q own some_node
  refine ⟨?_, place.2⟩
  rw [isFolder_iff, nodes]
  split
  · rename_i same
    rw [kept (same ▸ place.1)]
  · exact isFolder_iff.mp place.1

theorem write?_child (closed : d.Closed) (plain : ∀ name ∈ folder, Plain name) (there : d.isFolder folder = true)
    (own : Plain name) (short : Short name) (free : d.isFolder (folder ++ [name]) = false) (text : Option String) :
    d.write? (folder ++ [name]) text = some (d.put (folder ++ [name]) (.file text)) := by
  rw [write?, filePlace?, walk_child closed plain there own short]
  simp only [free]
  rfl

/-- The text is where the path says, and everything else is as it was. -/
theorem replace_spec (closed : d.Closed) (plain : ∀ name ∈ folder, Plain name) (there : d.isFolder folder = true)
    {temporary target : String} (own : Plain target) (short : Short target) (own' : Plain temporary)
    (short' : Short temporary) (apart : temporary ≠ target) (unused : d.node? (folder ++ [temporary]) = none)
    (free : d.isFolder (folder ++ [target]) = false) (text : String) :
    ∃ d', d.replace (folder ++ [temporary]) (folder ++ [target]) text = (d', .ok ()) ∧ d'.Closed ∧
      ∀ q, d'.node? q = if q = folder ++ [target] then some (.file (some text)) else d.node? q := by
  have places : folder ++ [target] ≠ folder ++ [temporary] := by simpa using Ne.symm apart
  -- the text is written beside the target, where nothing stood
  have free' : d.isFolder (folder ++ [temporary]) = false := by rw [isFolder, unused]; rfl
  have written := write?_child closed plain there own' short' free' (some text)
  generalize wrote : d.put (folder ++ [temporary]) (.file (some text)) = beside at written
  have nodes : ∀ q, beside.node? q = if q = folder ++ [temporary] then some (.file (some text)) else d.node? q :=
    fun q => by rw [← wrote, node?_put (child_ne_root _ _)]
  have kept : Rewritten (fun _ => True) d beside := rewritten_of_nodes free' trivial nodes nofun
  have folders := kept.folders
  -- and moved
  have source : beside.walk [] (folder ++ [temporary]) = some (folder ++ [temporary]) := by
    rw [walk_congr folders, walk_child closed plain there own' short']
  have place : beside.filePlace? (folder ++ [target]) = some (folder ++ [target]) := by
    rw [filePlace?, walk_congr folders, walk_child closed plain there own short]
    simp only [folders, free]
    rfl
  have there' : beside.node? (folder ++ [temporary]) = some (.file (some text)) := by rw [nodes, if_pos rfl]
  have moved : beside.rename? (folder ++ [temporary]) (folder ++ [target]) =
      some ((⟨beside.nodes.erase (folder ++ [temporary])⟩ : Directory).put (folder ++ [target]) (.file (some text))) := by
    rw [rename?, source, place]
    simp only [there']
  have after : ∀ q, ((⟨beside.nodes.erase (folder ++ [temporary])⟩ : Directory).put (folder ++ [target])
      (.file (some text))).node? q = if q = folder ++ [target] then some (.file (some text)) else d.node? q := by
    intro q
    rw [node?_put (child_ne_root _ _), node?_erase (child_ne_root _ _), nodes]
    by_cases temp : q = folder ++ [temporary]
    · simp [temp, unused]
    · simp [temp]
  refine ⟨_, by rw [replace_eq, written]; simp only [moved], closed.placed there short ?_ after, after⟩
  rw [free]
  exact nofun

/-! ### Replacing a file at the root -/

theorem walk_root (plain : Plain name) : d.walk [] [name] = if Short name then some [name] else none := by
  rw [walk_plain plain]
  by_cases short : Short name
  · rw [if_pos ⟨rfl, short⟩, if_pos short]
    rfl
  · rw [if_neg fun h => short h.2, if_neg short]

theorem filePlace?_root (plain : Plain name) {place : Path} (h : d.filePlace? [name] = some place) :
    place = [name] ∧ Short name := by
  rw [filePlace?, walk_root plain] at h
  by_cases short : Short name
  · simp only [if_pos short] at h
    split at h
    · cases h
    · exact ⟨(Option.some.inj h).symm, short⟩
  · simp only [if_neg short] at h
    cases h

/-- A file that has been replaced is read with its new text. -/
theorem read?_replace {temporary target : String} (plain' : Plain temporary) (plain : Plain target) {text : String}
    {d' : Directory} (h : d.replace [temporary] [target] text = (d', .ok ())) : d'.read? [target] = some text := by
  have below : ∀ name : String, [name] ≠ [] := fun name => List.cons_ne_nil _ _
  cases place : d.filePlace? [temporary] with
  | none =>
    simp only [replace_eq, write?, place, Option.map_none] at h
    cases h
  | some p =>
    obtain ⟨rfl, short'⟩ := filePlace?_root plain' place
    simp only [replace_eq, write?, place, Option.map_some, rename?, walk_root plain', if_pos short'] at h
    have beside : (d.put [temporary] (.file (some text))).node? [temporary] = some (.file (some text)) := by
      rw [node?_put (below temporary), if_pos rfl]
    cases place' : (d.put [temporary] (.file (some text))).filePlace? [target] with
    | none =>
      rw [place'] at h
      cases h
    | some p =>
      obtain ⟨rfl, short⟩ := filePlace?_root plain place'
      simp only [place', beside] at h
      cases h
      rw [read?, get?, walk_root plain, if_pos short, Option.bind_some, node?_put (below target), if_pos rfl]

/-! ### Making folders -/

theorem Closed.above (closed : d.Closed) {a b : Path} (there : d.isFolder (a ++ b) = true) : d.isFolder a = true := by
  induction b using List.reverseRecOn with
  | nil => rwa [List.append_nil] at there
  | append_singleton b name ih =>
    rw [← List.append_assoc] at there
    exact ih (closed _ _ (by rw [isFolder_iff.mp there]; rfl)).1

theorem makeFoldersFrom_plain {place : Path} (there : d.isFolder place = true) (plain : Plain name) (short : Short name)
    (rest : Path) : d.makeFoldersFrom place (name :: rest) =
      (if (d.node? (place ++ [name])).isSome then d else d.put (place ++ [name]) .folder).makeFoldersFrom
        (place ++ [name]) rest := by
  rw [makeFoldersFrom, if_neg (by simp [there]), if_neg plain.named, if_neg plain.no_dots,
    if_neg (Nat.not_lt.mpr short)]

/-- Folders that are there are gone through. -/
theorem makeFoldersFrom_there (closed : d.Closed) (place : Path) {a : Path} (plain : ∀ name ∈ a, Plain name)
    (there : d.isFolder (place ++ a) = true) (b : Path) :
    d.makeFoldersFrom place (a ++ b) = d.makeFoldersFrom (place ++ a) b := by
  induction a generalizing place with
  | nil => rw [List.nil_append, List.append_nil]
  | cons name rest ih =>
    have own := plain name (List.mem_cons_self ..)
    rw [← List.singleton_append, ← List.append_assoc] at there
    have next : (d.node? (place ++ [name])).isSome := by rw [isFolder_iff.mp (closed.above there)]; rfl
    obtain ⟨above, short⟩ := closed place name next
    rw [List.cons_append, makeFoldersFrom_plain above own short, if_pos next,
      ih (place ++ [name]) (fun n hn => plain n (List.mem_cons_of_mem _ hn)) there, List.append_assoc,
      List.singleton_append]

theorem makeFolders_there (closed : d.Closed) (plain : ∀ name ∈ folder, Plain name) (there : d.isFolder folder = true) :
    d.makeFolders folder = (d, true) := by
  have gone := makeFoldersFrom_there closed [] plain there []
  rw [List.append_nil, List.nil_append, makeFoldersFrom, there] at gone
  exact gone

/-- A folder in a folder is there afterwards, and everything else is as it was. -/
theorem makeFolders_child (closed : d.Closed) (folder : Path) (name : String) (plain : ∀ name ∈ folder, Plain name)
    (there : d.isFolder folder = true) (own : Plain name) (short : Short name)
    (free : ∀ text, d.node? (folder ++ [name]) ≠ some (.file text)) :
    ∃ d', d.makeFolders (folder ++ [name]) = (d', true) ∧ d'.Closed ∧
      ∀ q, d'.node? q = if q = folder ++ [name] then some .folder else d.node? q := by
  have gone := makeFoldersFrom_there closed [] plain there [name]
  rw [List.nil_append, makeFoldersFrom_plain there own short] at gone
  cases standing : d.node? (folder ++ [name]) with
  | some node =>
    cases node with
    | file text => exact absurd standing (free text)
    | folder =>
      refine ⟨d, makeFolders_there closed ?_ (isFolder_iff.mpr standing), closed, fun q => ?_⟩
      · exact List.forall_mem_append.mpr ⟨plain, List.forall_mem_singleton.mpr own⟩
      · split
        · rename_i same
          rw [same, standing]
        · rfl
  | none =>
    have nodes := node?_put (d := d) (child_ne_root folder name) .folder
    refine ⟨d.put (folder ++ [name]) .folder, ?_, closed.placed there short (fun _ => rfl) nodes, nodes⟩
    rw [makeFolders, gone, standing, if_neg (by decide), makeFoldersFrom, isFolder_iff.mpr]
    rw [nodes, if_pos rfl]

end TickerBoard.Directory

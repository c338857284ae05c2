import TickerBoard.Proofs.Json.Reading
import TickerBoard.Proofs.Json.Spelling

/-! Indented texts, read back.

The blanks of an indented text stand where a reader passes over blanks. So it is
taken apart to a tree of its value (`ofText?_indented`) if its numbers are read
back (`Legible`); integers of a word are. -/
namespace TickerBoard.Json

/-! ### Values whose numbers are read back -/

/-- The text of the number is a numeral that is read as the number. -/
def Number.Legible (m : Number) : Prop :=
  ∃ n, Written.takeNumeral m.text.toList = some (n, []) ∧ n.read? = some m

theorem legible_int {n : Int} (in_word : Word.least 64 ≤ n ∧ n < Word.size 64) : (Number.int n).Legible :=
  ⟨_, takeNumeral_int n, read?_ofInt in_word.1 in_word.2⟩

/-- Every number of the value is legible. -/
inductive Legible : Json → Prop
  | null : Legible .null
  | flag (b : Bool) : Legible (.flag b)
  | number {m : Number} (h : m.Legible) : Legible (.number m)
  | text (s : String) : Legible (.text s)
  | list {items : List Json} (h : ∀ j ∈ items, Legible j) : Legible (.list items)
  | record {fields : List (String × Json)} (h : ∀ e ∈ fields, Legible e.2) : Legible (.record fields)

theorem Legible.nat {n : Nat} (h : n < Word.size 64) : Legible (.int n) := by
  have least : Word.least 64 = -9223372036854775808 := rfl
  exact .number (legible_int (by omega))

/-- Half a word is less than a word. -/
theorem Legible.nat32 {n : Nat} (h : n < Word.size 32) : Legible (.int n) := .nat (h.trans (by decide))

theorem Legible.float {x : Float} (h : (Number.float x).Legible) : Legible (.float x) := by
  rw [Json.float]
  split
  · exact .number h
  · exact .null

theorem Legible.optional {α : Type} {f : α → Json} (h : ∀ a, Legible (f a)) (o : Option α) :
    Legible (.optional f o) := by
  cases o with
  | none => exact .null
  | some a => exact h a

theorem Legible.listOf {α : Type} {f : α → Json} {as : List α} (h : ∀ a ∈ as, Legible (f a)) :
    Legible (.listOf f as) :=
  .list (List.forall_mem_map.mpr h)

theorem Legible.without {j : Json} (h : Legible j) (gone : String → Bool) : Legible (j.without gone) := by
  cases h with
  | record h => exact .record fun e left => h e (List.mem_of_mem_filter left)
  | null => exact .null
  | flag b => exact .flag b
  | number h => exact .number h
  | text s => exact .text s
  | list h => exact .list h

theorem Legible.within {j : Json} (h : Legible j) (name : String) {change : Json → Json}
    (kept : ∀ {j}, Legible j → Legible (change j)) : Legible (j.within name change) := by
  cases h with
  | record h =>
    refine .record (List.forall_mem_map.mpr fun e here => ?_)
    split
    · exact kept (h e here)
    · exact h e here
  | null => exact .null
  | flag b => exact .flag b
  | number h => exact .number h
  | text s => exact .text s
  | list h => exact .list h

/-! ### Lines -/

/-- The text of a value at any depth is taken apart to the tree. -/
def ReadsIndented (j : Json) (w : Written) : Prop := ∀ depth, Recovers (j.indented depth).toList w

/-- A value that is on one line at any depth is read as without blanks. -/
theorem ReadsIndented.ofReads {j : Json} {w : Written} (same : ∀ depth, j.indented depth = j.compact)
    (h : Reads j w) : ReadsIndented j w := by
  intro depth
  rw [same]
  exact h

theorem blank_newline (depth : Nat) : Blank (newline depth).toList := by
  have text : (newline depth).toList = '\n' :: List.replicate (2 * depth) ' ' := by
    simp [newline]
  rw [text]
  exact List.forall_mem_cons.mpr ⟨rfl, fun c hc => by rw [List.eq_of_mem_replicate hc]; rfl⟩

theorem blank_space : Blank [' '] := by
  intro c hc
  rw [List.mem_singleton.mp hc]
  rfl

theorem toList_indentedItems (depth : Nat) (items : List Json) :
    (indentedItems depth items).toList =
      spread (newline depth).toList (items.map fun j => (j.indented depth).toList) := by
  induction items with
  | nil => simp [indentedItems, spread]
  | cons item rest ih =>
    cases rest with
    | nil => simp [indentedItems, spread]
    | cons next rest =>
      have text : spread (newline depth).toList ((item :: next :: rest).map fun j => (j.indented depth).toList) =
          (newline depth).toList ++ ((item.indented depth).toList ++
            ',' :: spread (newline depth).toList ((next :: rest).map fun j => (j.indented depth).toList)) := rfl
      rw [text, ← ih]
      simp [indentedItems]

theorem readsIndented_list {items : List Json} {ws : List Written} (reads : List.Forall₂ ReadsIndented items ws) :
    ReadsIndented (.list items) (.list ws) := by
  intro depth
  cases items with
  | nil =>
    cases reads
    have text : ((Json.list []).indented depth).toList = ['[', ']'] := by simp [indented]
    rw [text]
    exact recovers_list_nil
  | cons item others =>
    have text : ((Json.list (item :: others)).indented depth).toList =
        '[' :: (spread (newline (depth + 1)).toList ((item :: others).map fun j => (j.indented (depth + 1)).toList) ++
          ((newline depth).toList ++ [']'])) := by
      rw [← toList_indentedItems]
      simp [indented]
    have parts : List.Forall₂ Recovers ((item :: others).map fun j => (j.indented (depth + 1)).toList) ws :=
      List.forall₂_map_left_iff.mpr (reads.imp fun _ _ read => read (depth + 1))
    have read := recovers_list (blank_newline (depth + 1)) (blank_newline depth) parts (by simp)
    rwa [← text] at read

theorem toList_indentedFields (depth : Nat) (fields : List (String × Json)) :
    (indentedFields depth fields).toList = spread (newline depth).toList
      ((fields.map fun e => (e.1, (e.2.indented depth).toList)).map (Written.fieldText [' '])) := by
  induction fields with
  | nil => simp [indentedFields, spread]
  | cons field rest ih =>
    obtain ⟨key, value⟩ := field
    cases rest with
    | nil => simp [indentedFields, spread, Written.fieldText, quoted]
    | cons next rest =>
      have text : spread (newline depth).toList ((((key, value) :: next :: rest).map fun e =>
          (e.1, (e.2.indented depth).toList)).map (Written.fieldText [' '])) = (newline depth).toList ++
            (Written.fieldText [' '] (key, (value.indented depth).toList) ++ ',' :: spread (newline depth).toList
              (((next :: rest).map fun e => (e.1, (e.2.indented depth).toList)).map (Written.fieldText [' ']))) := rfl
      rw [text, ← ih]
      simp [indentedFields, Written.fieldText, quoted]

/-- A field of a record and what it is taken apart to at any depth. -/
def Written.ReadsFieldIndented (field : String × Json) (w : Option String × Written) : Prop :=
  w.1 = some field.1 ∧ ReadsIndented field.2 w.2

theorem readsIndented_record {fields : List (String × Json)} {ws : List (Option String × Written)}
    (reads : List.Forall₂ Written.ReadsFieldIndented fields ws) : ReadsIndented (.record fields) (.record ws) := by
  intro depth
  cases fields with
  | nil =>
    cases reads
    have text : ((Json.record []).indented depth).toList = ['\x7b', '\x7d'] := by simp [indented]
    rw [text]
    exact recovers_record_nil
  | cons field others =>
    have text : ((Json.record (field :: others)).indented depth).toList = '\x7b' :: (spread (newline (depth + 1)).toList
        (((field :: others).map fun e => (e.1, (e.2.indented (depth + 1)).toList)).map (Written.fieldText [' '])) ++
          ((newline depth).toList ++ ['\x7d'])) := by
      rw [← toList_indentedFields]
      simp [indented]
    have parts : List.Forall₂ Written.RecoversField
        ((field :: others).map fun e => (e.1, (e.2.indented (depth + 1)).toList)) ws :=
      List.forall₂_map_left_iff.mpr (reads.imp fun _ _ read => ⟨read.1, read.2 (depth + 1)⟩)
    have read := recovers_record (blank_newline (depth + 1)) (blank_newline depth) blank_space parts (by simp)
    rwa [← text] at read

/-! ### Whole texts -/

theorem reads_null : Reads .null .null := by
  intro fuel rest enough _
  have text : Json.null.compact.toList = ['n', 'u', 'l', 'l'] := by simp [compact]
  rw [text] at enough ⊢
  obtain ⟨k, rfl⟩ : ∃ k, fuel = k + 1 := ⟨fuel - 1, by simp at enough; omega⟩
  rfl

theorem reads_flag (b : Bool) : Reads (.flag b) (.flag b) := by
  intro fuel rest enough _
  have text : (Json.flag b).compact.toList =
      if b then ['t', 'r', 'u', 'e'] else ['f', 'a', 'l', 's', 'e'] := by
    cases b <;> simp [compact]
  rw [text] at enough ⊢
  obtain ⟨k, rfl⟩ : ∃ k, fuel = k + 1 := ⟨fuel - 1, by cases b <;> simp at enough <;> omega⟩
  cases b <;> rfl

/-- A legible value is read back at any depth, as a tree that spells it. -/
theorem Legible.readsIndented {j : Json} (h : Legible j) : ∃ w, Spells w j ∧ ReadsIndented j w := by
  induction h with
  | null => exact ⟨_, .null, .ofReads (fun _ => by simp [indented, compact]) reads_null⟩
  | flag b => exact ⟨_, .flag b, .ofReads (fun _ => by simp [indented, compact]) (reads_flag b)⟩
  | text s => exact ⟨_, .text s, .ofReads (fun _ => by simp [indented, compact]) (reads_text s)⟩
  | @number m h =>
    obtain ⟨n, taken, read⟩ := h
    have text : (Json.number m).compact = m.text := by rw [compact]
    exact ⟨_, .number read, .ofReads (fun _ => by simp [indented, compact]) (reads_numeral (text ▸ taken))⟩
  | @list items legible ih =>
    clear legible
    obtain ⟨ws, spelled, reads⟩ : ∃ ws, List.Forall₂ Spells ws items ∧ List.Forall₂ ReadsIndented items ws := by
      induction items with
      | nil => exact ⟨[], .nil, .nil⟩
      | cons j rest step =>
        obtain ⟨w, spelled, read⟩ := ih j (List.mem_cons_self ..)
        obtain ⟨ws, others, reads⟩ := step fun k hk => ih k (List.mem_cons_of_mem _ hk)
        exact ⟨w :: ws, .cons spelled others, .cons read reads⟩
    exact ⟨_, .list spelled, readsIndented_list reads⟩
  | @record fields legible ih =>
    clear legible
    obtain ⟨ws, spelled, reads⟩ : ∃ ws, List.Forall₂ SpellsField ws fields ∧
        List.Forall₂ Written.ReadsFieldIndented fields ws := by
      induction fields with
      | nil => exact ⟨[], .nil, .nil⟩
      | cons e rest step =>
        obtain ⟨w, spelled, read⟩ := ih e (List.mem_cons_self ..)
        obtain ⟨ws, others, reads⟩ := step fun k hk => ih k (List.mem_cons_of_mem _ hk)
        exact ⟨(some e.1, w) :: ws, .cons (.mk e.1 spelled) others, .cons ⟨rfl, read⟩ reads⟩
    exact ⟨_, .record spelled, readsIndented_record reads⟩

/-- The indented text of a legible value consists of a tree that spells the value. -/
theorem Legible.ofText?_indented {j : Json} (h : Legible j) :
    ∃ w, Written.ofText? (j.indented 0) = some w ∧ Spells w j := by
  obtain ⟨w, spelled, reads⟩ := h.readsIndented
  have read := reads 0 (2 * (j.indented 0).toList.length + 2) [] (by omega) stops_nil
  rw [List.append_nil] at read
  refine ⟨w, ?_, spelled⟩
  simp only [Written.ofText?, read]
  rfl

end TickerBoard.Json

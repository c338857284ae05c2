import Mathlib.Data.List.Forall2
import TickerBoard.Json.Decode

/-! JSON values and the trees that spell them.

A tree spells a value if it differs from it in how it is written alone: in the
digits of its numerals and in the escapes of its texts (`Spells`). What a decoder
makes of a value it makes of every tree that spells the value (`Decodes`). A
record may have lost fields: of those that a decoder asks for by name it finds the
ones that are left and takes the default for the others (`orElse_field`). -/
namespace TickerBoard.Json

mutual

/-- The tree is one of the value. -/
inductive Spells : Written → Json → Prop
  | null : Spells .null .null
  | flag (b : Bool) : Spells (.flag b) (.flag b)
  | number {n : Numeral} {m : Number} (read : n.read? = some m) : Spells (.numeral n) (.number m)
  | text (s : String) : Spells (.text (some s)) (.text s)
  | list {ws : List Written} {js : List Json} (items : List.Forall₂ Spells ws js) : Spells (.list ws) (.list js)
  | record {ws : List (Option String × Written)} {js : List (String × Json)}
    (fields : List.Forall₂ SpellsField ws js) : Spells (.record ws) (.record js)

/-- A field of a tree is one of a field of the value. -/
inductive SpellsField : Option String × Written → String × Json → Prop
  | mk (key : String) {w : Written} {j : Json} (value : Spells w j) : SpellsField (some key, w) (key, j)

end

/-- However the value is spelled, it is decoded as `a`. -/
def Decodes {α : Type} (decode : Written → Option α) (j : Json) (a : α) : Prop :=
  ∀ w, Spells w j → decode w = some a

/-! ### Single values -/

theorem decodes_text (s : String) : Decodes Written.text? (.text s) s := by
  intro w spelled
  cases spelled
  rfl

theorem decodes_flag (b : Bool) : Decodes Written.flag? (.flag b) b := by
  intro w spelled
  cases spelled
  rfl

theorem number?_spelled {w : Written} {m : Number} (spelled : Spells w (.number m)) : w.number? = some m := by
  cases spelled with
  | number read => exact read

theorem decodes_int {low high n : Int} (bounds : low ≤ n ∧ n ≤ high) : Decodes (Written.int? low high) (.int n) n := by
  intro w spelled
  rw [Written.int?, number?_spelled spelled]
  simp [bounds]

theorem decodes_nat {bits n : Nat} (h : n < Word.size bits) : Decodes (Written.nat? bits) (.int n) n := by
  intro w spelled
  rw [Written.nat?, decodes_int (by omega) w spelled]
  rfl

theorem decodes_signed {bits : Nat} {n : Int} (h : Word.least bits ≤ n ∧ n ≤ Word.greatest bits) :
    Decodes (Written.signed? bits) (.int n) n :=
  decodes_int h

theorem decodes_float {x : Float} (finite : x.isFinite = true) : Decodes Written.float? (.float x) x := by
  intro w spelled
  rw [float, if_pos finite] at spelled
  rw [Written.float?, number?_spelled spelled]

/-- A moment whose text is read as the moment. -/
theorem decodes_moment {m : Moment} (h : Moment.ofText? m.text = some m) : Decodes Written.moment? (.text m.text) m := by
  intro w spelled
  rw [Written.moment?, decodes_text m.text w spelled, Option.bind_some, h]

/-- A value that may be absent, where null is no spelling of one that is there. -/
theorem decodes_optional {α : Type} {decode : Written → Option α} {f : α → Json} {o : Option α}
    (h : ∀ a, o = some a → f a ≠ .null ∧ Decodes decode (f a) a) :
    Decodes (Written.optional? decode) (.optional f o) o := by
  intro w spelled
  cases o with
  | none =>
    cases spelled
    rfl
  | some a =>
    obtain ⟨there, decoded⟩ := h a rfl
    have read := decoded w spelled
    change Spells w (f a) at spelled
    cases w with
    | null =>
      generalize f a = j at spelled there
      cases spelled
      exact absurd rfl there
    | _ => simp [Written.optional?, read]

theorem decodes_list {α : Type} {decode : Written → Option α} {f : α → Json} {as : List α}
    (h : ∀ a ∈ as, Decodes decode (f a) a) : Decodes (Written.listOf? decode) (listOf f as) as := by
  intro w spelled
  cases spelled with
  | list items =>
    rw [List.forall₂_map_right_iff] at items
    rw [Written.listOf?]
    induction items with
    | nil => rfl
    | @cons w a ws rest first _ ih =>
      have own := h a (List.mem_cons_self ..) w first
      have others := ih fun b hb => h b (List.mem_cons_of_mem _ hb)
      simp [List.mapM_cons, own, others]

/-! ### Records -/

/-- A record without the fields of some names. -/
def without (gone : String → Bool) : Json → Json
  | .record fields => .record (fields.filter fun e => !gone e.1)
  | j => j

/-- A record with the value of a name changed. -/
def within (name : String) (change : Json → Json) : Json → Json
  | .record fields => .record (fields.map fun e => if e.1 = name then (e.1, change e.2) else e)
  | j => j

section Fields
variable {ws : List (Option String × Written)} {js : List (String × Json)}

/-- What a tree has under a name spells what the value has under it. -/
theorem lookup_spelled (spelled : List.Forall₂ SpellsField ws js) (name : String) :
    Option.Rel Spells (ws.lookup (some name)) (js.lookup name) := by
  induction spelled with
  | nil => exact .none
  | cons first _ ih =>
    obtain ⟨key, value⟩ := first
    by_cases own : name = key
    · subst own
      simpa using Option.Rel.some value
    · have other : (name == key) = false := by simpa using own
      simpa [List.lookup_cons, other] using ih

theorem filter_spelled (spelled : List.Forall₂ SpellsField ws js) {name : String} (absent : name ∉ js.map (·.1)) :
    ws.filter (·.1 == some name) = [] := by
  induction spelled with
  | nil => rfl
  | cons first _ ih =>
    obtain ⟨key, value⟩ := first
    simp only [List.map_cons, List.mem_cons, not_or] at absent
    simpa [List.filter_cons, Ne.symm absent.1] using ih absent.2

/-- No name stands twice, so the field of a name is the first of it. -/
theorem single?_spelled (spelled : List.Forall₂ SpellsField ws js) (distinct : (js.map (·.1)).Nodup) (name : String) :
    Written.single? name ws = some (ws.lookup (some name)) := by
  induction spelled with
  | nil => rfl
  | cons first rest ih =>
    obtain ⟨key, value⟩ := first
    obtain ⟨alone, distinct⟩ := List.nodup_cons.mp distinct
    by_cases own : name = key
    · subst own
      simp [Written.single?, filter_spelled rest alone]
    · have other : (name == key) = false := by simpa using own
      simpa [Written.single?, List.filter_cons, List.lookup_cons, other, Ne.symm own] using ih distinct

theorem fields?_spelled (spelled : List.Forall₂ SpellsField ws js) (distinct : (js.map (·.1)).Nodup)
    (names : List String) :
    Written.fields? names (.record ws) = some (names.map fun name => ws.lookup (some name)) := by
  have named : ws.all (·.1.isSome) = true := by
    clear distinct
    induction spelled with
    | nil => rfl
    | cons first _ ih =>
      obtain ⟨key, value⟩ := first
      simpa using ih
  rw [Written.fields?, if_pos named]
  induction names with
  | nil => rfl
  | cons name rest ih =>
    rw [List.mapM_cons, single?_spelled spelled distinct, ih]
    rfl

theorem lookup_filter (gone : String → Bool) (js : List (String × Json)) (name : String) :
    (js.filter fun e => !gone e.1).lookup name = if gone name then none else js.lookup name := by
  induction js with
  | nil => simp
  | cons e rest ih =>
    obtain ⟨key, value⟩ := e
    by_cases own : name = key
    · subst own
      cases lost : gone name <;> simp [lost, ih]
    · have other : (name == key) = false := by simpa using own
      cases lost : gone key <;> simp [lost, List.lookup_cons, other, ih]

theorem distinct_filter (gone : String → Bool) (distinct : (js.map (·.1)).Nodup) :
    ((js.filter fun e => !gone e.1).map (·.1)).Nodup :=
  distinct.sublist (List.filter_sublist.map _)

section Read
variable {α : Type} {decode : Written → Option α} {j : Json} {a : α}

theorem lookup_there (spelled : List.Forall₂ SpellsField ws js) {name : String} (there : js.lookup name = some j) :
    ∃ w, ws.lookup (some name) = some w ∧ Spells w j := by
  have found := lookup_spelled spelled name
  rw [there] at found
  generalize ws.lookup (some name) = w at found
  cases found with
  | some value => exact ⟨_, rfl, value⟩

theorem needed_there (spelled : List.Forall₂ SpellsField ws js) (name : String) (there : js.lookup name = some j)
    (decoded : Decodes decode j a) : Written.needed decode (ws.lookup (some name)) = some a := by
  obtain ⟨w, found, value⟩ := lookup_there spelled there
  rw [found]
  exact decoded w value

theorem orElse_there (spelled : List.Forall₂ SpellsField ws js) (name : String) (there : js.lookup name = some j)
    (decoded : Decodes decode j a) (default : α) :
    Written.orElse decode default (ws.lookup (some name)) = some a := by
  obtain ⟨w, found, value⟩ := lookup_there spelled there
  rw [found]
  exact decoded w value

theorem orElse_absent (spelled : List.Forall₂ SpellsField ws js) (name : String) (absent : js.lookup name = none)
    (default : α) : Written.orElse decode default (ws.lookup (some name)) = some default := by
  have found := lookup_spelled spelled name
  rw [absent] at found
  generalize ws.lookup (some name) = w at found ⊢
  cases found
  rfl

/-- A field that a record may have lost is read as it was, or has its default if it is lost. -/
theorem orElse_field {gone : String → Bool} (spelled : List.Forall₂ SpellsField ws (js.filter fun e => !gone e.1))
    (name : String) (there : js.lookup name = some j) (decoded : Decodes decode j a) (default : α) :
    Written.orElse decode default (ws.lookup (some name)) = some (if gone name then default else a) := by
  cases lost : gone name with
  | true => exact orElse_absent spelled name (by rw [lookup_filter, lost]; rfl) default
  | false => exact orElse_there spelled name (by rw [lookup_filter, lost]; exact there) decoded default

end Read
end Fields

end TickerBoard.Json

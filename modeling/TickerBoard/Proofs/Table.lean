import Mathlib.Data.List.Induction
import Mathlib.Data.List.Sort
import TickerBoard.Table
import TickerBoard.Calendar.Instant

/-! Tables in the order of their keys.

A table grows behind all smaller keys without touching them (`place_append`),
so one whose keys come in turn is the list of what was put into it. In whatever
order they come, the keys ascend (`ascending_insert`), and an ascending table
is known by its look-ups (`find?_eq_some`). -/
namespace TickerBoard

instance : Std.TransOrd Instant := inferInstanceAs (Std.TransCmp (compareOn Instant.ms))

instance : Std.LawfulEqOrd Instant where
  eq_of_compare {a b} h := by
    have : a.ms = b.ms := Std.LawfulEqOrd.eq_of_compare h
    cases a
    cases b
    exact congrArg Instant.mk this

namespace Table
variable {κ υ : Type} [DecidableEq κ]

theorem mem_of_lookup {k : κ} {v : υ} {es : List (κ × υ)} (h : lookup k es = some v) : (k, v) ∈ es := by
  induction es with
  | nil => cases h
  | cons e rest ih =>
    rw [lookup] at h
    split at h
    · rename_i same
      obtain rfl := Option.some.inj h
      rw [← same]
      exact List.mem_cons_self ..
    · exact List.mem_cons_of_mem _ (ih h)

theorem mem_keys_iff (t : Table κ υ) (k : κ) : k ∈ t.keys ↔ (t.find? k).isSome = true := by
  show k ∈ t.entries.map (·.1) ↔ (lookup k t.entries).isSome = true
  induction t.entries with
  | nil => simp [lookup]
  | cons e rest ih =>
    by_cases same : e.1 = k
    · simp [lookup, same]
    · simp [lookup, same, Ne.symm same, ← ih]

variable [Ord κ]

theorem mem_of_mem_place {k : κ} {v : υ} {es : List (κ × υ)} {e : κ × υ} (h : e ∈ place k v es) :
    e = (k, v) ∨ e ∈ es := by
  induction es with
  | nil => exact .inl (List.mem_singleton.mp h)
  | cons x rest ih =>
    rw [place] at h
    split at h
    · rcases List.mem_cons.mp h with new | old
      · exact .inl new
      · exact .inr (List.mem_cons_of_mem _ old)
    · split at h
      · exact List.mem_cons.mp h
      · rcases List.mem_cons.mp h with rfl | later
        · exact .inr (List.mem_cons_self ..)
        · exact (ih later).imp_right (List.mem_cons_of_mem _)

theorem place_place (k : κ) (v v' : υ) (es : List (κ × υ)) : place k v' (place k v es) = place k v' es := by
  induction es with
  | nil => simp [place]
  | cons e rest ih =>
    by_cases own : e.1 = k
    · simp [place, own]
    · by_cases before : compare k e.1 = .lt
      · simp [place, own, before]
      · simp [place, own, before, ih]

/-- Of two values of one key the later counts. -/
theorem insert_insert (t : Table κ υ) (k : κ) (v v' : υ) : (t.insert k v).insert k v' = t.insert k v' :=
  congrArg mk (place_place k v v' t.entries)

variable [Std.TransOrd κ]

omit [DecidableEq κ] in
theorem ne_of_compare_lt {a b : κ} (h : compare a b = .lt) : a ≠ b := by
  rintro rfl
  rw [Std.ReflOrd.compare_self] at h
  cases h

theorem place_append {k : κ} {older : List (κ × υ)} (smaller : ∀ e ∈ older, compare e.1 k = .lt) (v : υ)
    (rest : List (κ × υ)) : place k v (older ++ rest) = older ++ place k v rest := by
  induction older with
  | nil => rfl
  | cons e older ih =>
    have first := smaller e (List.mem_cons_self ..)
    have behind : compare k e.1 ≠ .lt := by
      rw [Std.OrientedOrd.eq_swap, first]
      decide
    rw [List.cons_append, place, if_neg (ne_of_compare_lt first), if_neg behind,
      ih fun e he => smaller e (List.mem_cons_of_mem _ he), List.cons_append]

theorem lookup_append {k : κ} {older : List (κ × υ)} (smaller : ∀ e ∈ older, compare e.1 k = .lt)
    (rest : List (κ × υ)) : lookup k (older ++ rest) = lookup k rest := by
  induction older with
  | nil => rfl
  | cons e older ih =>
    rw [List.cons_append, lookup, if_neg (ne_of_compare_lt (smaller e (List.mem_cons_self ..))),
      ih fun e he => smaller e (List.mem_cons_of_mem _ he)]

/-! ### Values changed alike -/

section MapValues
variable {ω : Type} (f : υ → ω)

omit [Ord κ] [Std.TransOrd κ] in
@[simp] theorem find?_mapValues (t : Table κ υ) (k : κ) : (t.mapValues f).find? k = (t.find? k).map f := by
  show lookup k (t.entries.map _) = _
  unfold find?
  induction t.entries with
  | nil => rfl
  | cons e rest ih =>
    rw [List.map_cons, lookup, lookup, ih]
    split <;> rfl

omit [Std.TransOrd κ] in
theorem mapValues_insert (t : Table κ υ) (k : κ) (v : υ) :
    (t.insert k v).mapValues f = (t.mapValues f).insert k (f v) := by
  show Table.mk _ = Table.mk _
  congr 1
  show (place k v t.entries).map _ = place k (f v) (t.entries.map _)
  induction t.entries with
  | nil => rfl
  | cons e rest ih =>
    rw [List.map_cons, place, place]
    split
    · rfl
    · split
      · rfl
      · rw [List.map_cons, ih]

omit [Std.TransOrd κ] in
theorem mapValues_ofList (es : List (κ × υ)) :
    (ofList es).mapValues f = ofList (es.map fun e => (e.1, f e.2)) := by
  have from_any : ∀ t : Table κ υ, (es.foldl (fun t e => t.insert e.1 e.2) t).mapValues f =
      (es.map fun e => (e.1, f e.2)).foldl (fun t e => t.insert e.1 e.2) (t.mapValues f) := by
    induction es with
    | nil => exact fun _ => rfl
    | cons e rest ih => exact fun t => by rw [List.foldl_cons, ih, mapValues_insert, List.map_cons, List.foldl_cons]
  exact from_any empty

end MapValues

/-! ### Ascending tables -/

/-- Every key is greater than those before it; none occurs twice. -/
def Ascending (t : Table κ υ) : Prop := t.entries.Pairwise fun a b => compare a.1 b.1 = .lt

omit [DecidableEq κ] [Std.TransOrd κ] in
theorem ascending_empty : (empty : Table κ υ).Ascending := .nil

/-- An ascending table is that of its entries. -/
theorem ofList_entries {t : Table κ υ} (h : t.Ascending) : ofList t.entries = t := by
  obtain ⟨es⟩ := t
  induction es using List.reverseRecOn with
  | nil => rfl
  | append_singleton es e ih =>
    obtain ⟨older, -, smaller⟩ := List.pairwise_append.mp h
    have last : ofList (es ++ [e]) = (ofList es).insert e.1 e.2 := List.foldl_append
    have behind := place_append (fun x hx => smaller x hx e (List.mem_singleton.mpr rfl)) e.2 []
    rw [List.append_nil] at behind
    rw [last, ih older, insert, behind]
    rfl

omit [DecidableEq κ] in
theorem nodup_keys {t : Table κ υ} (h : t.Ascending) : t.keys.Nodup :=
  List.pairwise_map.mpr (h.imp ne_of_compare_lt)

omit [Ord κ] [Std.TransOrd κ] in
/-- Of entries under different keys, the look-up finds every one. -/
theorem lookup_eq_some {es : List (κ × υ)} (apart : (es.map (·.1)).Nodup) {k : κ} {v : υ} :
    lookup k es = some v ↔ (k, v) ∈ es := by
  refine ⟨mem_of_lookup, fun listed => ?_⟩
  induction es with
  | nil => cases listed
  | cons e rest ih =>
    obtain ⟨first, others⟩ := List.nodup_cons.mp apart
    rw [lookup]
    rcases List.mem_cons.mp listed with rfl | later
    · exact if_pos rfl
    · have other : e.1 ≠ k := by
        rintro rfl
        exact first (List.mem_map.mpr ⟨_, later, rfl⟩)
      rw [if_neg other, ih others later]

/-- Of an ascending table, the look-up finds every entry. -/
theorem find?_eq_some {t : Table κ υ} (h : t.Ascending) {k : κ} {v : υ} :
    t.find? k = some v ↔ (k, v) ∈ t.entries :=
  lookup_eq_some (nodup_keys h)

omit [DecidableEq κ] [Std.TransOrd κ] in
theorem ascending_filter {t : Table κ υ} (h : t.Ascending) (p : κ → υ → Bool) : (t.filter p).Ascending :=
  List.Pairwise.filter _ h

theorem find?_filter {t : Table κ υ} (h : t.Ascending) (p : κ → υ → Bool) (k : κ) :
    (t.filter p).find? k = (t.find? k).filter (p k) := by
  ext v
  rw [find?_eq_some (ascending_filter h p), filter, List.mem_filter, Option.filter_eq_some_iff, find?_eq_some h]

/-- Two ascending tables with the same look-ups are one. -/
theorem ext_find? {t t' : Table κ υ} (h : t.Ascending) (h' : t'.Ascending) (same : ∀ k, t.find? k = t'.find? k) :
    t = t' := by
  have irreflexive : Std.Irrefl fun a b : κ × υ => compare a.1 b.1 = .lt :=
    ⟨fun a before => ne_of_compare_lt before rfl⟩
  have antisymmetric : Std.Antisymm fun a b : κ × υ => compare a.1 b.1 = .lt :=
    ⟨fun a b before after => absurd rfl (ne_of_compare_lt (Std.TransCmp.lt_trans before after))⟩
  have entries : t.entries = t'.entries := List.Pairwise.eq_of_mem_iff h h' fun e => by
    rw [← find?_eq_some h, ← find?_eq_some h', same]
  exact congrArg mk entries

variable [Std.LawfulEqOrd κ]

theorem ascending_place {es : List (κ × υ)} (h : es.Pairwise fun a b => compare a.1 b.1 = .lt) (k : κ) (v : υ) :
    (place k v es).Pairwise fun a b => compare a.1 b.1 = .lt := by
  induction es with
  | nil => exact List.pairwise_singleton _ _
  | cons e rest ih =>
    obtain ⟨first, others⟩ := List.pairwise_cons.mp h
    rw [place]
    split
    · rename_i same
      exact List.pairwise_cons.mpr ⟨fun x hx => same ▸ first x hx, others⟩
    · rename_i apart
      split
      · rename_i before
        refine List.pairwise_cons.mpr ⟨fun x hx => ?_, h⟩
        rcases List.mem_cons.mp hx with rfl | later
        · exact before
        · exact Std.TransCmp.lt_trans before (first x later)
      · rename_i behind
        refine List.pairwise_cons.mpr ⟨fun x hx => ?_, ih others⟩
        rcases mem_of_mem_place hx with rfl | old
        · cases order : compare e.1 k with
          | lt => rfl
          | eq => exact absurd (Std.LawfulEqOrd.eq_of_compare order) apart
          | gt => exact absurd (Std.OrientedCmp.gt_iff_lt.mp order) behind
        · exact first x old

theorem ascending_insert {t : Table κ υ} (h : t.Ascending) (k : κ) (v : υ) : (t.insert k v).Ascending :=
  ascending_place h k v

/-- What comes into a table comes into the part of it that keeps its key. -/
theorem filter_insert {t : Table κ υ} (h : t.Ascending) (p : κ → Bool) (k : κ) (v : υ) :
    (t.insert k v).filter (fun k _ => p k) =
      if p k then (t.filter fun k _ => p k).insert k v else t.filter fun k _ => p k := by
  have kept := ascending_filter h fun k _ => p k
  have grown := ascending_filter (ascending_insert h k v) fun k _ => p k
  split
  · rename_i admitted
    refine ext_find? grown (ascending_insert kept k v) fun k' => ?_
    rw [find?_filter (ascending_insert h k v), find?_insert, find?_insert, find?_filter h]
    split
    · rename_i own
      simp [← own, admitted]
    · rfl
  · rename_i refused
    refine ext_find? grown kept fun k' => ?_
    rw [find?_filter (ascending_insert h k v), find?_insert, find?_filter h]
    split
    · rename_i own
      simp [← own, refused]
    · rfl

omit [DecidableEq κ] [Std.TransOrd κ] [Std.LawfulEqOrd κ] in
/-- A change of the values leaves the keys in order. -/
theorem ascending_of_keys {ω : Type} {t : Table κ υ} {t' : Table κ ω} (h : t.Ascending) (same : t'.keys = t.keys) :
    t'.Ascending := by
  rw [Ascending, ← List.pairwise_map (f := Prod.fst) (R := fun a b => compare a b = .lt)] at h ⊢
  show t'.keys.Pairwise _
  rw [same]
  exact h

omit [DecidableEq κ] [Ord κ] [Std.TransOrd κ] [Std.LawfulEqOrd κ] in
theorem keys_mapValues {ω : Type} (f : υ → ω) (t : Table κ υ) : (t.mapValues f).keys = t.keys := by
  simp [mapValues, keys, Function.comp_def]

omit [Ord κ] [Std.TransOrd κ] [Std.LawfulEqOrd κ] in
theorem keys_modify (t : Table κ υ) (k : κ) (f : υ → υ) : (t.modify k f).keys = t.keys := by
  simp only [modify, keys, List.map_map, List.map_inj_left, Function.comp_apply]
  intro e _
  split <;> rfl

omit [Std.TransOrd κ] [Std.LawfulEqOrd κ] in
theorem ascending_erase {t : Table κ υ} (h : t.Ascending) (k : κ) : (t.erase k).Ascending :=
  List.Pairwise.filter _ h

end Table
end TickerBoard

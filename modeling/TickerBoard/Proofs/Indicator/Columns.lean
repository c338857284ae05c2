import Mathlib.Data.List.TakeWhile
import TickerBoard.Indicator.Ema
import TickerBoard.Indicator.Rsi

/-! Indicator columns, slot by slot.

A column is made of a bare list of values that is pushed to the end of the
series. `slots` says what stands in each place when nothing is left out: the
average or the reading after each closing price, absent during the warm-up. As
long as every one of them is finite (`Finite`), the column is just these slots
(`Rsi.column_eq_slots`, `Ema.column_eq_slots`); and what stands in a place hangs
on the closing prices up to it alone, so the head of a column is the column of
the head (`Rsi.take_column`, `Ema.take_column`). -/
namespace TickerBoard
variable {α : Type}

/-! ### Slots that fill up -/

/-- Once a slot is filled, so are all behind it. -/
def Settling (slots : List (Option α)) : Prop :=
  slots.Pairwise fun a b => a.isSome = true → b.isSome = true

theorem length_alignTail (values : List α) (length : Nat) :
    (alignTail values length).length = length := by
  simp only [alignTail, List.length_take, List.length_append, List.length_replicate, List.length_map]
  omega

theorem alignTail_length (values : List α) : alignTail values values.length = values.map some := by
  rw [alignTail, Nat.sub_self, List.replicate_zero, List.nil_append, List.take_of_length_le (by simp)]

theorem alignTail_succ {values : List α} {length : Nat} (h : values.length ≤ length) :
    alignTail values (length + 1) = none :: alignTail values length := by
  rw [alignTail, alignTail, Nat.succ_sub h, List.replicate_succ, List.cons_append, List.take_succ_cons]

theorem map_some_filterMap {slots : List (Option α)} (h : ∀ s ∈ slots, s.isSome = true) :
    (slots.filterMap id).map some = slots := by
  induction slots with
  | nil => rfl
  | cons s rest ih =>
    obtain ⟨first, others⟩ := List.forall_mem_cons.mp h
    obtain ⟨v, rfl⟩ := Option.isSome_iff_exists.mp first
    exact congrArg (some v :: ·) (ih others)

/-- Pushed to the end, the values of slots that fill up stand where they stood. -/
theorem alignTail_filterMap {slots : List (Option α)} (h : Settling slots) :
    alignTail (slots.filterMap id) slots.length = slots := by
  induction slots with
  | nil => rfl
  | cons s rest ih =>
    obtain ⟨first, others⟩ := List.pairwise_cons.mp h
    cases s with
    | none =>
      rw [List.filterMap_cons_none rfl, List.length_cons, alignTail_succ (List.length_filterMap_le ..), ih others]
    | some v =>
      have full : ∀ s ∈ some v :: rest, s.isSome = true :=
        List.forall_mem_cons.mpr ⟨rfl, fun s hs => first s hs rfl⟩
      have same := map_some_filterMap full
      have length := congrArg List.length same
      rw [List.length_map] at length
      rw [← length, alignTail_length, same]

/-- But for its last slot, a column does not show the last of its values. -/
theorem dropLast_alignTail {values values' : List α} (length : values'.length = values.length)
    (same : values'.dropLast = values.dropLast) (n : Nat) :
    (alignTail values' n).dropLast = (alignTail values n).dropLast := by
  rcases List.eq_nil_or_concat values with rfl | ⟨older, last, rfl⟩
  · rw [List.length_eq_zero_iff.mp length]
  · rcases List.eq_nil_or_concat values' with rfl | ⟨older', last', rfl⟩
    · simp at length
    · simp only [List.concat_eq_append, List.dropLast_concat] at same length ⊢
      subst same
      have inside : n - 1 ≤ (List.replicate (n - (older' ++ [last]).length) none ++ older'.map some).length := by
        simp only [List.length_append, List.length_replicate, List.length_map, List.length_singleton]
        omega
      rw [List.dropLast_eq_take, List.dropLast_eq_take, length_alignTail, length_alignTail, alignTail, alignTail,
        List.take_take, List.take_take, length, List.map_append, List.map_append, ← List.append_assoc,
        ← List.append_assoc, Nat.min_eq_left (Nat.sub_le n 1), List.take_append_of_le_length inside,
        List.take_append_of_le_length inside]

/-- Slots that differ in the last alone, up to the first value that `p` refuses: but for the
last, the values are the same if there are as many. -/
theorem dropLast_takeWhile_filterMap (p : α → Bool) {slots slots' : List (Option α)}
    (length : slots'.length = slots.length) (same : slots'.dropLast = slots.dropLast)
    (many : ((slots'.filterMap id).takeWhile p).length = ((slots.filterMap id).takeWhile p).length) :
    ((slots'.filterMap id).takeWhile p).dropLast = ((slots.filterMap id).takeWhile p).dropLast := by
  have atMostOne : ∀ s : Option α, (([s].filterMap id).takeWhile p).length ≤ 1 := fun s =>
    ((List.takeWhile_sublist p).length_le).trans (List.length_filterMap_le ..)
  rcases List.eq_nil_or_concat slots with rfl | ⟨older, last, rfl⟩
  · rw [List.length_eq_zero_iff.mp length]
  · rcases List.eq_nil_or_concat slots' with rfl | ⟨older', last', rfl⟩
    · simp at length
    · simp only [List.concat_eq_append, List.dropLast_concat] at same many ⊢
      subst same
      rw [List.filterMap_append, List.filterMap_append, List.takeWhile_append, List.takeWhile_append] at many ⊢
      split
      · -- all of the earlier values are taken, so the last slot decides how many there are
        rename_i all
        rw [if_pos all, if_pos all, List.length_append, List.length_append] at many
        have one := atMostOne last
        have one' := atMostOne last'
        generalize ([last].filterMap id).takeWhile p = l at many one ⊢
        generalize ([last'].filterMap id).takeWhile p = l' at many one' ⊢
        match l, l' with
        | [], [] => rfl
        | [_], [_] => rw [List.dropLast_concat, List.dropLast_concat]
        | [], _ :: _ => simp at many
        | _ :: _, [] => simp at many
        | _ :: _ :: _, _ => simp at one
        | _, _ :: _ :: _ => simp at one'
      · rfl

/-- The column of values that are all finite. -/
theorem alignTail_takeWhile [Scalar α] {slots : List (Option α)} (h : Settling slots)
    (finite : ∀ v, some v ∈ slots → Scalar.isFinite v = true) :
    alignTail ((slots.filterMap id).takeWhile Scalar.isFinite) slots.length = slots := by
  have all : (slots.filterMap id).takeWhile Scalar.isFinite = slots.filterMap id :=
    List.takeWhile_eq_self_iff.mpr fun v hv => finite v (by simpa using hv)
  rw [all, alignTail_filterMap h]

/-- The head of what a causal function answers is its answer to the head. -/
theorem take_of_mono {f : List α → List (Option α)} (length : ∀ xs, (f xs).length = xs.length)
    (mono : ∀ {xs ys}, xs <+: ys → f xs <+: f ys) (xs : List α) (n : Nat) : (f xs).take n = f (xs.take n) := by
  have head : xs.take n <+: xs := List.take_prefix ..
  rw [List.prefix_iff_eq_take.mp (mono head), length, List.length_take, List.take_eq_take_iff, length, Nat.min_assoc,
    Nat.min_self]

/-! ### Running averages -/

namespace Smoothing
variable [Scalar α]

@[simp] theorem length_outputs (s : Smoothing α) (xs : List α) : (s.outputs xs).length = xs.length := by
  induction xs generalizing s with
  | nil => rfl
  | cons x rest ih => rw [outputs, List.length_cons, ih, List.length_cons]

/-- An average answers to what came so far. -/
theorem outputs_mono (s : Smoothing α) {xs ys : List α} (h : xs <+: ys) : s.outputs xs <+: s.outputs ys := by
  induction xs generalizing s ys with
  | nil => exact List.nil_prefix
  | cons x rest ih =>
    obtain ⟨more, rfl⟩ := h
    exact (List.prefix_cons_inj _).mpr (ih _ (List.prefix_append ..))

/-- What an average answers is its value from then on. -/
theorem value_push (s : Smoothing α) (x : α) : (s.push x).1.value = (s.push x).2 := by
  unfold push
  split
  · rfl
  · rename_i none
    dsimp only
    split
    · exact none
    · rfl

theorem isSome_outputs {s : Smoothing α} (h : s.value.isSome = true) (xs : List α) :
    ∀ v ∈ s.outputs xs, v.isSome = true := by
  induction xs generalizing s with
  | nil => exact nofun
  | cons x rest ih =>
    obtain ⟨previous, hv⟩ := Option.isSome_iff_exists.mp h
    have pushed : (s.push x).2.isSome = true := by simp [push, hv]
    exact List.forall_mem_cons.mpr ⟨pushed, ih (by rwa [value_push])⟩

theorem settling_outputs (s : Smoothing α) (xs : List α) : Settling (s.outputs xs) := by
  induction xs generalizing s with
  | nil => exact .nil
  | cons x rest ih =>
    refine List.pairwise_cons.mpr ⟨fun v hv pushed => ?_, ih _⟩
    exact isSome_outputs (by rwa [value_push]) rest v hv

end Smoothing

/-! ### The moving average -/

namespace Ema
variable [Scalar α]

/-- The average after each closing price. -/
def slots (closes : List α) (period : Nat) : List (Option α) :=
  if period = 0 then closes.map fun _ => none else (Smoothing.start .exponential period).outputs closes

/-- The average never leaves the finite numbers. -/
def Finite (closes : List α) (period : Nat) : Prop :=
  ∀ v, some v ∈ slots closes period → Scalar.isFinite v = true

theorem finite_of_all {closes : List α} {period : Nat}
    (h : (slots closes period).all (fun s => s.all Scalar.isFinite) = true) : Finite closes period :=
  fun v hv => List.all_eq_true.mp h (some v) hv

@[simp] theorem length_slots (closes : List α) (period : Nat) : (slots closes period).length = closes.length := by
  unfold slots
  split <;> simp

theorem slots_mono {closes more : List α} (h : closes <+: more) (period : Nat) :
    slots closes period <+: slots more period := by
  unfold slots
  split
  · exact h.map _
  · exact Smoothing.outputs_mono _ h

/-- The values are what the slots hold, up to the first that is not finite. -/
theorem values_eq (closes : List α) (period : Nat) :
    values closes period = ((slots closes period).filterMap id).takeWhile Scalar.isFinite := by
  by_cases none : period = 0
  · rw [values, slots, if_pos none, if_pos none, List.filterMap_eq_nil_iff.mpr (by simp), List.takeWhile_nil]
  · rw [values, slots, if_neg none, if_neg none]

theorem settling_slots (closes : List α) (period : Nat) : Settling (slots closes period) := by
  by_cases none : period = 0
  · rw [slots, if_pos none]
    exact List.pairwise_map.mpr (List.pairwise_of_forall fun _ _ => nofun)
  · rw [slots, if_neg none]
    exact Smoothing.settling_outputs _ _

theorem column_eq_slots {closes : List α} {period : Nat} (finite : Finite closes period) :
    column closes period = slots closes period := by
  rw [column, values_eq, ← length_slots closes period, alignTail_takeWhile (settling_slots closes period) finite]

theorem take_slots (closes : List α) (period n : Nat) :
    (slots closes period).take n = slots (closes.take n) period :=
  take_of_mono (f := fun closes => slots closes period) (fun _ => length_slots ..) (fun h => slots_mono h period)
    closes n

/-- The head of a column is the column of the head. -/
theorem take_column {closes : List α} {period : Nat} (finite : Finite closes period) (n : Nat) :
    (column closes period).take n = slots (closes.take n) period := by
  rw [column_eq_slots finite, take_slots]

end Ema

/-! ### The oscillator -/

namespace Rsi
variable [Scalar α]

/-- The index of two averages that have a value. -/
def reading (up down : Option α) : Option α :=
  match up, down with
  | some u, some d => some (index u d)
  | _, _ => none

/-- The reading after each change, from the averages `up` and `down` on. -/
def readings (up down : Smoothing α) (changes : List α) : List (Option α) :=
  List.zipWith reading (up.outputs (changes.map rise)) (down.outputs (changes.map fall))

/-- The reading after each closing price; there is no change to read at the first. -/
def slots (closes : List α) (period : Nat) : List (Option α) :=
  match closes with
  | [] => []
  | first :: rest =>
    if period = 0 then (first :: rest).map fun _ => none
    else none :: readings (Smoothing.start .wilder period) (Smoothing.start .wilder period) (changes (first :: rest))

/-- The oscillator never leaves the finite numbers. -/
def Finite (closes : List α) (period : Nat) : Prop :=
  ∀ v, some v ∈ slots closes period → Scalar.isFinite v = true

theorem finite_of_all {closes : List α} {period : Nat}
    (h : (slots closes period).all (fun s => s.all Scalar.isFinite) = true) : Finite closes period :=
  fun v hv => List.all_eq_true.mp h (some v) hv

theorem length_changes (first : α) (rest : List α) : (changes (first :: rest)).length = rest.length := by
  induction rest generalizing first with
  | nil => rfl
  | cons second rest ih => rw [changes, List.length_cons, ih, List.length_cons]

theorem changes_mono {closes more : List α} (h : closes <+: more) : changes closes <+: changes more := by
  induction closes generalizing more with
  | nil => exact List.nil_prefix
  | cons first rest ih =>
    obtain ⟨new, rfl⟩ := h
    cases rest with
    | nil => exact List.nil_prefix
    | cons second rest => exact (List.prefix_cons_inj _).mpr (ih (List.prefix_append (second :: rest) new))

@[simp] theorem length_slots (closes : List α) (period : Nat) : (slots closes period).length = closes.length := by
  unfold slots
  split
  · rfl
  · split
    · simp
    · simp [readings, length_changes]

theorem readings_mono (up down : Smoothing α) {changes more : List α} (h : changes <+: more) :
    readings up down changes <+: readings up down more := by
  obtain ⟨ups, rises⟩ := up.outputs_mono (h.map rise)
  obtain ⟨downs, falls⟩ := down.outputs_mono (h.map fall)
  rw [readings, readings, ← rises, ← falls, List.zipWith_append (by simp)]
  exact List.prefix_append ..

theorem slots_mono {closes more : List α} (h : closes <+: more) (period : Nat) :
    slots closes period <+: slots more period := by
  cases closes with
  | nil => exact List.nil_prefix
  | cons first rest =>
    obtain ⟨new, rfl⟩ := h
    have grown : changes (first :: rest) <+: changes (first :: (rest ++ new)) :=
      changes_mono (List.prefix_append (first :: rest) new)
    rw [List.cons_append, slots, slots]
    split
    · exact (List.prefix_append (first :: rest) new).map _
    · exact (List.prefix_cons_inj _).mpr (readings_mono _ _ grown)

theorem isSome_reading (up down : Option α) : (reading up down).isSome = (up.isSome && down.isSome) := by
  cases up <;> cases down <;> rfl

theorem settling_readings (up down : Smoothing α) (changes : List α) : Settling (readings up down changes) := by
  have rises := List.pairwise_iff_getElem.mp (up.settling_outputs (changes.map rise))
  have falls := List.pairwise_iff_getElem.mp (down.settling_outputs (changes.map fall))
  refine List.pairwise_iff_getElem.mpr fun i j hi hj before => ?_
  simp only [readings, List.length_zipWith, Nat.lt_min] at hi hj
  simp only [readings, List.getElem_zipWith, isSome_reading, Bool.and_eq_true]
  exact fun filled => ⟨rises i j hi.1 hj.1 before filled.1, falls i j hi.2 hj.2 before filled.2⟩

/-- The indices are the readings up to the first that is not finite. -/
theorem indices_eq (up down : Smoothing α) (changes : List α) :
    indices up down changes = ((readings up down changes).filterMap id).takeWhile Scalar.isFinite := by
  induction changes generalizing up down with
  | nil => rfl
  | cons change rest ih =>
    have first : readings up down (change :: rest) =
        reading (up.push (rise change)).2 (down.push (fall change)).2 ::
          readings (up.push (rise change)).1 (down.push (fall change)).1 rest := rfl
    rw [first, indices]
    dsimp only
    rw [ih]
    cases (up.push (rise change)).2 with
    | none => rfl
    | some u =>
      cases (down.push (fall change)).2 with
      | none => rfl
      | some d => simp only [reading, List.filterMap_cons, id_eq, List.takeWhile_cons]

/-- The values are what the slots hold, up to the first that is not finite. -/
theorem values_eq (closes : List α) (period : Nat) :
    values closes period = ((slots closes period).filterMap id).takeWhile Scalar.isFinite := by
  by_cases none : period = 0
  · rw [values, if_pos none, List.filterMap_eq_nil_iff.mpr, List.takeWhile_nil]
    intro s hs
    cases closes with
    | nil => cases hs
    | cons first rest =>
      rw [slots, if_pos none] at hs
      obtain ⟨_, -, rfl⟩ := List.mem_map.mp hs
      rfl
  · cases closes with
    | nil => simp [values, none, changes, indices, slots]
    | cons first rest => rw [values, if_neg none, slots, if_neg none, List.filterMap_cons_none rfl, indices_eq]

theorem settling_slots (closes : List α) (period : Nat) : Settling (slots closes period) := by
  cases closes with
  | nil => exact .nil
  | cons first rest =>
    by_cases none : period = 0
    · rw [slots, if_pos none]
      exact List.pairwise_map.mpr (List.pairwise_of_forall fun _ _ => nofun)
    · rw [slots, if_neg none]
      exact List.pairwise_cons.mpr ⟨nofun, settling_readings _ _ _⟩

theorem column_eq_slots {closes : List α} {period : Nat} (finite : Finite closes period) :
    column closes period = slots closes period := by
  rw [column, values_eq, ← length_slots closes period, alignTail_takeWhile (settling_slots closes period) finite]

theorem take_slots (closes : List α) (period n : Nat) :
    (slots closes period).take n = slots (closes.take n) period :=
  take_of_mono (f := fun closes => slots closes period) (fun _ => length_slots ..) (fun h => slots_mono h period)
    closes n

/-- The head of a column is the column of the head. -/
theorem take_column {closes : List α} {period : Nat} (finite : Finite closes period) (n : Nat) :
    (column closes period).take n = slots (closes.take n) period := by
  rw [column_eq_slots finite, take_slots]

/-- The readings before the last closing price, whatever that is, unless a reading is lost or
won back with it. -/
theorem dropLast_column {closes closes' : List α} {period : Nat} (length : closes'.length = closes.length)
    (same : closes'.dropLast = closes.dropLast)
    (many : (values closes' period).length = (values closes period).length) :
    (column closes' period).dropLast = (column closes period).dropLast := by
  have lengths : (slots closes' period).length = (slots closes period).length := by
    rw [length_slots, length_slots, length]
  have earlier : (slots closes' period).dropLast = (slots closes period).dropLast := by
    rw [List.dropLast_eq_take, List.dropLast_eq_take, take_slots, take_slots, length_slots, length_slots,
      ← List.dropLast_eq_take, ← List.dropLast_eq_take, same]
  rw [column, column, length]
  refine dropLast_alignTail many ?_ _
  rw [values_eq, values_eq] at many ⊢
  exact dropLast_takeWhile_filterMap _ lengths earlier many

end Rsi
end TickerBoard

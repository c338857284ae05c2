import Mathlib.Algebra.Order.Field.Basic
import Mathlib.Tactic.FieldSimp
import Mathlib.Tactic.Linarith
import Mathlib.Tactic.Ring
import TickerBoard.Proofs.Indicator.Placement
import TickerBoard.Proofs.Scalar

/-! The relative strength index in exact arithmetic.

Three facts about the averages carry the laws. An average of inputs that are not
negative is not negative (`Smoothing.nonneg_outputs`), so the index of a rise and a
fall lies between 0 and 100. Averages take a factor of all their inputs over
(`Smoothing.outputs_scaled`), and the index hangs on the ratio alone, so neither the
unit of the prices nor where they are counted from matters. And prices that are
turned upside down rise where they fell: the two averages change places, and the
index becomes what it lacked to 100 (`Rsi.index_swap`). -/
namespace TickerBoard

namespace Smoothing

/-! ### Averages of rationals -/

/-- An average all of whose inputs came multiplied by a factor. -/
def scaled (a : Rat) (s : Smoothing Rat) : Smoothing Rat :=
  { s with total := a * s.total, value := s.value.map (a * ·) }

theorem blend_scaled (kind : Kind) (period : Nat) (a previous x : Rat) :
    blend kind period (a * previous) (a * x) = a * blend kind period previous x := by
  cases kind with
  | wilder =>
    show (a * previous * (_ - _) + a * x) / _ = a * ((previous * (_ - _) + x) / _)
    ring
  | exponential =>
    show a * x * _ + a * previous * (_ - _) = a * (x * _ + previous * (_ - _))
    ring

theorem push_scaled (a : Rat) (s : Smoothing Rat) (x : Rat) :
    (s.scaled a).push (a * x) = ((s.push x).1.scaled a, (s.push x).2.map (a * ·)) := by
  obtain ⟨kind, period, seen, total, value⟩ := s
  cases value with
  | some previous => simp [push, scaled, blend_scaled]
  | none =>
    have sum : a * total + a * x = a * (total + x) := (mul_add a total x).symm
    by_cases waiting : seen + 1 < period
    · simpa [push, scaled, waiting] using sum
    · have mean : (a * total + a * x) / Scalar.ofInt period = a * ((total + x) / Scalar.ofInt period) := by
        rw [sum, mul_div_assoc]
      simpa [push, scaled, waiting] using ⟨sum, mean⟩

/-- A factor of all inputs is one of all averages. -/
theorem outputs_scaled (a : Rat) (s : Smoothing Rat) (xs : List Rat) :
    (s.scaled a).outputs (xs.map (a * ·)) = (s.outputs xs).map (Option.map (a * ·)) := by
  induction xs generalizing s with
  | nil => rfl
  | cons x rest ih => rw [List.map_cons, outputs, push_scaled, ih, outputs, List.map_cons]

theorem start_scaled (a : Rat) (kind : Kind) (period : Nat) : (start kind period).scaled a = start kind period := by
  have zero : a * (Scalar.zero : Rat) = Scalar.zero := mul_zero a
  simp [scaled, start, zero]

/-- An average by Wilder's rule of inputs none of which was negative. -/
structure Nonneg (s : Smoothing Rat) : Prop where
  wilder : s.kind = .wilder
  positive : 0 < s.period
  total : 0 ≤ s.total
  value : ∀ v ∈ s.value, 0 ≤ v

theorem Nonneg.push {s : Smoothing Rat} (h : s.Nonneg) {x : Rat} (hx : 0 ≤ x) :
    (s.push x).1.Nonneg ∧ ∀ v ∈ (s.push x).2, 0 ≤ v := by
  obtain ⟨kind, period, seen, total, value⟩ := s
  obtain ⟨rfl, positive, sum, old⟩ := h
  have period_pos : (1 : Rat) ≤ period := Nat.one_le_cast.mpr positive
  cases value with
  | some previous =>
    have blended : 0 ≤ (previous * (period - 1) + x) / period :=
      div_nonneg (add_nonneg (mul_nonneg (old previous rfl) (sub_nonneg.mpr period_pos)) hx) (by linarith)
    exact ⟨⟨rfl, positive, sum, fun _ same => Option.some.inj same ▸ blended⟩, fun _ same => Option.some.inj same ▸ blended⟩
  | none =>
    have grown : 0 ≤ total + x := add_nonneg sum hx
    have mean : 0 ≤ (total + x) / period := div_nonneg grown (by linarith)
    by_cases waiting : seen + 1 < period
    · simp only [Smoothing.push, waiting, if_true]
      exact ⟨⟨rfl, positive, grown, fun _ h => by cases h⟩, fun _ h => by cases h⟩
    · simp only [Smoothing.push, waiting, if_false]
      exact ⟨⟨rfl, positive, grown, fun _ same => Option.some.inj same ▸ mean⟩, fun _ same => Option.some.inj same ▸ mean⟩

theorem nonneg_outputs {s : Smoothing Rat} (h : s.Nonneg) {xs : List Rat} (inputs : ∀ x ∈ xs, 0 ≤ x) :
    ∀ v, some v ∈ s.outputs xs → 0 ≤ v := by
  induction xs generalizing s with
  | nil => exact nofun
  | cons x rest ih =>
    obtain ⟨first, others⟩ := List.forall_mem_cons.mp inputs
    obtain ⟨next, answer⟩ := h.push first
    intro v listed
    rcases List.mem_cons.mp listed with same | later
    · exact answer v same.symm
    · exact ih next others v later

end Smoothing

namespace Rsi

/-! ### The index of two averages -/

theorem rise_rat (c : Rat) : rise c = max c 0 := by
  show (if 0 < c then c else 0) = _
  split
  · rename_i up
    exact (max_eq_left (le_of_lt up)).symm
  · rename_i down
    exact (max_eq_right (not_lt.mp down)).symm

theorem fall_rat (c : Rat) : fall c = max (-c) 0 := by
  show (if 0 < c then 0 else Scalar.abs c) = _
  rw [Scalar.rat_abs]
  split
  · rename_i up
    exact (max_eq_right (by linarith)).symm
  · rename_i down
    rw [abs_of_nonpos (not_lt.mp down), max_eq_left (by linarith)]

theorem index_rat (u d : Rat) :
    index u d = if d = 0 then if u = 0 then 50 else 100 else 100 - 100 / (1 + u / d) := by
  show (if (d == 0) = true then if (u == 0) = true then (50 : Rat) else 100 else 100 - 100 / (1 + u / d)) = _
  simp only [beq_iff_eq]

/-- The index is the share of the rise in both, in hundredths, and 50 if there is neither. -/
theorem index_share {u d : Rat} (hu : 0 ≤ u) (hd : 0 ≤ d) :
    index u d = if u + d = 0 then 50 else 100 * (u / (u + d)) := by
  rw [index_rat]
  by_cases flat : d = 0
  · subst flat
    by_cases still : u = 0
    · simp [still]
    · simp [still]
  · have down : 0 < d := lt_of_le_of_ne hd (Ne.symm flat)
    have moved : u + d ≠ 0 := by linarith
    rw [if_neg flat, if_neg moved]
    field_simp
    ring

theorem index_mem {u d : Rat} (hu : 0 ≤ u) (hd : 0 ≤ d) : 0 ≤ index u d ∧ index u d ≤ 100 := by
  rw [index_share hu hd]
  split
  · norm_num
  · rename_i moved
    have positive : 0 < u + d := lt_of_le_of_ne (add_nonneg hu hd) (Ne.symm moved)
    have share : u / (u + d) ≤ 1 := (div_le_one positive).mpr (by linarith)
    exact ⟨mul_nonneg (by norm_num) (div_nonneg hu positive.le), by linarith⟩

/-- Rise and fall in each other's place give what the index lacks to 100. -/
theorem index_swap {u d : Rat} (hu : 0 ≤ u) (hd : 0 ≤ d) : index d u = 100 - index u d := by
  rw [index_share hu hd, index_share hd hu, add_comm d u]
  split
  · norm_num
  · rename_i moved
    field_simp
    ring

/-- The unit of the prices does not matter. -/
theorem index_scaled {a u d : Rat} (ha : 0 < a) : index (a * u) (a * d) = index u d := by
  have ne : a ≠ 0 := ha.ne'
  rw [index_rat, index_rat, mul_div_mul_left u d ne]
  simp [ne]

/-! ### The readings -/

/-- The averages after each of some changes. -/
def averaged (period : Nat) (moves : List Rat) : List (Option Rat) := (Smoothing.start .wilder period).outputs moves

theorem readings_start (period : Nat) (changes : List Rat) :
    readings (.start .wilder period) (.start .wilder period) changes =
      List.zipWith reading (averaged period (changes.map rise)) (averaged period (changes.map fall)) := rfl

theorem nonneg_averaged {period : Nat} (positive : 0 < period) {moves : List Rat} (nonneg : ∀ m ∈ moves, 0 ≤ m) :
    ∀ v, some v ∈ averaged period moves → 0 ≤ v :=
  Smoothing.nonneg_outputs ⟨rfl, positive, le_refl (0 : Rat), fun _ none => by cases none⟩ nonneg

theorem nonneg_rises (changes : List Rat) : ∀ m ∈ changes.map rise, 0 ≤ m := by
  refine List.forall_mem_map.mpr fun c _ => ?_
  rw [rise_rat]
  exact le_max_right _ _

theorem nonneg_falls (changes : List Rat) : ∀ m ∈ changes.map fall, 0 ≤ m := by
  refine List.forall_mem_map.mpr fun c _ => ?_
  rw [fall_rat]
  exact le_max_right _ _

theorem averaged_scaled (a : Rat) (period : Nat) (moves : List Rat) :
    averaged period (moves.map (a * ·)) = (averaged period moves).map (Option.map (a * ·)) := by
  have same := Smoothing.outputs_scaled a (.start .wilder period) moves
  rwa [Smoothing.start_scaled] at same

/-- Averages in each other's place. -/
theorem zipWith_reading_swap {ups downs : List (Option Rat)} (hu : ∀ v, some v ∈ ups → 0 ≤ v)
    (hd : ∀ v, some v ∈ downs → 0 ≤ v) :
    List.zipWith reading downs ups = (List.zipWith reading ups downs).map (Option.map (100 - ·)) := by
  induction ups generalizing downs with
  | nil => simp
  | cons up ups ih =>
    cases downs with
    | nil => rfl
    | cons down downs =>
      have others := ih (fun v hv => hu v (List.mem_cons_of_mem _ hv)) fun v hv => hd v (List.mem_cons_of_mem _ hv)
      have swapped : reading down up = (reading up down).map (100 - ·) := by
        cases up with
        | none => cases down <;> rfl
        | some u =>
          cases down with
          | none => rfl
          | some d => exact congrArg some (index_swap (hu u (List.mem_cons_self ..)) (hd d (List.mem_cons_self ..)))
      rw [List.zipWith_cons_cons, swapped, others, List.zipWith_cons_cons, List.map_cons]

theorem zipWith_reading_scaled {a : Rat} (ha : 0 < a) (ups downs : List (Option Rat)) :
    List.zipWith reading (ups.map (Option.map (a * ·))) (downs.map (Option.map (a * ·))) =
      List.zipWith reading ups downs := by
  have same : ∀ up down, reading (Option.map (a * ·) up) (Option.map (a * ·) down) = reading up down := by
    intro up down
    cases up <;> cases down <;> simp [reading, index_scaled ha]
  rw [List.zipWith_map]
  exact congrArg (List.zipWith · ups downs) (funext₂ same)

theorem mem_readings {period : Nat} (positive : 0 < period) (changes : List Rat) :
    ∀ v, some v ∈ readings (.start .wilder period) (.start .wilder period) changes → 0 ≤ v ∧ v ≤ 100 := by
  intro v listed
  obtain ⟨i, there⟩ := List.mem_iff_getElem?.mp listed
  rw [readings_start, List.getElem?_zipWith_eq_some] at there
  obtain ⟨up, down, rises, falls, both⟩ := there
  cases up with
  | none => cases down <;> cases both
  | some u =>
    cases down with
    | none => cases both
    | some d =>
      obtain rfl := Option.some.inj both
      exact index_mem (nonneg_averaged positive (nonneg_rises changes) u (List.mem_of_getElem? rises))
        (nonneg_averaged positive (nonneg_falls changes) d (List.mem_of_getElem? falls))

/-! ### Changed prices -/

theorem changes_map {f : Rat → Rat} {a : Rat} (linear : ∀ x y, f y - f x = a * (y - x)) (closes : List Rat) :
    changes (closes.map f) = (changes closes).map (a * ·) := by
  induction closes with
  | nil => rfl
  | cons first rest ih =>
    cases rest with
    | nil => rfl
    | cons second rest => exact congrArg₂ List.cons (linear first second) ih

theorem rise_neg (c : Rat) : rise (-c) = fall c := by
  rw [rise_rat, fall_rat]

theorem fall_neg (c : Rat) : fall (-c) = rise c := by
  rw [rise_rat, fall_rat, neg_neg]

theorem rise_scaled {a : Rat} (ha : 0 < a) (c : Rat) : rise (a * c) = a * rise c := by
  rw [rise_rat, rise_rat, mul_max_of_nonneg _ _ ha.le, mul_zero]

theorem fall_scaled {a : Rat} (ha : 0 < a) (c : Rat) : fall (a * c) = a * fall c := by
  rw [← rise_neg, ← rise_neg, neg_mul_eq_mul_neg, rise_scaled ha]

/-- Prices turned upside down. -/
theorem slots_neg {period : Nat} (positive : 0 < period) (closes : List Rat) :
    slots (closes.map (-·)) period = (slots closes period).map (Option.map (100 - ·)) := by
  cases closes with
  | nil => rfl
  | cons first rest =>
    have turned : changes ((first :: rest).map (-·)) = (changes (first :: rest)).map (-1 * ·) :=
      changes_map (fun x y => by ring) _
    have falls : ((changes (first :: rest)).map (-1 * ·)).map rise = (changes (first :: rest)).map fall := by
      rw [List.map_map]
      exact List.map_congr_left fun c _ => by simp [rise_neg]
    have rises : ((changes (first :: rest)).map (-1 * ·)).map fall = (changes (first :: rest)).map rise := by
      rw [List.map_map]
      exact List.map_congr_left fun c _ => by simp [fall_neg]
    rw [List.map_cons] at turned ⊢
    rw [slots, slots, if_neg positive.ne', if_neg positive.ne', turned, readings_start, falls, rises,
      zipWith_reading_swap (nonneg_averaged positive (nonneg_rises _)) (nonneg_averaged positive (nonneg_falls _)),
      List.map_cons, readings_start]
    rfl

/-- Prices in another unit and counted from elsewhere. -/
theorem slots_affine {a : Rat} (ha : 0 < a) (b : Rat) (period : Nat) (closes : List Rat) :
    slots (closes.map fun c => a * c + b) period = slots closes period := by
  cases closes with
  | nil => rfl
  | cons first rest =>
    have scaled : changes ((first :: rest).map fun c => a * c + b) = (changes (first :: rest)).map (a * ·) :=
      changes_map (fun x y => by ring) _
    have rises : ((changes (first :: rest)).map (a * ·)).map rise = ((changes (first :: rest)).map rise).map (a * ·) := by
      rw [List.map_map, List.map_map]
      exact List.map_congr_left fun c _ => rise_scaled ha c
    have falls : ((changes (first :: rest)).map (a * ·)).map fall = ((changes (first :: rest)).map fall).map (a * ·) := by
      rw [List.map_map, List.map_map]
      exact List.map_congr_left fun c _ => fall_scaled ha c
    rw [List.map_cons] at scaled ⊢
    rw [slots, slots]
    split
    · simp [Function.comp_def]
    · rw [scaled, readings_start, rises, falls, averaged_scaled, averaged_scaled, zipWith_reading_scaled ha,
        readings_start]

/-! ### The values -/

/-- Every rational is finite. -/
theorem values_rat (closes : List Rat) (period : Nat) : values closes period = (slots closes period).filterMap id := by
  rw [values_eq]
  exact List.takeWhile_eq_self_iff.mpr fun _ _ => rfl

theorem mem_values_rat {closes : List Rat} {period : Nat} {v : Rat} : v ∈ values closes period ↔ some v ∈ slots closes period := by
  rw [values_rat, List.mem_filterMap]
  simp

/-- **Laws of the index.** In exact arithmetic there is a value for every closing price behind
the warm-up, each between 0 and 100; upside down, the prices give what each value lacks to
100; and neither the unit of the prices nor where they are counted from changes any value. -/
theorem values_lawful (closes : List Rat) {period : Nat} (positive : 0 < period) :
    (values closes period).length = closes.length - period ∧ (∀ v ∈ values closes period, 0 ≤ v ∧ v ≤ 100) ∧
      values (closes.map (-·)) period = (values closes period).map (100 - ·) ∧
      ∀ a b, 0 < a → values (closes.map fun c => a * c + b) period = values closes period := by
  refine ⟨?_, fun v hv => ?_, ?_, fun a b ha => ?_⟩
  · have finite : (indicator period positive).Finite closes := fun (_ : Rat) _ => rfl
    have all := (indicator period positive).sound_add_lost closes
    rw [(Indicator.finite_iff _ closes).mp finite, Nat.add_zero] at all
    exact ((indicator period positive).length_values closes).trans (congrArg (· - period) all)
  · have reading := mem_values_rat.mp hv
    cases closes with
    | nil => cases reading
    | cons first rest =>
      rw [slots, if_neg positive.ne'] at reading
      exact mem_readings positive _ v ((List.mem_cons.mp reading).resolve_left (Option.some_ne_none v))
  · rw [values_rat, slots_neg positive, List.filterMap_map, values_rat, List.map_filterMap]
    rfl
  · rw [values_rat, slots_affine ha, values_rat]

/-- A rise by two and a fall by one come to two thirds, and a rise by three behind them to eight ninths. -/
theorem values_lawful_risen : 0 < 2 ∧ (0 : Rat) < 3 ∧ values [10, 12, 11, 14] 2 = [(200 / 3 : Rat), 800 / 9] ∧
    (values [(10 : Rat), 12, 11, 14] 2).length = 4 - 2 ∧
    values ([(10 : Rat), 12, 11, 14].map (-·)) 2 = [200 / 3, 800 / 9].map (100 - ·) ∧
    values ([(10 : Rat), 12, 11, 14].map fun c => 3 * c + 7) 2 = [200 / 3, 800 / 9] := by
  have known : values [10, 12, 11, 14] 2 = [(200 / 3 : Rat), 800 / 9] := by decide +kernel
  obtain ⟨length, -, mirrored, moved⟩ := values_lawful [10, 12, 11, 14] (show 0 < 2 by decide)
  rw [known] at mirrored moved
  exact ⟨by decide, by norm_num, known, length, mirrored, moved 3 7 (by norm_num)⟩

end Rsi
end TickerBoard

import Mathlib.Algebra.Order.Ring.Unbundled.Rat
import Mathlib.Data.Prod.Lex
import Mathlib.Order.Bounds.Defs
import TickerBoard.Scalar

/-! How scalars compare.

Numbers compare as a total order does, and a NaN compares with nothing
(`Scalar.Ordered`). Doubles have such an order: each number has a place among all of
them, both zeros the same one, and comparing two numbers compares their places
(`Scalar.compare_rank`). So numbers equal themselves, nothing is less than itself, and
the greatest of several numbers is found in whatever way they are joined (`max_assoc`).
In the rationals, all of which are numbers, this is the order and the absolute value as
elsewhere. -/
namespace TickerBoard.Scalar

/-- Numbers compare as a total order does. -/
class Ordered (α : Type) [Scalar α] : Prop where
  asymm {a b : α} : a < b → ¬ b < a
  /-- A number lies above the less of any two or below the greater. -/
  between {a b c : α} : isNaN b = false → a < c → a < b ∨ b < c
  not_lt {a b : α} : isNaN a = false → isNaN b = false → (¬ a < b ↔ b ≤ a)
  zero : isNaN (zero : α) = false

section Ordered
variable {α : Type} [Scalar α] [Ordered α] {a b c : α}

theorem lt_irrefl (a : α) : ¬ a < a := fun h => Ordered.asymm h h

theorem lt_trans (number : isNaN c = false) (h : a < b) (h' : b < c) : a < c :=
  (Ordered.between number h).resolve_right (Ordered.asymm h')

theorem not_lt_trans (number : isNaN b = false) (h : ¬ a < b) (h' : ¬ b < c) : ¬ a < c :=
  fun less => (Ordered.between number less).elim h h'

theorem le_refl (number : isNaN a = false) : a ≤ a := (Ordered.not_lt number number).mp (lt_irrefl a)

theorem le_trans (ha : isNaN a = false) (hb : isNaN b = false) (hc : isNaN c = false) (h : a ≤ b) (h' : b ≤ c) :
    a ≤ c :=
  (Ordered.not_lt hc ha).mp
    (not_lt_trans hb ((Ordered.not_lt hc hb).mpr h') ((Ordered.not_lt hb ha).mpr h))

theorem le_of_lt (ha : isNaN a = false) (hb : isNaN b = false) (h : a < b) : a ≤ b :=
  (Ordered.not_lt hb ha).mp (Ordered.asymm h)

omit [Ordered α] in
theorem max_cases (a b : α) : max a b = a ∨ max a b = b := by
  unfold max
  split <;> [skip; split] <;> simp

omit [Ordered α] in
theorem min_cases (a b : α) : min a b = a ∨ min a b = b := by
  unfold min
  split <;> [skip; split] <;> simp

/-- The maximum of two numbers is a number that none of them exceeds. -/
theorem max_spec (ha : isNaN a = false) (hb : isNaN b = false) :
    isNaN (max a b) = false ∧ a ≤ max a b ∧ b ≤ max a b := by
  rw [max, ha, if_neg Bool.false_ne_true]
  split
  · rename_i less
    exact ⟨hb, le_of_lt ha hb less, le_refl hb⟩
  · rename_i most
    exact ⟨ha, le_refl ha, (Ordered.not_lt ha hb).mp most⟩

/-- The minimum of two numbers is a number that none of them is below. -/
theorem min_spec (ha : isNaN a = false) (hb : isNaN b = false) :
    isNaN (min a b) = false ∧ min a b ≤ a ∧ min a b ≤ b := by
  rw [min, ha, if_neg Bool.false_ne_true]
  split
  · rename_i less
    exact ⟨hb, le_of_lt hb ha less, le_refl hb⟩
  · rename_i least
    exact ⟨ha, le_refl ha, (Ordered.not_lt hb ha).mp least⟩

/-- The first of the greatest is found in whatever way the values are joined. -/
theorem max_assoc (hb : isNaN b = false) (hc : isNaN c = false) : max (max a b) c = max a (max b c) := by
  cases ha : isNaN a with
  | true => simp [max, ha]
  | false =>
    by_cases up : a < b
    · by_cases on : b < c
      · simp [max, ha, hb, up, on, lt_trans hc up on]
      · simp [max, ha, hb, up, on]
    · by_cases on : b < c
      · simp [max, ha, hb, up, on]
      · simp [max, ha, hb, up, on, not_lt_trans hb up on]

/-- The first of the least is found in whatever way the values are joined. -/
theorem min_assoc (hb : isNaN b = false) : min (min a b) c = min a (min b c) := by
  cases ha : isNaN a with
  | true => simp [min, ha]
  | false =>
    by_cases down : b < a
    · by_cases on : c < b
      · simp [min, ha, hb, down, on, lt_trans ha on down]
      · simp [min, ha, hb, down, on]
    · by_cases on : c < b
      · simp [min, ha, hb, down, on]
      · simp [min, ha, hb, down, on, not_lt_trans hb on down]

end Ordered

/-! ### Doubles -/

open Float.Model (UnpackedFloat)

/-- The place of a number among all numbers: by sign and size, then by the exponent and
then by the mantissa, which count the other way below zero. -/
def rank : UnpackedFloat → Int ×ₗ Int ×ₗ Int
  | .infinity .negative => toLex (-2, toLex (0, 0))
  | .finite .negative mantissa exponent _ => toLex (-1, toLex (-exponent, -mantissa))
  | .zero _ | .notANumber => toLex (0, toLex (0, 0))
  | .finite .positive mantissa exponent _ => toLex (1, toLex (exponent, mantissa))
  | .infinity .positive => toLex (2, toLex (0, 0))

theorem compare_rank {x y : UnpackedFloat} (hx : x.isNaN = false) (hy : y.isNaN = false) :
    x.compare y = some (compare (rank x) (rank y)) := by
  cases x with
  | notANumber => cases hx
  | infinity s | zero s =>
    cases y with
    | notANumber => cases hy
    | infinity t | zero t | finite t => cases s <;> cases t <;> rfl
  | finite s m e =>
    have turned (a b : Int) : compare (-a) (-b) = (compare a b).swap := by
      rw [← cmp_eq_compare, ← cmp_eq_compare, cmp_swap]
      exact StrictAnti.cmp_map_eq (f := fun n : Int => -n) (fun _ _ => Int.neg_lt_neg) a b
    have mantissas (m n : Nat) : compare (m : Int) n = compare m n := by
      rw [← cmp_eq_compare, ← cmp_eq_compare]
      exact StrictMono.cmp_map_eq (f := fun n : Nat => (n : Int)) (fun _ _ => Int.ofNat_lt.mpr) m n
    cases y with
    | notANumber => cases hy
    | infinity t | zero t => cases s <;> cases t <;> rfl
    | finite t n k =>
      cases s with
      | positive =>
        cases t with
        | positive =>
          show _ = some ((compare e k).then (compare (m : Int) n))
          rw [mantissas]
          rfl
        | negative => rfl
      | negative =>
        cases t with
        | positive => rfl
        | negative =>
          show _ = some ((compare (-e) (-k)).then (compare (-(m : Int)) (-(n : Int))))
          rw [turned, turned, mantissas, ← Ordering.swap_then]
          rfl

/-- What is NaN compares with nothing. -/
theorem numbers_of_compare {x y : UnpackedFloat} {o : Ordering} (h : x.compare y = some o) :
    x.isNaN = false ∧ y.isNaN = false := by
  cases x with
  | notANumber => cases h
  | infinity s | zero s | finite s =>
    cases y with
    | notANumber => cases s <;> cases h
    | infinity t | zero t | finite t => exact ⟨rfl, rfl⟩

/-- The place of a double. -/
def place (x : Float) : Int ×ₗ Int ×ₗ Int := rank x.toModel.unpack

theorem float_lt {a b : Float} : a < b ↔ a.isNaN = false ∧ b.isNaN = false ∧ place a < place b := by
  have less : a < b ↔ a.toModel.unpack.compare b.toModel.unpack = some .lt :=
    ⟨fun h => eq_of_beq (of_decide_eq_true h), fun h => decide_eq_true (beq_iff_eq.mpr h)⟩
  constructor
  · intro h
    obtain ⟨ha, hb⟩ := numbers_of_compare (less.mp h)
    exact ⟨ha, hb, compare_lt_iff_lt.mp (Option.some.inj ((compare_rank ha hb).symm.trans (less.mp h)))⟩
  · rintro ⟨ha, hb, below⟩
    rw [less, compare_rank ha hb]
    exact congrArg some (compare_lt_iff_lt.mpr below)

theorem float_le {a b : Float} (ha : a.isNaN = false) (hb : b.isNaN = false) : a ≤ b ↔ place a ≤ place b := by
  have upTo : a ≤ b ↔ (a.toModel.unpack.compare b.toModel.unpack).any (·.isLE) = true :=
    ⟨fun h => of_decide_eq_true h, fun h => decide_eq_true h⟩
  rw [upTo, compare_rank ha hb, Option.any_some, Ordering.isLE_iff_ne_gt]
  exact compare_le_iff_le

instance : Ordered Float where
  asymm h h' := lt_asymm (float_lt.mp h).2.2 (float_lt.mp h').2.2
  between {a b c} number h := by
    obtain ⟨ha, hc, below⟩ := float_lt.mp h
    rcases below.lt_or_gt (place b) with above | beneath
    · exact .inr (float_lt.mpr ⟨number, hc, above⟩)
    · exact .inl (float_lt.mpr ⟨ha, number, beneath⟩)
  not_lt ha hb := by
    rw [float_le hb ha, ← Std.not_lt, float_lt]
    exact not_congr ⟨fun h => h.2.2, fun h => ⟨ha, hb, h⟩⟩
  zero := by decide

theorem beq_self {x : Float} (h : x.isNaN = false) : (x == x) = true := by
  show (x.toModel.unpack.compare x.toModel.unpack == some .eq) = true
  rw [compare_rank h h]
  exact beq_iff_eq.mpr (congrArg some (compare_eq_iff_eq.mpr rfl))

/-! ### Rationals -/

theorem rat_abs (a : Rat) : Scalar.abs a = |a| := by
  show (if 0 ≤ a then a else -a) = _
  split
  · rename_i positive
    exact (abs_of_nonneg positive).symm
  · rename_i negative
    exact (abs_of_neg (not_le.mp negative)).symm

theorem rat_max (a b : Rat) : Scalar.max a b = Max.max a b := by
  show (if a < b then b else a) = _
  rw [max_def_lt]

theorem rat_min (a b : Rat) : Scalar.min a b = Min.min a b := by
  show (if b < a then b else a) = _
  rw [min_comm, min_def_lt]

/-- Every rational is a number. -/
theorem numbers (xs : List Rat) : xs.filter (fun x => !isNaN x) = xs := List.filter_eq_self.mpr fun _ _ => rfl

theorem isGreatest_highest {xs : List Rat} (some : xs ≠ []) : IsGreatest {x | x ∈ xs} (highest xs) := by
  cases xs with
  | nil => exact absurd rfl some
  | cons x rest =>
    have folded : highest (x :: rest) = rest.foldl Max.max x := by
      rw [highest, numbers, ← funext₂ rat_max]
    exact List.max?_eq_some_iff.mp (folded ▸ List.max?_cons')

theorem isLeast_lowest {xs : List Rat} (some : xs ≠ []) : IsLeast {x | x ∈ xs} (lowest xs) := by
  cases xs with
  | nil => exact absurd rfl some
  | cons x rest =>
    have folded : lowest (x :: rest) = rest.foldl Min.min x := by
      rw [lowest, numbers, ← funext₂ rat_min]
    exact List.min?_eq_some_iff.mp (folded ▸ List.min?_cons')

end TickerBoard.Scalar

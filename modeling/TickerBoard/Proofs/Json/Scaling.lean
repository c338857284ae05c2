import TickerBoard.Json.Number
import TickerBoard.Proofs.Json.Shortest

/-! Words scaled by powers of ten.

A word that is scaled down stays finite, as each step divides by one or more. One
that is scaled up has a double as long as it is not above `cap`: then neither the
rounding of the word nor that of the power leads beyond the largest double. -/
namespace TickerBoard.Json
open Float.Model Float.Model.UnpackedFloat Double

/-! ### Powers of ten -/

/-- The largest double. -/
def largest : Nat := (2 ^ 53 - 1) * 2 ^ 971

theorem canonical_largest : Canonical (2 ^ 53 - 1) 971 := ⟨by decide, by decide, by decide, .inl (by decide)⟩

theorem largest_eq : (largest : Rat) = (2 ^ 53 - 1 : Nat) * 2 ^ (971 : Int) := by
  rw [largest, Nat.cast_mul, Nat.cast_pow, Nat.cast_two]
  rfl

/-- The words that can be scaled up by ten to `n`. -/
def cap (n : Nat) : Nat := if n ≤ 291 then 2 ^ 57 else if n = 292 then 17976931348623156 else 17976931348623157 / 10 ^ (n - 292)

/-- The double is between two whole numbers. -/
def spans (low high : Nat) : UnpackedFloat → Bool
  | .finite _ m e _ =>
    -1074 ≤ e && low * 2 ^ 1074 ≤ m * 2 ^ (e + 1074).toNat && m * 2 ^ (e + 1074).toNat ≤ high * 2 ^ 1074
  | _ => false

theorem spans_spec {low high : Nat} {u : UnpackedFloat} (h : spans low high u = true) (positive : 1 ≤ low) :
    AtLeastOne u ∧ AtMost high u := by
  cases u with
  | infinity | notANumber | zero => cases h
  | finite s m e pos =>
    simp only [spans, Bool.and_eq_true, decide_eq_true_eq] at h
    obtain ⟨⟨least, below⟩, above⟩ := h
    have unit : (0 : Rat) < 2 ^ (1074 : Nat) := by positivity
    have value : ((m * 2 ^ (e + 1074).toNat : Nat) : Rat) = m * 2 ^ e * 2 ^ (1074 : Nat) := by
      rw [← zpow_natCast, mul_assoc, ← zpow_add₀ two_ne_zero, Nat.cast_mul, Nat.cast_pow, Nat.cast_two, ← zpow_natCast,
        show ((e + 1074).toNat : Int) = e + (1074 : Nat) by omega]
    have scaled (k : Nat) : ((k * 2 ^ 1074 : Nat) : Rat) = k * 2 ^ (1074 : Nat) := by
      rw [Nat.cast_mul, Nat.cast_pow, Nat.cast_two]
    constructor
    · have low_le : (low : Rat) ≤ m * 2 ^ e := by
        refine le_of_mul_le_mul_right ?_ unit
        rw [← value, ← scaled]
        exact Nat.cast_le.mpr below
      exact le_trans (Nat.one_le_cast.mpr positive) low_le
    · show (m : Rat) * 2 ^ e ≤ high
      refine le_of_mul_le_mul_right ?_ unit
      rw [← value, ← scaled]
      exact Nat.cast_le.mpr above

/-- The least powers, which a table has, and the greatest, whose words are bounded closely. -/
theorem spans_ends : ∀ n ∈ List.range 23 ++ (List.range 17).map (· + 292),
    spans 1 (largest / cap n) (powerOfTen n).toModel.unpack = true := by
  decide +kernel

theorem powerOfTen_eq {n : Nat} (h : 22 < n) : (powerOfTen n).toModel = Float.Model.ofScientific 1 n := by
  rw [powerOfTen, Float.ofScientific, dif_neg (by omega)]
  rfl

theorem ofScientific_eq {n : Nat} (h : n ≤ 291) : Float.Model.ofScientific 1 n =
    .pack (roundWithAccuracy Format.binary64 .positive (2 ^ 53 * 10 ^ n) (-53) .exact) := by
  rw [Float.Model.ofScientific, UnpackedFloat.ofScientific, dif_neg (by decide), if_neg, if_neg, if_pos (Int.natCast_nonneg n)]
  · rfl
  · show ¬ (n : Int) < -(2 ^ 11 + ((Nat.log2 1 : Nat) : Int))
    omega
  · show ¬ (n : Int) > 2 ^ 11
    omega

theorem ofScientific_spec {n : Nat} (h : n ≤ 291) :
    AtLeastOne (Float.Model.ofScientific 1 n).unpack ∧
      AtMost (largest / cap n : Nat) (Float.Model.ofScientific 1 n).unpack := by
  have long : 53 ≤ (2 ^ 53 * 10 ^ n).log2 :=
    (Nat.le_log2 (by positivity)).mpr (Nat.le_mul_of_pos_right _ (Nat.pow_pos (by decide)))
  have placed : -53 ≤ target (2 ^ 53 * 10 ^ n) (-53) := by
    rw [target]
    omega
  have double : Canonical (2 ^ 53 - 1) 914 := ⟨by decide, by decide, by decide, .inl (by decide)⟩
  have quotient : largest / cap n = (2 ^ 53 - 1) * 2 ^ 914 := by
    rw [cap, if_pos h]
    decide +kernel
  have same : ((largest / cap n : Nat) : Rat) = (2 ^ 53 - 1 : Nat) * 2 ^ (914 : Int) := by
    rw [quotient, Nat.cast_mul, Nat.cast_pow, Nat.cast_two]
    rfl
  have value : ((2 ^ 53 * 10 ^ n : Nat) : Rat) * 2 ^ (-53 : Int) ≤ (2 ^ 53 - 1 : Nat) * 2 ^ (914 : Int) := by
    have power : (10 : Nat) ^ n ≤ largest / cap n := by
      rw [quotient]
      exact (Nat.pow_le_pow_right (by decide) h).trans (by decide +kernel)
    have exact : ((2 ^ 53 * 10 ^ n : Nat) : Rat) * 2 ^ (-53 : Int) = (10 ^ n : Nat) := by
      rw [Nat.mul_comm, natCast_mul_zpow]
      simp
    rw [exact, ← same]
    exact Nat.cast_le.mpr power
  rw [ofScientific_eq h, same]
  constructor
  · refine atLeastOne_round _ _ placed (by omega) ?_
    have := target_le placed double value
    omega
  · refine atMost_round _ placed le_rfl (fun none => ?_) double value
    rw [exact_keeps] at none
    cases none

theorem powerOfTen_spec {n : Nat} (h : n ≤ 308) :
    AtLeastOne (powerOfTen n).toModel.unpack ∧ AtMost (largest / cap n : Nat) (powerOfTen n).toModel.unpack := by
  by_cases ends : n ≤ 22 ∨ 292 ≤ n
  · refine spans_spec (spans_ends n ?_) (Nat.le_refl 1)
    rcases ends with low | high
    · exact List.mem_append_left _ (List.mem_range.mpr (by omega))
    · exact List.mem_append_right _ (List.mem_map.mpr ⟨n - 292, List.mem_range.mpr (by omega), by omega⟩)
  · rw [powerOfTen_eq (by omega)]
    exact ofScientific_spec (by omega)

/-! ### Scaling -/

theorem isFinite_down {f : Float} (finite : f.isFinite = true) {n : Nat} (h : n ≤ 308) :
    (f / powerOfTen n).isFinite = true :=
  isFinite_div finite (powerOfTen_spec h).1

theorem isFinite_scaleDown {f : Float} (finite : f.isFinite = true) (n : Nat) : (scaleDown f n).isFinite = true := by
  induction n using Nat.strongRecOn generalizing f with
  | ind n ih =>
    rw [scaleDown]
    split
    · rename_i near
      exact isFinite_down finite near
    · split
      · exact finite
      · have step : (1e308 : Float) = powerOfTen 308 := rfl
        rw [step]
        exact ih (n - 308) (by omega) (isFinite_down finite (Nat.le_refl 308))

/-- The double of a word that is not above a double. -/
theorem atMost_toFloat {w : Nat} (small : w < Word.size 64) {n : Nat} {f : Int} (double : Canonical n f)
    (bound : (w : Rat) ≤ n * 2 ^ f) : AtMost (n * (2 : Rat) ^ f) w.toUInt64.toFloat.toModel.unpack := by
  have same : w.toUInt64.toFloat.toModel = Float.Model.ofNat w.toUInt64.toNat := rfl
  have kept : w.toUInt64.toNat = w := Nat.mod_eq_of_lt small
  rw [same, kept]
  exact atMost_ofNat double bound

/-- A word below two to 53 is a double. -/
theorem atMost_self {w : Nat} (small : w < 2 ^ 53) : AtMost w w.toUInt64.toFloat.toModel.unpack := by
  rcases Nat.eq_zero_or_pos w with rfl | pos
  · exact trivial
  · have some := Nat.ne_of_gt pos
    have log := (Nat.log2_lt some).mpr small
    have value : (w : Rat) = (w * 2 ^ (52 - w.log2) : Nat) * 2 ^ (-((52 - w.log2 : Nat) : Int)) := by
      rw [natCast_mul_zpow, neg_add_cancel, zpow_zero, mul_one]
    have full : 2 ^ 52 ≤ w * 2 ^ (52 - w.log2) :=
      calc 2 ^ 52 = 2 ^ w.log2 * 2 ^ (52 - w.log2) := by rw [← Nat.pow_add, Nat.add_sub_of_le (by omega)]
        _ ≤ w * 2 ^ (52 - w.log2) := Nat.mul_le_mul_right _ (Nat.log2_self_le some)
    have fits : w * 2 ^ (52 - w.log2) < 2 ^ 53 :=
      calc w * 2 ^ (52 - w.log2) < 2 ^ (w.log2 + 1) * 2 ^ (52 - w.log2) :=
            Nat.mul_lt_mul_of_pos_right Nat.lt_log2_self (Nat.two_pow_pos _)
        _ = 2 ^ 53 := by rw [← Nat.pow_add]; congr 1; omega
    rw [value]
    exact atMost_toFloat (small.trans (by decide)) ⟨fits, by omega, by omega, .inl full⟩ value.le

theorem atMost_cap {w n : Nat} (h : w ≤ cap n) : AtMost (cap n) w.toUInt64.toFloat.toModel.unpack := by
  have bound : (w : Rat) ≤ cap n := Nat.cast_le.mpr h
  rw [cap] at h bound ⊢
  split_ifs at h bound ⊢ with low top
  · have value : ((2 ^ 57 : Nat) : Rat) = (2 ^ 52 : Nat) * 2 ^ (5 : Int) := by norm_num
    rw [value] at bound ⊢
    exact atMost_toFloat (h.trans_lt (by decide)) ⟨by decide, by decide, by decide, .inl (by decide)⟩ bound
  · have value : ((17976931348623156 : Nat) : Rat) = (8988465674311578 : Nat) * 2 ^ (1 : Int) := by norm_num
    rw [value] at bound ⊢
    exact atMost_toFloat (h.trans_lt (by decide)) ⟨by decide, by decide, by decide, .inl (by decide)⟩ bound
  · refine (atMost_self (h.trans_lt ?_)).mono bound
    calc 17976931348623157 / 10 ^ (n - 292) ≤ 17976931348623157 / 10 ^ 1 :=
          Nat.div_le_div_left (Nat.pow_le_pow_right (by decide) (by omega)) (by decide)
      _ < 2 ^ 53 := by decide

theorem isFinite_up {w n : Nat} (h : w ≤ cap n) (high : n ≤ 308) :
    (w.toUInt64.toFloat * powerOfTen n).isFinite = true := by
  refine (atMost_mul (atMost_cap h) (powerOfTen_spec high).2 canonical_largest ?_).isFinite
  rw [← largest_eq, ← Nat.cast_mul]
  exact Nat.cast_le.mpr (Nat.mul_div_le ..)

/-- Only the digits of the largest double itself are rounded down as a word. -/
theorem le_cap {w n : Nat} (digits : w ≤ 10 ^ 17) (fits : w * 10 ^ n ≤ greatest) :
    w ≤ cap n ∨ w = 17976931348623157 ∧ n = 292 := by
  by_cases low : n ≤ 291
  · rw [cap, if_pos low]
    exact .inl (digits.trans (by decide))
  · obtain ⟨k, rfl⟩ : ∃ k, n = k + 292 := ⟨n - 292, by omega⟩
    have within : w * 10 ^ k ≤ 17976931348623157 := by
      rw [pow_add, ← mul_assoc] at fits
      exact le_of_mul_le_mul_right fits (by positivity)
    rw [cap, if_neg low, Nat.add_sub_cancel]
    split
    · obtain rfl : k = 0 := by omega
      omega
    · exact .inl ((Nat.le_div_iff_mul_le (Nat.pow_pos (by decide))).mpr within)

theorem eq_zero_of_fits {w n : Nat} (fits : w * 10 ^ n ≤ greatest) (far : 308 < n) : w = 0 := by
  by_contra some
  have power : (10 : Nat) ^ 309 ≤ 10 ^ n := pow_le_pow_right₀ (by decide) far
  have limit : greatest < 10 ^ 309 := by decide +kernel
  exact absurd (power.trans (Nat.le_mul_of_pos_left _ (Nat.pos_of_ne_zero some))) (Nat.not_le.mpr (fits.trans_lt limit))

theorem isFinite_scaledUp {w n : Nat} (digits : w ≤ 10 ^ 17) (fits : w * 10 ^ n ≤ greatest)
    (near : n ≤ 308) : (w.toUInt64.toFloat * powerOfTen n).isFinite = true := by
  rcases le_cap digits fits with within | ⟨rfl, rfl⟩
  · exact isFinite_up within near
  · decide +kernel

theorem isInf_of_isFinite {x : Float} (finite : x.isFinite = true) : x.isInf = false := by
  have finite : x.toModel.unpack.isFinite = true := finite
  show x.toModel.unpack.isInf = false
  cases unpacked : x.toModel.unpack with
  | infinity | notANumber =>
    rw [unpacked] at finite
    cases finite
  | zero | finite => rfl

/-- A word of seventeen digits has a double, scaled by a power of ten, if it is not scaled above
the decimal of the largest double. -/
theorem scaled?_spec {w : Nat} {e : Int} (digits : w ≤ 10 ^ 17)
    (fits : 0 ≤ e → w * 10 ^ e.toNat ≤ greatest) :
    ∃ y, scaled? w e = some y ∧ y.isFinite = true := by
  rw [scaled?]
  by_cases down : e < 0
  · have finite := (atMost_cap (w := w) (n := 0) (digits.trans (by decide))).isFinite
    exact ⟨_, if_pos down, isFinite_scaleDown finite _⟩
  · obtain ⟨n, rfl⟩ := Int.eq_ofNat_of_zero_le (Int.not_lt.mp down)
    have fits := fits (Int.natCast_nonneg n)
    rw [Int.toNat_natCast] at fits
    dsimp only
    rw [if_neg down, Int.toNat_natCast]
    by_cases near : n ≤ 308
    · have finite := isFinite_scaledUp digits fits near
      rw [if_pos (by omega), isInf_of_isFinite finite]
      exact ⟨_, rfl, finite⟩
    · obtain rfl := eq_zero_of_fits fits (by omega)
      have zero : ((0 : Nat).toUInt64.toFloat == 0) = true := by decide +kernel
      rw [if_neg (by omega), if_pos zero]
      exact ⟨_, rfl, by decide +kernel⟩

end TickerBoard.Json

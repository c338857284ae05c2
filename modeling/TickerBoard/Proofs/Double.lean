import Mathlib

/-! Bounds of rounded doubles.

Rounding goes to a nearest double, so what is not above a double is not above
it once it is rounded (`atMost_round`): between two doubles of one scale nothing
is rounded past either. So conversions, products and quotients stay finite as
long as their exact values are not above the largest double. -/
namespace TickerBoard.Double
open Float.Model Float.Model.UnpackedFloat

/-! ### Packing -/

/-- A mantissa and an exponent as a finite double has them. -/
structure Canonical (m : Nat) (e : Int) : Prop where
  small : m < 2 ^ 53
  low : -1074 ≤ e
  high : e ≤ 971
  full : 2 ^ 52 ≤ m ∨ e = -1074

/-- The implicit bit stands above the others. -/
theorem toNat_implicit (v : BitVec 52) : (1#1 ++ v).toNat = 2 ^ 52 + v.toNat := by
  rw [BitVec.toNat_append, ← Nat.shiftLeft_add_eq_or_of_lt v.isLt]
  rfl

theorem canonical_of_unpack {x : Float.Model} {s : Sign} {m : Nat} {e : Int} {pos : 0 < m}
    (h : x.unpack = .finite s m e pos) : Canonical m e := by
  have bias : (Format.binary64.exponentBias : Int) = 1023 := by decide
  have v_lt : (@unpackMantissa Format.binary64 x.toBits.toBitVec).toNat < 2 ^ 52 := BitVec.isLt _
  have p_lt : (@unpackExponent Format.binary64 x.toBits.toBitVec).toNat < 2 ^ 11 := BitVec.isLt _
  rw [Float.Model.unpack, UnpackedFloat.unpack] at h
  dsimp only at h
  split at h
  · split at h <;> cases h
  · rename_i not_last
    split at h
    · rename_i zero
      split at h
      · cases h
      · obtain ⟨-, rfl, rfl, -⟩ := UnpackedFloat.finite.inj h
        have none : (@unpackExponent Format.binary64 x.toBits.toBitVec).toNat = 0 := by rw [zero]; rfl
        exact ⟨by omega, by omega, by omega, .inr (by omega)⟩
    · rename_i nonzero
      obtain ⟨-, rfl, rfl, -⟩ := UnpackedFloat.finite.inj h
      have some : (@unpackExponent Format.binary64 x.toBits.toBitVec).toNat ≠ 0 := fun none =>
        nonzero (BitVec.eq_of_toNat_eq none)
      have below : (@unpackExponent Format.binary64 x.toBits.toBitVec).toNat ≠ 2 ^ 11 - 1 := fun last =>
        not_last (BitVec.eq_of_toNat_eq last)
      have mantissa := toNat_implicit (@unpackMantissa Format.binary64 x.toBits.toBitVec)
      exact ⟨by omega, by omega, by omega, .inl (by omega)⟩

/-- The greatest exponent is that of the infinities and of what is no number. -/
theorem toBits_lt {x : Float.Model} (finite : x.unpack.isFinite = true) : x.toBits.toNat % 2 ^ 63 < 2047 * 2 ^ 52 := by
  have exponent : (@unpackExponent Format.binary64 x.toBits.toBitVec).toNat = x.toBits.toNat / 2 ^ 52 % 2 ^ 11 := by
    rw [← UInt64.toNat_toBitVec, ← Nat.shiftRight_eq_div_pow]
    rfl
  have not_last : (@unpackExponent Format.binary64 x.toBits.toBitVec).toNat ≠ 2 ^ 11 - 1 := fun last => by
    rw [Float.Model.unpack, UnpackedFloat.unpack] at finite
    dsimp only at finite
    rw [if_pos (BitVec.eq_of_toNat_eq last)] at finite
    split at finite <;> cases finite
  omega
theorem unpack_pack_eq (u : UnpackedFloat) :
    (Float.Model.pack u).unpack = UnpackedFloat.unpack Format.binary64 (UnpackedFloat.pack Format.binary64 u) := by
  rw [Float.Model.unpack, Float.Model.pack]

theorem finite_congr {s : Sign} {m m' : Nat} {e e' : Int} {pos : 0 < m} {pos' : 0 < m'} (mantissa : m = m')
    (exponent : e = e') : UnpackedFloat.finite s m e pos = .finite s m' e' pos' := by
  subst mantissa exponent
  rfl

/-- Packing a canonical double loses nothing. -/
theorem unpack_pack {s : Sign} {m : Nat} {e : Int} (h : Canonical m e) (pos : 0 < m) :
    (Float.Model.pack (.finite s m e pos)).unpack = .finite s m e pos := by
  obtain ⟨small, low, high, full⟩ := h
  have bias : (Format.binary64.exponentBias : Int) = 1023 := by decide
  have width : Format.binary64.mantissaBits = 53 := rfl
  rw [unpack_pack_eq, UnpackedFloat.pack]
  dsimp only
  rw [bias, width, if_neg (by omega)]
  by_cases normal : 2 ^ 52 ≤ m
  · have log : m.log2 + 1 = 53 := by rw [(Nat.log2_eq_iff (by omega)).mpr ⟨normal, small⟩]
    have power : (BitVec.ofNat 11 (e + 1023 + ((52 : Nat) : Int)).toNat).toNat = (e + 1075).toNat := by
      rw [BitVec.toNat_ofNat]
      omega
    have fraction : (1#1 ++ BitVec.ofNat 52 m).toNat = m := by
      rw [toNat_implicit, BitVec.toNat_ofNat]
      omega
    have not_zero : BitVec.ofNat 11 (e + 1023 + ((52 : Nat) : Int)).toNat ≠ 0#11 := fun zero => by
      rw [zero] at power
      have : (0#11).toNat = 0 := rfl
      omega
    have not_last : BitVec.ofNat 11 (e + 1023 + ((52 : Nat) : Int)).toNat ≠ -1#11 := fun last => by
      rw [last] at power
      have : (-1#11).toNat = 2047 := rfl
      omega
    rw [if_pos log]
    simp only [UnpackedFloat.unpack, unpackMantissa_packComponents, unpackExponent_packComponents,
      unpackSign_packComponents, Sign.ofBitVec_toBitVec, if_neg not_last, if_neg not_zero]
    exact finite_congr fraction (by rw [power, bias]; omega)
  · have log : m.log2 + 1 ≠ 53 := by
      have := (Nat.log2_lt (Nat.ne_of_gt pos)).mpr (Nat.lt_of_not_le normal)
      omega
    have fraction : (BitVec.ofNat 52 m).toNat = m := by
      rw [BitVec.toNat_ofNat]
      omega
    have not_zero : BitVec.ofNat 52 m ≠ 0#52 := fun zero => by
      rw [zero] at fraction
      exact absurd fraction (Nat.ne_of_lt pos)
    have not_last : (0#11) ≠ -1#11 := by decide
    rw [if_neg log]
    simp only [UnpackedFloat.unpack, unpackMantissa_packComponents, unpackExponent_packComponents,
      unpackSign_packComponents, Sign.ofBitVec_toBitVec, if_neg not_last, if_true, dif_neg not_zero]
    exact finite_congr fraction (by rw [bias, full.resolve_left normal]; rfl)

/-! ### Rounding -/

/-- The double is no infinity and no NaN, and its absolute value is at most `bound`. -/
def AtMost (bound : Rat) : UnpackedFloat → Prop
  | .zero _ => True
  | .finite _ m e _ => m * (2 : Rat) ^ e ≤ bound
  | _ => False

theorem AtMost.cases {bound : Rat} {u : UnpackedFloat} (h : AtMost bound u) :
    (∃ s, u = .zero s) ∨ ∃ s m e pos, u = .finite s m e pos ∧ m * (2 : Rat) ^ e ≤ bound := by
  cases u with
  | infinity | notANumber => exact h.elim
  | zero s => exact .inl ⟨s, rfl⟩
  | finite s m e pos => exact .inr ⟨s, m, e, pos, rfl, h⟩

theorem AtMost.mono {bound more : Rat} {u : UnpackedFloat} (h : AtMost bound u) (le : bound ≤ more) : AtMost more u := by
  cases u with
  | infinity | notANumber => exact h.elim
  | zero => exact trivial
  | finite => exact le_trans h le

theorem AtMost.isFinite {bound : Rat} {u : UnpackedFloat} (h : AtMost bound u) : u.isFinite = true := by
  cases u with
  | infinity | notANumber => exact h.elim
  | zero | finite => rfl

/-- A finite double whose absolute value is at least one. -/
def AtLeastOne : UnpackedFloat → Prop
  | .finite _ m e _ => 1 ≤ m * (2 : Rat) ^ e
  | _ => False

theorem AtLeastOne.exists {u : UnpackedFloat} (h : AtLeastOne u) :
    ∃ s m e pos, u = .finite s m e pos ∧ 1 ≤ m * (2 : Rat) ^ e := by
  cases u with
  | infinity | notANumber | zero => exact h.elim
  | finite s m e pos => exact ⟨s, m, e, pos, rfl, h⟩

theorem targetExponent_eq (m : Nat) (e : Int) :
    Format.binary64.targetExponent (totalExponent m e) = max ((m.log2 : Int) + e - 52) (-1074) := by
  have width : Format.binary64.mantissaBits = 53 := rfl
  have least : Format.binary64.minExponent = -1074 := by decide
  rw [Format.targetExponent, totalExponent, width, least]
  omega

/-- The bits that are shifted out. -/
def lost (em : ExtendedMantissa) : Bool := em.roundBit || em.stickyBit

theorem shiftRight_succ (em : ExtendedMantissa) (k : Nat) : em >>> (k + 1) = (em >>> k).shiftRightOne := rfl

theorem shiftRight_mantissa (em : ExtendedMantissa) (k : Nat) : (em >>> k).mantissa = em.mantissa / 2 ^ k := by
  induction k with
  | zero => exact (Nat.div_one _).symm
  | succ k ih =>
    rw [shiftRight_succ, ExtendedMantissa.shiftRightOne, ih, Nat.div_div_eq_div_mul, Nat.pow_succ]

/-- What is shifted out was in the mantissa, unless it was shifted out before. -/
theorem lost_shiftRight {em : ExtendedMantissa} {k : Nat} (h : lost (em >>> k) = true) :
    lost em = true ∨ em.mantissa / 2 ^ k * 2 ^ k < em.mantissa := by
  induction k with
  | zero => exact .inl h
  | succ k ih =>
    rw [shiftRight_succ, lost, ExtendedMantissa.shiftRightOne, Bool.or_eq_true, bne_iff_ne, shiftRight_mantissa] at h
    have halves : em.mantissa / 2 ^ (k + 1) * 2 ^ (k + 1) = em.mantissa / 2 ^ k / 2 * 2 * 2 ^ k := by
      rw [Nat.pow_succ, ← Nat.div_div_eq_div_mul]
      ring
    have down : em.mantissa / 2 ^ k / 2 * 2 * 2 ^ k ≤ em.mantissa / 2 ^ k * 2 ^ k :=
      Nat.mul_le_mul_right _ (Nat.div_mul_le_self ..)
    rw [halves]
    rcases h with odd | before
    · refine .inr (Nat.lt_of_lt_of_le ?_ (Nat.div_mul_le_self em.mantissa (2 ^ k)))
      exact Nat.mul_lt_mul_of_pos_right (by omega) (Nat.two_pow_pos k)
    · exact (ih before).imp_right fun left => Nat.lt_of_le_of_lt down left

/-- Rounding goes up by one at most, and only if something was lost. -/
theorem rounded_le {em : ExtendedMantissa} {n : Nat} (low : em.mantissa ≤ n) (up : lost em = true → em.mantissa < n) :
    em.roundedMantissa ≤ n := by
  obtain ⟨m, half, rest⟩ := em
  cases half <;> cases rest <;>
    simp only [ExtendedMantissa.roundedMantissa, ExtendedMantissa.accuracy, Accuracy.roundToNearestEven, lost,
      Bool.or_true, forall_const, Bool.or_false] at * <;> omega

theorem le_rounded (em : ExtendedMantissa) : em.mantissa ≤ em.roundedMantissa := by
  obtain ⟨m, half, rest⟩ := em
  cases half <;> cases rest <;>
    simp [ExtendedMantissa.roundedMantissa, ExtendedMantissa.accuracy, Accuracy.roundToNearestEven]

/-- The exponent that a rounded double has, unless rounding up carries into a new bit. -/
def target (m : Nat) (e : Int) : Int := max ((m.log2 : Int) + e - 52) (-1074)

theorem le_target (m : Nat) (e : Int) : -1074 ≤ target m e := le_max_right ..

/-- The mantissa and its lost bits at the exponent it is rounded to. -/
def shifted (m : Nat) (e : Int) (a : Accuracy) : ExtendedMantissa :=
  ExtendedMantissa.ofMantissaAndAccuracy m a >>> (target m e - e).toNat

theorem mantissa_of (m : Nat) (a : Accuracy) : (ExtendedMantissa.ofMantissaAndAccuracy m a).mantissa = m := by
  cases a with
  | exact => rfl
  | inexact o => cases o <;> rfl

theorem shifted_mantissa (m : Nat) (e : Int) (a : Accuracy) :
    (shifted m e a).mantissa = m / 2 ^ (target m e - e).toNat := by
  rw [shifted, shiftRight_mantissa, mantissa_of]

theorem shifted_lt (m : Nat) (e : Int) (a : Accuracy) : (shifted m e a).mantissa < 2 ^ 53 := by
  rw [shifted_mantissa, Nat.div_lt_iff_lt_mul (Nat.two_pow_pos _), ← Nat.pow_add]
  refine Nat.lt_of_lt_of_le Nat.lt_log2_self (Nat.pow_le_pow_right (by decide) ?_)
  rw [target]
  omega

theorem rounded_le_two_pow (m : Nat) (e : Int) (a : Accuracy) : (shifted m e a).roundedMantissa ≤ 2 ^ 53 :=
  rounded_le (Nat.le_of_lt (shifted_lt m e a)) fun _ => shifted_lt m e a

theorem shiftToTargetExponent_eq (m : Nat) (e : Int) (a : Accuracy) :
    shiftToTargetExponent Format.binary64 m e a = (shifted m e a, e + (target m e - e).toNat) := by
  rw [shiftToTargetExponent, targetExponent_eq]
  rfl

theorem roundWithAccuracy_eq (s : Sign) {m : Nat} {e : Int} (a : Accuracy) (placed : e ≤ target m e) :
    roundWithAccuracy Format.binary64 s m e a =
      if h : (shifted m e a).roundedMantissa = 0 then .zero s
      else if (shifted m e a).roundedMantissa < 2 ^ 53 then
        .finite s (shifted m e a).roundedMantissa (target m e) (Nat.pos_of_ne_zero h)
      else .finite s (2 ^ 52) (target m e + 1) (by decide) := by
  have at_target : e + ((target m e - e).toNat : Int) = target m e := by omega
  have least := le_target m e
  have below := rounded_le_two_pow m e a
  rw [roundWithAccuracy, shiftToTargetExponent_eq]
  dsimp only
  rw [at_target, shiftToTargetExponent_eq]
  dsimp only
  simp only [shifted_mantissa (shifted m e a).roundedMantissa]
  generalize (shifted m e a).roundedMantissa = r at *
  by_cases fits : r < 2 ^ 53
  · have still : (target r (target m e) - target m e).toNat = 0 := by
      have : r.log2 ≤ 52 := by
        by_cases zero : r = 0
        · subst zero; decide
        · have := (Nat.log2_lt zero).mpr fits; omega
      rw [target]
      omega
    simp only [still, Nat.pow_zero, Nat.div_one, if_pos fits, Nat.cast_zero, Int.add_zero]
  · obtain rfl : r = 2 ^ 53 := by omega
    have carry : (target (2 ^ 53) (target m e) - target m e).toNat = 1 := by
      rw [target, Nat.log2_two_pow]
      omega
    simp only [carry, if_neg fits]
    rfl

theorem two_zpow_pos (e : Int) : (0 : Rat) < 2 ^ e := zpow_pos two_pos e

theorem natCast_mul_zpow (n : Nat) (k : Nat) (e : Int) : ((n * 2 ^ k : Nat) : Rat) * 2 ^ e = n * 2 ^ (e + k) := by
  rw [Nat.cast_mul, Nat.cast_pow, Nat.cast_two, zpow_add₀ two_ne_zero, zpow_natCast]
  ring

/-- Above the least exponent all bits of the mantissa are used. -/
theorem target_cases (m : Nat) {e : Int} (placed : e ≤ target m e) :
    target m e = -1074 ∨ m ≠ 0 ∧ target m e = m.log2 + e - 52 := by
  by_cases least : target m e = -1074
  · exact .inl least
  · have same : target m e = m.log2 + e - 52 := by
      rw [target] at least ⊢
      omega
    refine .inr ⟨?_, same⟩
    rintro rfl
    rw [Nat.log2_zero] at same
    omega

theorem full_shifted {m : Nat} {e : Int} (a : Accuracy) (placed : e ≤ target m e) :
    2 ^ 52 ≤ (shifted m e a).roundedMantissa ∨ target m e = -1074 := by
  rcases target_cases m placed with least | ⟨some, same⟩
  · exact .inr least
  · refine .inl (Nat.le_trans ?_ (le_rounded _))
    rw [shifted_mantissa, Nat.le_div_iff_mul_le (Nat.two_pow_pos _), ← Nat.pow_add]
    refine Nat.le_trans (Nat.pow_le_pow_right (by decide) ?_) (Nat.log2_self_le some)
    omega

theorem lt_of_canonical {n : Nat} {f : Int} (double : Canonical n f) : n * (2 : Rat) ^ f < 2 ^ (53 + f) := by
  rw [zpow_add₀ two_ne_zero]
  exact mul_lt_mul_of_pos_right (by exact_mod_cast double.small) (two_zpow_pos f)

section Round
variable {m : Nat} {e : Int} {a : Accuracy} {v : Rat} {n : Nat} {f : Int}

/-- No double of a smaller exponent reaches as far as the mantissa does. -/
theorem target_le (placed : e ≤ target m e) (double : Canonical n f) (bound : m * (2 : Rat) ^ e ≤ n * 2 ^ f) :
    target m e ≤ f := by
  rcases target_cases m placed with least | ⟨some, same⟩
  · rw [least]
    exact double.low
  · have reached : (2 : Rat) ^ (52 + target m e) ≤ m * 2 ^ e := by
      rw [show 52 + target m e = (m.log2 : Int) + e by omega, zpow_add₀ two_ne_zero, zpow_natCast]
      exact mul_le_mul_of_nonneg_right (by exact_mod_cast Nat.log2_self_le some) (two_zpow_pos e).le
    have := (zpow_lt_zpow_iff_right₀ one_lt_two).mp ((reached.trans bound).trans_lt (lt_of_canonical double))
    omega

/-- The rounded mantissa is not above a double that the exact value `v` is not above. The mantissa `m`
leaves the fraction of its last place out that `a` stands for. -/
theorem rounded_le_double (placed : e ≤ target m e) (low : m * (2 : Rat) ^ e ≤ v)
    (inexact : lost (.ofMantissaAndAccuracy m a) = true → m * (2 : Rat) ^ e < v) (double : Canonical n f)
    (bound : v ≤ n * (2 : Rat) ^ f) :
    ((shifted m e a).roundedMantissa : Rat) * 2 ^ target m e ≤ n * 2 ^ f := by
  have unit := two_zpow_pos (target m e)
  have split : target m e = e + ((target m e - e).toNat : Int) := by omega
  have floor : ((shifted m e a).mantissa : Rat) * 2 ^ target m e =
      ((m / 2 ^ (target m e - e).toNat * 2 ^ (target m e - e).toNat : Nat) : Rat) * 2 ^ e := by
    rw [shifted_mantissa, natCast_mul_zpow, ← split]
  have down : ((shifted m e a).mantissa : Rat) * 2 ^ target m e ≤ m * 2 ^ e := by
    rw [floor]
    exact mul_le_mul_of_nonneg_right (Nat.cast_le.mpr (Nat.div_mul_le_self ..)) (two_zpow_pos e).le
  have above (some : lost (shifted m e a) = true) : ((shifted m e a).mantissa : Rat) * 2 ^ target m e < v := by
    rcases lost_shiftRight some with before | left
    · exact down.trans_lt (inexact before)
    · rw [mantissa_of] at left
      rw [floor]
      exact (mul_lt_mul_of_pos_right (Nat.cast_lt.mpr left) (two_zpow_pos e)).trans_le low
  -- the double is a multiple of the last place
  have coarse := target_le placed double (low.trans bound)
  have multiple : n * (2 : Rat) ^ f = ((n * 2 ^ (f - target m e).toNat : Nat) : Rat) * 2 ^ target m e := by
    rw [natCast_mul_zpow, show target m e + ((f - target m e).toNat : Int) = f by omega]
  rw [multiple] at bound ⊢
  refine mul_le_mul_of_nonneg_right (Nat.cast_le.mpr (rounded_le ?_ fun some => ?_)) unit.le
  · exact Nat.cast_le.mp (le_of_mul_le_mul_right (down.trans (low.trans bound)) unit)
  · exact Nat.cast_lt.mp (lt_of_mul_lt_mul_right ((above some).trans_le bound) unit.le)

/-- What is not above a double is not above it once it is rounded. -/
theorem atMost_round (s : Sign) (placed : e ≤ target m e) (low : m * (2 : Rat) ^ e ≤ v)
    (inexact : lost (.ofMantissaAndAccuracy m a) = true → m * (2 : Rat) ^ e < v) (double : Canonical n f)
    (bound : v ≤ n * (2 : Rat) ^ f) :
    AtMost (n * (2 : Rat) ^ f) (Float.Model.pack (roundWithAccuracy Format.binary64 s m e a)).unpack := by
  have coarse := target_le placed double (low.trans bound)
  have rounded := rounded_le_double placed low inexact double bound
  have least := le_target m e
  have high := double.high
  rw [roundWithAccuracy_eq s a placed]
  split
  · cases s <;> exact trivial
  split
  · rename_i fits
    rw [unpack_pack ⟨fits, least, coarse.trans high, full_shifted a placed⟩]
    exact rounded
  · rename_i carried
    have carry : (shifted m e a).roundedMantissa = 2 ^ 53 :=
      Nat.le_antisymm (rounded_le_two_pow m e a) (Nat.le_of_not_lt carried)
    have same : ((2 ^ 52 : Nat) : Rat) * 2 ^ (target m e + 1) = (2 ^ 53 : Nat) * 2 ^ target m e := by
      rw [zpow_add₀ two_ne_zero]
      norm_num
      ring
    rw [carry] at rounded
    have strict : target m e < f := by
      have reached := rounded.trans_lt (lt_of_canonical double)
      rw [Nat.cast_pow, Nat.cast_two, ← zpow_natCast, ← zpow_add₀ two_ne_zero] at reached
      have := (zpow_lt_zpow_iff_right₀ one_lt_two).mp reached
      omega
    rw [unpack_pack ⟨by decide, by omega, by omega, .inl (by decide)⟩]
    exact same.trans_le rounded

/-- What has the place of the ones is not below one once it is rounded. -/
theorem atLeastOne_round (s : Sign) (a : Accuracy) (placed : e ≤ target m e)
    (ones : 0 ≤ (m.log2 : Int) + e) (high : target m e < 971) :
    AtLeastOne (Float.Model.pack (roundWithAccuracy Format.binary64 s m e a)).unpack := by
  have place : -52 ≤ target m e := by
    rw [target]
    omega
  have full := (full_shifted a placed).resolve_right (by omega)
  have unit : (1 : Rat) ≤ 2 ^ 52 * 2 ^ target m e := by
    rw [← zpow_natCast, ← zpow_add₀ two_ne_zero]
    exact one_le_zpow₀ one_le_two (by omega)
  rw [roundWithAccuracy_eq s a placed, dif_neg (by omega)]
  split
  · rename_i fits
    rw [unpack_pack ⟨fits, by omega, by omega, .inl full⟩]
    exact unit.trans (mul_le_mul_of_nonneg_right (by exact_mod_cast full) (two_zpow_pos _).le)
  · rw [unpack_pack ⟨by decide, by omega, by omega, .inl (by decide)⟩, AtLeastOne, Nat.cast_pow, Nat.cast_two]
    exact unit.trans (mul_le_mul_of_nonneg_left (zpow_le_zpow_right₀ one_le_two (by omega)) (by positivity))

end Round

/-! ### Operations -/

theorem exact_keeps (m : Nat) : lost (.ofMantissaAndAccuracy m .exact) = false := rfl

/-- A whole number that is not above a double is not above it as a double. -/
theorem atMost_ofNat {w : Nat} {n : Nat} {f : Int} (double : Canonical n f) (bound : (w : Rat) ≤ n * 2 ^ f) :
    AtMost (n * (2 : Rat) ^ f) (Float.Model.ofNat w).unpack := by
  rw [Float.Model.ofNat, UnpackedFloat.ofNat, UnpackedFloat.ofInt, UnpackedFloat.normalize]
  rcases Nat.eq_zero_or_pos w with rfl | pos
  · exact trivial
  · have some := Nat.ne_of_gt pos
    rw [Int.compare_eq_gt.mpr (Int.natCast_pos.mpr pos)]
    dsimp only
    rw [Int.toNat_natCast, UnpackedFloat.round, targetExponent_eq, decreaseExponent, Nat.shiftLeft_eq]
    dsimp only
    generalize scale : (0 - max ((w.log2 : Int) + 0 - 52) (-1074)).toNat = k
    have log : w.log2 + k ≤ (w * 2 ^ k).log2 := by
      rw [Nat.le_log2 (Nat.mul_ne_zero some (Nat.ne_of_gt (Nat.two_pow_pos k))), Nat.pow_add]
      exact Nat.mul_le_mul_right _ (Nat.log2_self_le some)
    have value : ((w * 2 ^ k : Nat) : Rat) * 2 ^ (0 - (k : Int)) = w := by
      rw [natCast_mul_zpow, show 0 - (k : Int) + k = 0 by omega, zpow_zero, mul_one]
    refine atMost_round .positive (by rw [target]; omega) value.le (fun none => ?_) double bound
    rw [exact_keeps] at none
    cases none

theorem atMost_zero (bound : Rat) (s : Sign) : AtMost bound (Float.Model.pack (.zero s)).unpack := by
  cases s <;> exact trivial

theorem placed_mul {m m' : Nat} {e e' : Int} (h : Canonical m e) (h' : Canonical m' e') (pos : 0 < m) (pos' : 0 < m') :
    e + e' ≤ target (m * m') (e + e') := by
  have long : 2 ^ 52 ≤ m * m' ∨ e + e' ≤ -1074 := by
    rcases h.full with full | least
    · exact .inl (full.trans (Nat.le_mul_of_pos_right m pos'))
    · rcases h'.full with full' | least'
      · exact .inl (full'.trans (Nat.le_mul_of_pos_left m' pos))
      · exact .inr (by omega)
  rcases long with full | least
  · have := (Nat.le_log2 (Nat.ne_of_gt (Nat.mul_pos pos pos'))).mpr full
    rw [target]
    omega
  · exact least.trans (le_target ..)

/-- A product that is not above a double is not above it once it is rounded. -/
theorem atMost_mul {x y : Float.Model} {a b : Rat} (hx : AtMost a x.unpack) (hy : AtMost b y.unpack) {n : Nat} {f : Int}
    (double : Canonical n f) (bound : a * b ≤ n * 2 ^ f) : AtMost (n * (2 : Rat) ^ f) (x * y).unpack := by
  show AtMost _ (Float.Model.pack (UnpackedFloat.mul Format.binary64 x.unpack y.unpack)).unpack
  rcases hx.cases with ⟨s, zero⟩ | ⟨s, m, e, pos, first, within⟩ <;>
    rcases hy.cases with ⟨s', zero'⟩ | ⟨s', m', e', pos', second, within'⟩
  · rw [zero, zero']
    exact atMost_zero _ _
  · rw [zero, second]
    exact atMost_zero _ _
  · rw [first, zero']
    exact atMost_zero _ _
  · have value : ((m * m' : Nat) : Rat) * 2 ^ (e + e') = m * 2 ^ e * (m' * 2 ^ e') := by
      rw [Nat.cast_mul, zpow_add₀ two_ne_zero]
      ring
    have positive := mul_pos (Nat.cast_pos.mpr pos) (two_zpow_pos e)
    have positive' := mul_pos (Nat.cast_pos.mpr pos') (two_zpow_pos e')
    have placed := placed_mul (canonical_of_unpack first) (canonical_of_unpack second) pos pos'
    rw [first, second]
    refine atMost_round _ placed value.le (fun none => ?_) double ?_
    · rw [exact_keeps] at none
      cases none
    · exact (mul_le_mul within within' positive'.le (positive.le.trans within)).trans bound

theorem remainder_of_lost {q num den : Nat} (h : lost (.ofMantissaAndAccuracy q (accuracyOfFraction num den)) = true) :
    num ≠ 0 := by
  rintro rfl
  cases h

/-- The quotient of the mantissas has all its bits, or its exponent is the least. -/
theorem placed_div {m m' k : Nat} {e e' t : Int} (pos : 0 < m) (pos' : 0 < m') (split : e - e' = t + k)
    (low : t ≤ max (totalExponent m e - totalExponent m' e' - 53) (-1074)) :
    t ≤ target (m * 2 ^ k / m') t := by
  by_cases least : t ≤ -1074
  · exact least.trans (le_target ..)
  · rw [totalExponent, totalExponent] at low
    have full : 2 ^ 52 ≤ m * 2 ^ k / m' := by
      rw [Nat.le_div_iff_mul_le pos']
      calc 2 ^ 52 * m' ≤ 2 ^ 52 * 2 ^ (m'.log2 + 1) := Nat.mul_le_mul_left _ (Nat.le_of_lt Nat.lt_log2_self)
        _ ≤ 2 ^ (m.log2 + k) := by rw [← Nat.pow_add]; exact Nat.pow_le_pow_right (by decide) (by omega)
        _ ≤ m * 2 ^ k := by
          rw [Nat.pow_add]; exact Nat.mul_le_mul_right _ (Nat.log2_self_le (Nat.ne_of_gt pos))
    have := (Nat.le_log2 (by omega)).mpr full
    rw [target]
    omega

/-- Dividing by one or more leaves a double finite. -/
theorem isFinite_div {x y : Float.Model} (hx : x.unpack.isFinite = true) (hy : AtLeastOne y.unpack) :
    (x / y).unpack.isFinite = true := by
  show (Float.Model.pack (UnpackedFloat.div Format.binary64 x.unpack y.unpack)).unpack.isFinite = true
  obtain ⟨s', m', e', pos', second, large⟩ := hy.exists
  rw [second]
  cases first : x.unpack with
  | infinity | notANumber =>
    rw [first] at hx
    cases hx
  | zero => exact (atMost_zero 0 _).isFinite
  | finite s m e pos =>
    have width : Format.binary64.mantissaBits = 53 := rfl
    have least : Format.binary64.minExponent = -1074 := by decide
    rw [UnpackedFloat.div]
    dsimp only
    rw [divCore, Format.targetExponent, width, least, Nat.shiftLeft_eq]
    dsimp only
    generalize exponent : min (e - e') (max (totalExponent m e - totalExponent m' e' - ((53 : Nat) : Int)) (-1074)) = t
    generalize shift : (e - e' - t).toNat = k
    have split : e - e' = t + k := by omega
    have divisor : 0 < (m' : Rat) * 2 ^ e' := zero_lt_one.trans_le large
    have scaled (q : Nat) : (q : Rat) * 2 ^ t * (m' * 2 ^ e') = (q * m' : Nat) * 2 ^ (t + e') := by
      rw [Nat.cast_mul, zpow_add₀ two_ne_zero]
      ring
    have value : (m : Rat) * 2 ^ e = (m * 2 ^ k : Nat) * 2 ^ (t + e') := by
      rw [natCast_mul_zpow, show t + e' + (k : Int) = e by omega]
    refine (atMost_round _ (placed_div pos pos' split (by omega)) (v := m * 2 ^ e / (m' * 2 ^ e')) ?_
      (fun some => ?_) (canonical_of_unpack first) ?_).isFinite
    · rw [le_div_iff₀ divisor, scaled, value]
      exact mul_le_mul_of_nonneg_right (Nat.cast_le.mpr (Nat.div_mul_le_self ..)) (two_zpow_pos _).le
    · rw [lt_div_iff₀ divisor, scaled, value]
      refine mul_lt_mul_of_pos_right (Nat.cast_lt.mpr ?_) (two_zpow_pos _)
      have := remainder_of_lost some
      have := Nat.div_add_mod' (m * 2 ^ k) m'
      omega
    · rw [div_le_iff₀ divisor]
      exact le_mul_of_one_le_right (mul_nonneg m.cast_nonneg (two_zpow_pos e).le) large

theorem isFinite_neg {x : Float.Model} (finite : x.unpack.isFinite = true) : (-x).unpack.isFinite = true := by
  show (Float.Model.pack x.unpack.neg).unpack.isFinite = true
  cases unpacked : x.unpack with
  | infinity | notANumber =>
    rw [unpacked] at finite
    cases finite
  | zero s => exact (atMost_zero 0 (-s)).isFinite
  | finite s m e pos =>
    rw [UnpackedFloat.neg, unpack_pack (canonical_of_unpack unpacked) pos]
    rfl

end TickerBoard.Double

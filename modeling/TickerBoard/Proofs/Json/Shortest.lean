import TickerBoard.Json.Shortest
import TickerBoard.Proofs.Double

/-! The digits of the shortest decimal.

The power of ten of a double's first digit is guessed from its power of two and
then tried, and the guess is never more than two off (`decade_all`). So seventeen
digits are fine enough for one of them to be nearer to the double than the next
double is, and the search ends with at most so many (`shortest_spec`). -/
namespace TickerBoard.Json
open Double

/-- The shortest decimal of the largest double. -/
def greatest : Nat := 17976931348623157 * 10 ^ 292

namespace Binary

/-- The parts of a positive finite double. -/
structure Finite (b : Binary) : Prop where
  pos : 0 < b.steps
  small : b.steps < 2 ^ 53
  low : -1074 ≤ b.scale
  high : b.scale ≤ 971
  power : b.narrow = true → b.steps = 2 ^ 52

variable {b : Binary}

/-! ### Comparisons with a decimal -/

theorem quarter_pos (b : Binary) (k : Int) : 0 < (b.quarter k).1 ∧ 0 < (b.quarter k).2 := by
  constructor <;> exact Nat.mul_pos (Nat.pow_pos (by decide)) (Nat.pow_pos (by decide))

theorem pow_toNat {a : Rat} (some : a ≠ 0) (k : Int) : a ^ k.toNat = a ^ k * a ^ (-k).toNat := by
  rw [← zpow_natCast, ← zpow_natCast, ← zpow_add₀ some, show (k.toNat : Int) = k + ((-k).toNat : Int) by omega]

theorem quarter_ratio (b : Binary) (k : Int) :
    ((b.quarter k).2 : Rat) * 2 ^ (b.scale - 2) = (b.quarter k).1 * 10 ^ k := by
  have two := pow_toNat (two_ne_zero (α := Rat)) (b.scale - 2)
  have ten := pow_toNat (a := 10) (by norm_num) k
  show ((10 ^ k.toNat * 2 ^ (-(b.scale - 2)).toNat : Nat) : Rat) * _ = (2 ^ (b.scale - 2).toNat * 10 ^ (-k).toNat : Nat) * _
  push_cast
  rw [two, ten]
  ring

/-- Multiples of ten to `k` against quarter steps. -/
theorem mul_quarter_le_iff (b : Binary) (k : Int) (c v : Nat) :
    c * (b.quarter k).2 ≤ v * (b.quarter k).1 ↔ (c : Rat) * 10 ^ k ≤ v * 2 ^ (b.scale - 2) := by
  have unit : (0 : Rat) < (b.quarter k).1 := Nat.cast_pos.mpr (quarter_pos b k).1
  have scaled : (c : Rat) * (b.quarter k).2 * 2 ^ (b.scale - 2) = c * 10 ^ k * (b.quarter k).1 := by
    rw [mul_assoc, quarter_ratio]
    ring
  rw [← Nat.cast_le (α := Rat), Nat.cast_mul, Nat.cast_mul, ← mul_le_mul_iff_left₀ (two_zpow_pos (b.scale - 2)), scaled,
    mul_right_comm (v : Rat), mul_le_mul_iff_left₀ unit]

/-- The value of the double. -/
def value (b : Binary) : Rat := b.steps * 2 ^ b.scale

theorem quarters (b : Binary) : ((4 * b.steps : Nat) : Rat) * 2 ^ (b.scale - 2) = b.value := by
  rw [value, zpow_sub₀ two_ne_zero]
  push_cast
  ring

theorem reaches_iff (b : Binary) (k : Int) : b.reaches k = true ↔ (10 : Rat) ^ k ≤ b.value := by
  have compared := mul_quarter_le_iff b k 1 (4 * b.steps)
  rw [quarters, Nat.cast_one, one_mul, one_mul] at compared
  rw [← compared, reaches, decide_eq_true_iff]

/-! ### The first digit -/

/-- Powers of two against the powers of ten next to the guess. -/
def decade (i : Nat) : Bool :=
  let g : Int := ((i : Int) - 1074) * 1233 / 4096
  10 ^ (g + 399).toNat * 2 ^ 1074 ≤ 2 ^ i * 10 ^ 400 && 2 ^ (i + 1) * 10 ^ 400 ≤ 10 ^ (g + 403).toNat * 2 ^ 1074

theorem decade_all : (List.range 2098).all decade = true := by decide +kernel

/-- A power whose exponent is moved to the whole numbers. -/
theorem moved_pow {a : Rat} (some : a ≠ 0) {i k : Nat} {j : Int} (same : (i : Int) = j + k) : a ^ i = a ^ j * a ^ k := by
  rw [← zpow_natCast, same, zpow_add₀ some, zpow_natCast]

theorem decade_spec {e : Int} (low : -1074 ≤ e) (high : e ≤ 1023) :
    (10 : Rat) ^ (e * 1233 / 4096 - 1) ≤ 2 ^ e ∧ (2 : Rat) ^ (e + 1) ≤ 10 ^ (e * 1233 / 4096 + 3) := by
  have index : ((e + 1074).toNat : Int) - 1074 = e := by omega
  have tried := List.all_eq_true.mp decade_all (e + 1074).toNat (List.mem_range.mpr (by omega))
  rw [decade, index] at tried
  have two := two_ne_zero (α := Rat)
  have ten : (10 : Rat) ≠ 0 := by norm_num
  have first : (10 : Rat) ^ (e * 1233 / 4096 + 399).toNat = 10 ^ (e * 1233 / 4096 - 1) * 10 ^ 400 :=
    moved_pow ten (by omega)
  have power : (2 : Rat) ^ (e + 1074).toNat = 2 ^ e * 2 ^ 1074 := moved_pow two (by omega)
  have next : (2 : Rat) ^ ((e + 1074).toNat + 1) = 2 ^ (e + 1) * 2 ^ 1074 := moved_pow two (by omega)
  have last : (10 : Rat) ^ (e * 1233 / 4096 + 403).toNat = 10 ^ (e * 1233 / 4096 + 3) * 10 ^ 400 :=
    moved_pow ten (by omega)
  have unit : (0 : Rat) < 10 ^ 400 * 2 ^ 1074 := by positivity
  obtain ⟨below, above⟩ := (Bool.and_eq_true _ _).mp tried
  have below := Nat.cast_le (α := Rat).mpr (of_decide_eq_true below)
  have above := Nat.cast_le (α := Rat).mpr (of_decide_eq_true above)
  simp only [Nat.cast_mul, Nat.cast_pow, Nat.cast_ofNat] at below above
  rw [first, power, mul_right_comm (2 ^ e), mul_assoc, mul_assoc] at below
  rw [next, last, mul_right_comm (2 ^ (e + 1)), mul_assoc, mul_assoc] at above
  exact ⟨le_of_mul_le_mul_right below unit, le_of_mul_le_mul_right above unit⟩

theorem Finite.value_bounds (h : b.Finite) :
    (2 : Rat) ^ ((b.steps.log2 : Int) + b.scale) ≤ b.value ∧ b.value < 2 ^ ((b.steps.log2 : Int) + b.scale + 1) := by
  have unit := two_zpow_pos b.scale
  constructor
  · rw [value, zpow_add₀ two_ne_zero, zpow_natCast]
    exact mul_le_mul_of_nonneg_right (by exact_mod_cast Nat.log2_self_le (Nat.ne_of_gt h.pos)) unit.le
  · rw [value, add_right_comm, zpow_add₀ two_ne_zero]
    exact mul_lt_mul_of_pos_right (by exact_mod_cast Nat.lt_log2_self) unit

/-- The guess is at most two too small and one too great. -/
theorem magnitude_spec {g : Int} (guess : ((b.steps.log2 : Int) + b.scale) * 1233 / 4096 = g)
    (last : b.reaches (g - 1) = true) (beyond : b.reaches (g + 3) = false) :
    b.reaches b.magnitude = true ∧ b.reaches (b.magnitude + 1) = false ∧ g - 1 ≤ b.magnitude ∧ b.magnitude ≤ g + 2 := by
  rw [magnitude, guess]
  cases second : b.reaches (g + 2) with
  | true => simp [second, beyond, add_assoc]
  | false =>
    cases first : b.reaches (g + 1) with
    | true => simp [second, first, add_assoc]
    | false =>
      cases same : b.reaches g with
      | true => simp [second, first, same]
      | false => simp [second, first, same, last]; omega

/-- The magnitude is the power of ten of the first digit. -/
theorem Finite.magnitude_spec (h : b.Finite) :
    (10 : Rat) ^ b.magnitude ≤ b.value ∧ b.value < 10 ^ (b.magnitude + 1) ∧ -330 ≤ b.magnitude ∧ b.magnitude ≤ 330 := by
  have log : b.steps.log2 < 53 := (Nat.log2_lt (Nat.ne_of_gt h.pos)).mpr h.small
  have low := h.low
  have high := h.high
  obtain ⟨below, above⟩ := decade_spec (e := b.steps.log2 + b.scale) (by omega) (by omega)
  obtain ⟨reached, passed⟩ := h.value_bounds
  obtain ⟨g, guess⟩ : ∃ g, ((b.steps.log2 : Int) + b.scale) * 1233 / 4096 = g := ⟨_, rfl⟩
  rw [guess] at below above
  have beyond : b.reaches (g + 3) = false := by
    rw [Bool.eq_false_iff, Ne, reaches_iff, not_le]
    exact passed.trans_le above
  obtain ⟨top, next, lower, upper⟩ := Binary.magnitude_spec guess ((reaches_iff b _).mpr (below.trans reached)) beyond
  rw [Bool.eq_false_iff, Ne, reaches_iff, not_le] at next
  exact ⟨(reaches_iff b _).mp top, next, by omega, by omega⟩

/-! ### The digits -/

/-- The decimal `c` times ten to `k` reads back as the double. -/
def inside (b : Binary) (k : Int) (c : Nat) : Bool :=
  let (n, d) := b.quarter k
  let low := (4 * b.steps - if b.narrow then 1 else 2) * n
  let high := (4 * b.steps + 2) * n
  if b.steps % 2 == 0 then low ≤ c * d && c * d ≤ high else low < c * d && c * d < high

/-- The decimal before the double, in tens to `k`. -/
def before (b : Binary) (k : Int) : Nat := 4 * b.steps * (b.quarter k).1 / (b.quarter k).2

/-- The choice between two decimals by which of them read back as the double. -/
def pick (below above : Decimal) (nearer : Bool) : Bool → Bool → Option Decimal
  | true, false => some below
  | false, true => some above
  | false, false => none
  | true, true => if nearer then some below else some above

theorem nearest?_eq (b : Binary) {count : Nat} {k : Int} (last : k = b.magnitude + 1 - count) :
    ∃ nearer, b.nearest? count =
      pick ⟨b.before k, k⟩ ⟨b.before k + 1, k⟩ nearer (b.inside k (b.before k)) (b.inside k (b.before k + 1)) := by
  subst last
  exact ⟨_, rfl⟩

theorem nearest?_cases (b : Binary) {count : Nat} {k : Int} (last : k = b.magnitude + 1 - count) :
    (∃ c, (c = b.before k ∨ c = b.before k + 1) ∧ b.inside k c = true ∧ b.nearest? count = some ⟨c, k⟩) ∨
    b.inside k (b.before k) = false ∧ b.inside k (b.before k + 1) = false ∧ b.nearest? count = none := by
  obtain ⟨nearer, same⟩ := nearest?_eq b last
  rw [same]
  cases below : b.inside k (b.before k) <;> cases above : b.inside k (b.before k + 1)
  · exact .inr ⟨rfl, rfl, rfl⟩
  · exact .inl ⟨_, .inr rfl, above, rfl⟩
  · exact .inl ⟨_, .inl rfl, below, rfl⟩
  · cases nearer
    · exact .inl ⟨_, .inr rfl, above, rfl⟩
    · exact .inl ⟨_, .inl rfl, below, rfl⟩

theorem inside_le {k : Int} {c : Nat} (h : b.inside k c = true) :
    (c : Rat) * 10 ^ k ≤ (4 * b.steps + 2 : Nat) * 2 ^ (b.scale - 2) := by
  rw [← mul_quarter_le_iff]
  simp only [inside] at h
  split at h
  · simp only [Bool.and_eq_true, decide_eq_true_eq] at h
    exact h.2
  · simp only [Bool.and_eq_true, decide_eq_true_eq] at h
    exact Nat.le_of_lt h.2

theorem inside_of_lt {k : Int} {c : Nat}
    (low : (4 * b.steps - if b.narrow then 1 else 2) * (b.quarter k).1 < c * (b.quarter k).2)
    (high : c * (b.quarter k).2 < (4 * b.steps + 2) * (b.quarter k).1) : b.inside k c = true := by
  simp only [inside]
  split
  · simp only [Bool.and_eq_true, decide_eq_true_eq]
    exact ⟨Nat.le_of_lt low, Nat.le_of_lt high⟩
  · simp only [Bool.and_eq_true, decide_eq_true_eq]
    exact ⟨low, high⟩

theorem Finite.pos_of_inside (h : b.Finite) {k : Int} {c : Nat} (reads : b.inside k c = true) : 0 < c := by
  have some := h.pos
  have unit := (quarter_pos b k).1
  have low : 0 < (4 * b.steps - if b.narrow then 1 else 2) * (b.quarter k).1 := Nat.mul_pos (by split <;> omega) unit
  rcases Nat.eq_zero_or_pos c with rfl | pos
  · simp only [inside, Nat.zero_mul] at reads
    split at reads <;> simp only [Bool.and_eq_true, decide_eq_true_eq] at reads <;> omega
  · exact pos

theorem before_le (b : Binary) (k : Int) : (b.before k : Rat) * 10 ^ k ≤ b.value := by
  rw [← quarters, ← mul_quarter_le_iff]
  exact Nat.div_mul_le_self ..

/-- The decimal before a double has no more digits than it is given. -/
theorem Finite.before_lt (h : b.Finite) {count : Nat} {k : Int} (last : k = b.magnitude + 1 - count) :
    b.before k < 10 ^ count := by
  have unit : (0 : Rat) < 10 ^ k := zpow_pos (by norm_num) _
  have below := (before_le b k).trans_lt h.magnitude_spec.2.1
  rw [show b.magnitude + 1 = (count : Int) + k by omega, zpow_add₀ (by norm_num), zpow_natCast] at below
  exact_mod_cast lt_of_mul_lt_mul_right below unit.le

theorem lt_before (b : Binary) (k : Int) :
    4 * b.steps * (b.quarter k).1 < b.before k * (b.quarter k).2 + (b.quarter k).2 := by
  have := Nat.div_add_mod' (4 * b.steps * (b.quarter k).1) (b.quarter k).2
  have := Nat.mod_lt (4 * b.steps * (b.quarter k).1) (quarter_pos b k).2
  rw [before]
  omega

/-- With seventeen digits, decimals stand closer than doubles do. -/
theorem Finite.fine (h : b.Finite) {k : Int} (seventeen : k = b.magnitude - 16) :
    (b.quarter k).2 < (if b.narrow then 2 else 4) * (b.quarter k).1 := by
  have positive := (quarter_pos b k).1
  have digits : 10 ^ 16 * (b.quarter k).2 ≤ 4 * b.steps * (b.quarter k).1 := by
    rw [mul_quarter_le_iff, quarters, Nat.cast_pow, Nat.cast_ofNat, ← zpow_natCast, ← zpow_add₀ (by norm_num),
      show ((16 : Nat) : Int) + k = b.magnitude by omega]
    exact h.magnitude_spec.1
  split
  · rename_i narrow
    rw [h.power narrow] at digits
    omega
  · have := Nat.mul_le_mul_right (b.quarter k).1 (Nat.mul_le_mul_left 4 (Nat.le_of_lt h.small))
    omega

/-- Of seventeen digits, one of the two decimals next to the double is less than half a step off. -/
theorem Finite.nearest?_seventeen (h : b.Finite) : b.nearest? 17 ≠ none := by
  intro none
  obtain ⟨k, last⟩ : ∃ k : Int, k = b.magnitude + 1 - (17 : Nat) := ⟨_, rfl⟩
  rcases nearest?_cases b last with ⟨c, -, -, found⟩ | ⟨below, above, -⟩
  · rw [none] at found
    cases found
  have positive := (quarter_pos b k).1
  have down : b.before k * (b.quarter k).2 ≤ 4 * b.steps * (b.quarter k).1 := Nat.div_mul_le_self ..
  have up := lt_before b k
  have fine := h.fine (k := k) (by omega)
  have outside : ¬ (4 * b.steps - if b.narrow then 1 else 2) * (b.quarter k).1 < b.before k * (b.quarter k).2 := fun low => by
    rw [inside_of_lt low (by rw [Nat.add_mul]; omega)] at below
    cases below
  have outside' : ¬ (b.before k + 1) * (b.quarter k).2 < (4 * b.steps + 2) * (b.quarter k).1 := fun high => by
    have low := Nat.mul_le_mul_right (b.quarter k).1 (Nat.sub_le (4 * b.steps) (if b.narrow then 1 else 2))
    rw [inside_of_lt (by rw [Nat.add_mul]; omega) high] at above
    cases above
  have some := Nat.mul_le_mul_right (b.quarter k).1 (show 4 ≤ 4 * b.steps by have := h.pos; omega)
  rw [Nat.sub_mul] at outside
  rw [Nat.add_mul, Nat.add_mul] at outside'
  cases narrow : b.narrow <;> simp only [narrow, if_true, if_false, Bool.false_eq_true] at fine outside <;> omega

end Binary

/-! ### The shortest decimal -/

/-- A positive decimal that is read as a finite double: a word of at most seventeen digits, and if
it is a whole number, one not above the decimal of the largest double. -/
structure Decimal.Moderate (x : Decimal) : Prop where
  pos : 0 < x.digits
  digits : x.digits ≤ 10 ^ 17
  low : -400 ≤ x.exponent
  high : x.exponent ≤ 400
  fits : 0 ≤ x.exponent → x.digits * 10 ^ x.exponent.toNat ≤ greatest

namespace Binary
variable {b : Binary}

theorem Finite.nearest?_spec (h : b.Finite) {count : Nat} (few : count ≤ 17) {x : Decimal}
    (found : b.nearest? count = some x) :
    0 < x.digits ∧ x.digits ≤ 10 ^ 17 ∧ -350 ≤ x.exponent ∧ x.exponent ≤ 350 ∧
      (x.digits : Rat) * 10 ^ x.exponent ≤ (4 * b.steps + 2 : Nat) * 2 ^ (b.scale - 2) := by
  obtain ⟨k, last⟩ : ∃ k : Int, k = b.magnitude + 1 - count := ⟨_, rfl⟩
  rcases nearest?_cases b last with ⟨c, near, reads, same⟩ | ⟨-, -, none⟩
  · obtain rfl := Option.some.inj (same.symm.trans found)
    have := h.before_lt last
    have : (10 : Nat) ^ count ≤ 10 ^ 17 := Nat.pow_le_pow_right (by decide) few
    obtain ⟨-, -, low, high⟩ := h.magnitude_spec
    dsimp only
    exact ⟨h.pos_of_inside reads, by omega, by omega, by omega, inside_le reads⟩
  · rw [none] at found
    cases found

theorem Finite.search (h : b.Finite) : ∃ count ≤ 17, ∃ x,
    b.nearest? count = some x ∧ (List.range 17).findSome? (fun i => b.nearest? (i + 1)) = some x := by
  cases found : (List.range 17).findSome? fun i => b.nearest? (i + 1) with
  | none =>
    have all := List.findSome?_eq_none_iff.mp found 16 (by decide)
    exact absurd all h.nearest?_seventeen
  | some x =>
    obtain ⟨i, listed, same⟩ := List.exists_of_findSome?_eq_some found
    exact ⟨i + 1, List.mem_range.mp listed, x, same, rfl⟩

theorem ends_le {m k limit : Nat} (steps : 4 * b.steps + 2 ≤ m) (scale : b.scale - 2 ≤ k) (within : m * 2 ^ k ≤ limit) :
    ((4 * b.steps + 2 : Nat) : Rat) * 2 ^ (b.scale - 2) ≤ limit :=
  calc ((4 * b.steps + 2 : Nat) : Rat) * 2 ^ (b.scale - 2)
      ≤ (m : Rat) * 2 ^ (k : Int) :=
        mul_le_mul (Nat.cast_le.mpr steps) (zpow_le_zpow_right₀ one_le_two scale) (two_zpow_pos _).le (Nat.cast_nonneg m)
    _ = (m * 2 ^ k : Nat) := by rw [zpow_natCast, Nat.cast_mul, Nat.cast_pow, Nat.cast_two]
    _ ≤ limit := Nat.cast_le.mpr within

/-- Whatever reads back as a double other than the largest is not above the decimal of the largest. -/
theorem Finite.ends_le (h : b.Finite) (less : b.scale = 971 → b.steps < 2 ^ 53 - 1) :
    ((4 * b.steps + 2 : Nat) : Rat) * 2 ^ (b.scale - 2) ≤ greatest := by
  have small := h.small
  have high := h.high
  by_cases top : b.scale = 971
  · have less := less top
    exact Binary.ends_le (m := 2 ^ 55 - 6) (k := 969) (by omega) (by omega) (by decide +kernel)
  · exact Binary.ends_le (m := 2 ^ 55 - 2) (k := 968) (by omega) (by omega) (by decide +kernel)

end Binary

theorem Decimal.stripped_spec (fuel : Nat) (x : Decimal) :
    ∃ j ≤ fuel, (x.stripped fuel).exponent = x.exponent + j ∧ (x.stripped fuel).digits * 10 ^ j = x.digits := by
  induction fuel generalizing x with
  | zero => exact ⟨0, Nat.le_refl 0, (Int.add_zero _).symm, Nat.mul_one _⟩
  | succ fuel ih =>
    rw [stripped]
    split
    · rename_i zero
      obtain ⟨j, few, exponent, digits⟩ := ih ⟨x.digits / 10, x.exponent + 1⟩
      simp only [Bool.and_eq_true, beq_iff_eq] at zero
      dsimp only at exponent digits
      refine ⟨j + 1, by omega, by omega, ?_⟩
      rw [Nat.pow_succ, ← Nat.mul_assoc, digits]
      omega
    · exact ⟨0, Nat.zero_le _, (Int.add_zero _).symm, Nat.mul_one _⟩

theorem finite_ofBits {bits : Nat} (some : bits ≠ 0) (finite : bits < 2047 * 2 ^ 52) : (Binary.ofBits bits).Finite := by
  have word : Word.size 52 = 2 ^ 52 := rfl
  have word' : Word.size 11 = 2 ^ 11 := rfl
  simp only [Binary.ofBits, word, word', beq_iff_eq]
  split
  · exact ⟨by dsimp only; omega, by dsimp only; omega, by dsimp only; omega, by dsimp only; omega, nofun⟩
  · refine ⟨by dsimp only; omega, by dsimp only; omega, by dsimp only; omega, by dsimp only; omega, fun narrow => ?_⟩
    simp only [Bool.and_eq_true, beq_iff_eq] at narrow
    dsimp only
    omega

/-- Only the largest double has the greatest scale and all bits set. -/
theorem ofBits_less {bits : Nat} (finite : bits < 2047 * 2 ^ 52) (below : bits ≠ 2047 * 2 ^ 52 - 1)
    (top : (Binary.ofBits bits).scale = 971) : (Binary.ofBits bits).steps < 2 ^ 53 - 1 := by
  have word : Word.size 52 = 2 ^ 52 := rfl
  have word' : Word.size 11 = 2 ^ 11 := rfl
  simp only [Binary.ofBits, word, word', beq_iff_eq] at top ⊢
  by_cases zero : bits / 2 ^ 52 % 2 ^ 11 = 0
  · rw [if_pos zero] at top
    cases top
  · rw [if_neg zero] at top ⊢
    dsimp only at top ⊢
    omega

theorem stripped_moderate {x : Decimal} (pos : 0 < x.digits) (digits : x.digits ≤ 10 ^ 17) (low : -350 ≤ x.exponent)
    (high : x.exponent ≤ 350) (near : (x.digits : Rat) * 10 ^ x.exponent ≤ greatest) : (x.stripped 20).Moderate := by
  obtain ⟨j, few, exponent, same⟩ := x.stripped_spec 20
  refine ⟨?_, ?_, by omega, by omega, fun whole => ?_⟩
  · exact Nat.pos_of_mul_pos_right (pos.trans_eq same.symm)
  · exact (Nat.le_mul_of_pos_right _ (Nat.pow_pos (by decide))).trans (same.trans_le digits)
  · have value : (((x.stripped 20).digits * 10 ^ (x.stripped 20).exponent.toNat : Nat) : Rat) =
        x.digits * 10 ^ x.exponent := by
      rw [← same, Nat.cast_mul, Nat.cast_mul, Nat.cast_pow, Nat.cast_pow, Nat.cast_ofNat, mul_assoc, ← zpow_natCast,
        ← zpow_natCast, ← zpow_add₀ (by norm_num), Int.toNat_of_nonneg whole, exponent, Int.add_comm]
    rw [← Nat.cast_le (α := Rat), value]
    exact near

/-- The shortest decimal of a finite double is read as a finite double. -/
theorem shortest_spec {bits : Nat} (some : bits ≠ 0) (finite : bits < 2047 * 2 ^ 52) : (shortest bits).Moderate := by
  by_cases top : bits = 2047 * 2 ^ 52 - 1
  · have digits : shortest bits = ⟨17976931348623157, 292⟩ := by
      rw [top]
      decide +kernel
    rw [digits]
    exact ⟨by decide, by decide, by decide, by decide, fun _ => by decide +kernel⟩
  · have h := finite_ofBits some finite
    obtain ⟨count, few, x, found, searched⟩ := h.search
    obtain ⟨pos, digits, low, high, near⟩ := h.nearest?_spec few found
    rw [shortest]
    simp only [searched]
    exact stripped_moderate pos digits low high (near.trans (h.ends_le (ofBits_less finite top)))

end TickerBoard.Json

import TickerBoard.Word

/-! The shortest decimal that reads back as a double.

A finite double is a whole number of steps of a power of two. The decimals
that round to it lie in an interval around it, which includes its ends if the
number of steps is even. For one digit, two digits and so on, the two decimals
of that many digits next to the double are tested: the first count with a hit
wins, of two hits the nearer, and of two equally near the even one. -/
namespace TickerBoard.Json

/-- A positive decimal: `digits` times ten to `exponent`, without trailing zeros. -/
structure Decimal where
  digits : Nat
  exponent : Int
deriving Repr, DecidableEq

/-- A positive finite double: `steps` times two to `scale`. -/
structure Binary where
  steps : Nat
  scale : Int
  /-- The next smaller double is only half a step away. -/
  narrow : Bool

def Binary.ofBits (bits : Nat) : Binary :=
  let fraction := bits % Word.size 52
  let power : Nat := bits / Word.size 52 % Word.size 11
  if power == 0 then ⟨fraction, -1074, false⟩
  else ⟨fraction + Word.size 52, (power : Int) - 1075, fraction == 0 && 1 < power⟩

namespace Binary

/-- A quarter step, over ten to `k`, as a fraction of natural numbers. -/
def quarter (b : Binary) (k : Int) : Nat × Nat :=
  let q := b.scale - 2
  (Nat.pow 2 q.toNat * Nat.pow 10 (-k).toNat, Nat.pow 10 k.toNat * Nat.pow 2 (-q).toNat)

/-- Ten to `k` is not above the double. -/
def reaches (b : Binary) (k : Int) : Bool :=
  let (n, d) := b.quarter k
  d ≤ 4 * b.steps * n

/-- The power of ten of the double's first digit. -/
def magnitude (b : Binary) : Int :=
  let guess := ((b.steps.log2 : Int) + b.scale) * 1233 / 4096
  match [guess + 2, guess + 1, guess, guess - 1].find? b.reaches with
  | some k => k
  | none => guess - 2

/-- The decimal of `count` digits that is nearest to the double, if one reads back as it. -/
def nearest? (b : Binary) (count : Nat) : Option Decimal :=
  let k := b.magnitude + 1 - count
  let (n, d) := b.quarter k
  let value := 4 * b.steps * n
  let low := (4 * b.steps - if b.narrow then 1 else 2) * n
  let high := (4 * b.steps + 2) * n
  let closed := b.steps % 2 == 0
  let inside (c : Nat) : Bool :=
    if closed then low ≤ c * d && c * d ≤ high else low < c * d && c * d < high
  let below := value / d
  let above := below + 1
  match inside below, inside above with
  | true, false => some ⟨below, k⟩
  | false, true => some ⟨above, k⟩
  | false, false => none
  | true, true =>
    let down := value - below * d
    let up := above * d - value
    if down < up || (down == up && below % 2 == 0) then some ⟨below, k⟩ else some ⟨above, k⟩

end Binary

/-- Moves trailing zeros into the exponent; `fuel` bounds their number. -/
def Decimal.stripped : Nat → Decimal → Decimal
  | 0, x => x
  | fuel + 1, x =>
    if x.digits % 10 == 0 && x.digits != 0 then stripped fuel ⟨x.digits / 10, x.exponent + 1⟩ else x

/-- The shortest decimal that reads back as the double of the bits, which is
positive and finite; seventeen digits always suffice. -/
def shortest (bits : Nat) : Decimal :=
  let b := Binary.ofBits bits
  match (List.range 17).findSome? fun i => b.nearest? (i + 1) with
  | some x => x.stripped 20
  | none => ⟨b.steps, b.scale⟩

example : shortest 4607182418800017408 = ⟨1, 0⟩ := by decide +kernel
example : shortest 4599075939470750515 = ⟨3, -1⟩ := by decide +kernel
example : shortest 4599075939470750516 = ⟨30000000000000004, -17⟩ := by decide +kernel
example : shortest 1 = ⟨5, -324⟩ := by decide +kernel

end TickerBoard.Json

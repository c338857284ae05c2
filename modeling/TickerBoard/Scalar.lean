import TickerBoard.Word

/-! The numbers that prices, indicators and levels are computed with.

Every computation on prices is written once over a `Scalar` type. The board
runs on `Float`; the same definitions at `Rat` are exact arithmetic, in which
the laws of the indicators and of the price levels are stated. The operations
keep what doubles do: a comparison with a NaN fails, a maximum or minimum
passes a NaN over, and sorting uses the order of the bit patterns, in which
every value, NaN and the signed zeros included, has its place. -/
namespace TickerBoard

/-- Arithmetic on prices. -/
class Scalar (α : Type) extends Add α, Sub α, Mul α, Div α, LT α, LE α, BEq α where
  ofInt : Int → α
  abs : α → α
  isFinite : α → Bool
  isNaN : α → Bool
  /-- The total order that sorting uses. -/
  precedes : α → α → Bool
  /-- The maximum of no values. -/
  bottom : α
  /-- The minimum of no values. -/
  top : α
  decLt : DecidableLT α
  decLe : DecidableLE α

instance Scalar.decidableLT {α : Type} [Scalar α] : DecidableLT α := Scalar.decLt

instance Scalar.decidableLE {α : Type} [Scalar α] : DecidableLE α := Scalar.decLe

namespace Scalar
variable {α : Type} [Scalar α]

def zero : α := ofInt 0

/-- The larger value; of two equal ones the first, and never a NaN beside a number. -/
def max (a b : α) : α := if isNaN a then b else if a < b then b else a

/-- The smaller value; of two equal ones the first, and never a NaN beside a number. -/
def min (a b : α) : α := if isNaN a then b else if b < a then b else a

/-- The largest number of the list. -/
def highest (xs : List α) : α :=
  match xs.filter (fun x => !isNaN x) with
  | [] => bottom
  | x :: rest => rest.foldl max x

/-- The smallest number of the list. -/
def lowest (xs : List α) : α :=
  match xs.filter (fun x => !isNaN x) with
  | [] => top
  | x :: rest => rest.foldl min x

/-- The sum from the left. -/
def sum (xs : List α) : α := xs.foldl (· + ·) zero

end Scalar

/-- The place of a double in the order of bit patterns: negative values first,
by falling magnitude, then the others by rising magnitude. -/
def orderKey (x : Float) : Nat :=
  let bits := x.toBits.toNat
  if bits < Word.size 63 then bits + Word.size 63 else Word.size 64 - 1 - bits

instance : Scalar Float where
  ofInt := Float.ofInt
  abs := Float.abs
  isFinite := Float.isFinite
  isNaN := Float.isNaN
  precedes a b := orderKey a ≤ orderKey b
  bottom := -1.0 / 0.0
  top := 1.0 / 0.0
  decLt := inferInstance
  decLe := inferInstance

instance : Scalar Rat where
  ofInt n := n
  abs := Rat.abs
  isFinite _ := true
  isNaN _ := false
  precedes a b := a ≤ b
  bottom := 0
  top := 0
  decLt := inferInstance
  decLe := inferInstance

/-- Scalars with directions in the plane, measured as angles. -/
class Angular (α : Type) extends Scalar α where
  /-- The angle of the direction with the given rise and run, half a turn at most to either side. -/
  angle : α → α → α
  /-- A full turn. -/
  turn : α

/-- How the angle of a direction with a given rise and run is measured. -/
class Protractor where
  angle : Float → Float → Float

/-- The board measures with the machine's own function. -/
instance : Protractor := ⟨Float.atan2⟩

instance [Protractor] : Angular Float where
  angle := Protractor.angle
  turn := 2.0 * 3.141592653589793

end TickerBoard

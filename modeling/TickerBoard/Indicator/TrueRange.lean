import TickerBoard.Indicator.Smoothing

/-! True ranges and their average.

The true range of an interval is the longest of its own range and the distances
from the close before it to its high and its low. The average true range is
Wilder's average of them, read at the last interval. -/
namespace TickerBoard

/-- The prices of an interval that ranges are measured by. -/
structure PriceRange (α : Type) where
  high : α
  low : α
  closing : α

namespace PriceRange
variable {α : Type} [Scalar α]

/-- The true range of an interval after `previous`. -/
def trueRange (previous current : PriceRange α) : α :=
  Scalar.max
    (Scalar.max (current.high - current.low) (Scalar.abs (current.high - previous.closing)))
    (Scalar.abs (current.low - previous.closing))

/-- The true range of each interval but the first. -/
def trueRanges : List (PriceRange α) → List α
  | a :: b :: rest => trueRange a b :: trueRanges (b :: rest)
  | _ => []

/-- The last average over the ranges, where `latest` is the one before them; none
if any of them is not finite. -/
def lastAverage (average : Smoothing α) (latest : Option α) : List α → Option α
  | [] => latest
  | x :: rest =>
    match average.push x with
    | (average, some v) => if Scalar.isFinite v then lastAverage average (some v) rest else none
    | (average, none) => lastAverage average latest rest

/-- The average true range, for which there must be more intervals than its period. -/
def averageTrueRange (ranges : List (PriceRange α)) (period : Nat) : Option α :=
  if period = 0 || ranges.length ≤ period then none
  else lastAverage (Smoothing.start .wilder period) none (trueRanges ranges)

end PriceRange
end TickerBoard

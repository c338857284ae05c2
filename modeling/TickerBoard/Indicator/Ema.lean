import TickerBoard.Indicator.Smoothing

/-! The exponential moving average of closing prices.

The values start where the warm-up ends and stop before the first that is not
finite. A period of zero has no average. -/
namespace TickerBoard.Ema
variable {α : Type} [Scalar α]

def values (closes : List α) (period : Nat) : List α :=
  if period = 0 then []
  else
    let outputs := ((Smoothing.start .exponential period).outputs closes).filterMap id
    outputs.takeWhile Scalar.isFinite

def column (closes : List α) (period : Nat) : List (Option α) :=
  alignTail (values closes period) closes.length

end TickerBoard.Ema

import TickerBoard.Scalar

/-! Local extrema.

A place is an extremum of an order if its value wins against every value at
most that many places away. A neighbour beyond an edge counts as the value at
the edge, so the edge is compared with itself there: it is never a strict
extremum, but it may be one that ties with its neighbours. -/
namespace TickerBoard.Extrema

inductive Side
  | maximum
  | minimum
deriving Repr, DecidableEq

inductive Ties
  /-- A tie with a neighbour loses. -/
  | strict
  /-- A tie with a neighbour still wins. -/
  | inclusive
deriving Repr, DecidableEq

/-- The value `a` wins against the value `b`. -/
def wins {α : Type} [Scalar α] (side : Side) (ties : Ties) (a b : α) : Bool :=
  match side, ties with
  | .maximum, .strict => b < a
  | .maximum, .inclusive => b ≤ a
  | .minimum, .strict => a < b
  | .minimum, .inclusive => a ≤ b

/-- Winning among values of which some are missing: a missing one neither wins nor loses. -/
def winsPresent {α : Type} (wins : α → α → Bool) : Option α → Option α → Bool
  | some a, some b => wins a b
  | _, _ => false

variable {α : Type}

/-- The value at `i` wins against the neighbours `k` places to both sides. -/
def winsAt (wins : α → α → Bool) (xs : Array α) (i k : Nat) : Bool :=
  match xs[i]?, xs[i - k]?, xs[min (i + k) (xs.size - 1)]? with
  | some x, some left, some right => wins x left && wins x right
  | _, _, _ => false

/-- Beyond the length of the list both neighbours stay the edges, so the order
may be cut to it. -/
def isExtremum (wins : α → α → Bool) (order : Nat) (xs : Array α) (i : Nat) : Bool :=
  (List.range (min order xs.size)).all fun k => winsAt wins xs i (k + 1)

/-- The places of the extrema, ascending; an order of zero has none. -/
def places (wins : α → α → Bool) (order : Nat) (xs : List α) : List Nat :=
  if order = 0 then []
  else
    let values := xs.toArray
    (List.range xs.length).filter (isExtremum wins order values)

end TickerBoard.Extrema

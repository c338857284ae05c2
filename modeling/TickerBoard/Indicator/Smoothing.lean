import TickerBoard.Scalar

/-! Running averages.

An average first collects as many inputs as its period counts and starts at
their plain mean; from then on every input moves it. The two kinds differ in
how far: Wilder's average takes one part in the period from the input, the
exponential one two parts in the period and one. A column puts the values of an
indicator beside the series they come from, the newest beside the newest, and
leaves the slots of the warm-up empty. -/
namespace TickerBoard

namespace Smoothing

inductive Kind
  | wilder
  | exponential
deriving Repr, DecidableEq

end Smoothing

/-- A running average: what it has collected, and its value once it has one. -/
structure Smoothing (α : Type) where
  kind : Smoothing.Kind
  period : Nat
  seen : Nat
  total : α
  value : Option α
deriving Repr

namespace Smoothing
variable {α : Type} [Scalar α]

def start (kind : Kind) (period : Nat) : Smoothing α := ⟨kind, period, 0, Scalar.zero, none⟩

/-- The value that `x` moves the average `previous` to. -/
def blend (kind : Kind) (period : Nat) (previous x : α) : α :=
  let n : α := Scalar.ofInt period
  let one : α := Scalar.ofInt 1
  match kind with
  | .wilder => (previous * (n - one) + x) / n
  | .exponential =>
    let k := Scalar.ofInt 2 / (n + one)
    x * k + previous * (one - k)

/-- Takes one input and answers the average, absent during the warm-up. -/
def push (s : Smoothing α) (x : α) : Smoothing α × Option α :=
  match s.value with
  | some previous =>
    let next := blend s.kind s.period previous x
    ({ s with value := some next }, some next)
  | none =>
    let s := { s with total := s.total + x, seen := s.seen + 1 }
    if s.seen < s.period then (s, none)
    else
      let mean := s.total / Scalar.ofInt s.period
      ({ s with value := some mean }, some mean)

/-- What the average answers to each input of a list. -/
def outputs (s : Smoothing α) : List α → List (Option α)
  | [] => []
  | x :: rest => (s.push x).2 :: outputs (s.push x).1 rest

end Smoothing

/-- The values at the end of a column of `length` slots. -/
def alignTail {α : Type} (values : List α) (length : Nat) : List (Option α) :=
  (List.replicate (length - values.length) none ++ values.map some).take length

/-- The column of a length that is asked for. A slot takes sixteen bytes, and all slots
together no more than half of the addresses of a word. -/
def column? {α : Type} (values : List α) (length : Nat) : Option (List (Option α)) :=
  if 16 * length < Word.size 63 then some (alignTail values length) else none

example : alignTail [1, 2] 4 = [none, none, some 1, some 2] := by decide

end TickerBoard

import TickerBoard.Indicator.Smoothing

/-! The relative strength index.

Rises and falls between consecutive closes are averaged apart by Wilder's rule.
The index is 100 less 100 over one and their ratio: 100 when nothing fell, 50
when nothing moved. The values start where the warm-up ends and stop before the
first that is not finite. -/
namespace TickerBoard.Rsi
variable {α : Type} [Scalar α]

/-- The differences between consecutive values. -/
def changes : List α → List α
  | a :: b :: rest => (b - a) :: changes (b :: rest)
  | _ => []

def rise (change : α) : α := if Scalar.zero < change then change else Scalar.zero

def fall (change : α) : α := if Scalar.zero < change then Scalar.zero else Scalar.abs change

/-- The index of an average rise and fall. -/
def index (up down : α) : α :=
  let hundred : α := Scalar.ofInt 100
  if down == Scalar.zero then
    if up == Scalar.zero then Scalar.ofInt 50 else hundred
  else hundred - hundred / (Scalar.ofInt 1 + up / down)

/-- The index after each change, from the averages `up` and `down` on. -/
def indices (up down : Smoothing α) : List α → List α
  | [] => []
  | change :: rest =>
    let (up, averageUp) := up.push (rise change)
    let (down, averageDown) := down.push (fall change)
    match averageUp, averageDown with
    | some u, some d =>
      if Scalar.isFinite (index u d) then index u d :: indices up down rest else []
    | _, _ => indices up down rest

def values (closes : List α) (period : Nat) : List α :=
  if period = 0 then []
  else indices (Smoothing.start .wilder period) (Smoothing.start .wilder period) (changes closes)

def column (closes : List α) (period : Nat) : List (Option α) :=
  alignTail (values closes period) closes.length

end TickerBoard.Rsi

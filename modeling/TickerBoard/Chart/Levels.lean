import TickerBoard.Chart.Candle
import TickerBoard.Indicator.Extrema
import TickerBoard.Market.PriceLevel

/-! Price levels of a candle series.

A swing is a low that no neighbour undercuts or a high that no neighbour
exceeds. It weighs as much of the total age of all swings as its own age since
the start of the series, so recent swings count more; a swing is a level of its
own. Swept from the lowest price up, a swing closer to the level before it than
the tolerance, a share of the whole price range, is absorbed: the level moves
to the average price by weight and keeps the earliest time. -/
namespace TickerBoard

/-- How swings are found and how close they merge. -/
structure LevelRules (α : Type) where
  order : Nat
  /-- The tolerance as a share of the range of the series. -/
  tolerance : α
deriving Repr, DecidableEq

namespace LevelRules

def standard : LevelRules Float := ⟨5, 0.04⟩

end LevelRules

namespace PriceLevel
variable {α : Type} [Scalar α]

/-- The level at the average price of a level and a swing, both by weight. -/
def absorb (level swing : PriceLevel α) : PriceLevel α :=
  let weight := level.weight + swing.weight
  { price := (level.price * level.weight + swing.price * swing.weight) / weight
    weight := weight
    anchor := if swing.anchor.ms < level.anchor.ms then swing.anchor else level.anchor }

/-- The swing is closer to the level than the tolerance. -/
def near (tolerance : α) (level swing : PriceLevel α) : Bool :=
  Scalar.abs (swing.price - level.price) < tolerance

/-- The levels of swings in rising order, from `level` on. -/
def sweep (tolerance : α) (level : PriceLevel α) : List (PriceLevel α) → List (PriceLevel α)
  | [] => [level]
  | swing :: rest =>
    if near tolerance level swing then sweep tolerance (level.absorb swing) rest
    else level :: sweep tolerance swing rest

def merged (tolerance : α) : List (PriceLevel α) → List (PriceLevel α)
  | [] => []
  | swing :: rest => sweep tolerance swing rest

/-- Weights up to one millionth count as none. -/
def negligible : α := Scalar.ofInt 1 / Scalar.ofInt 1000000

def counts (level : PriceLevel α) : Bool := negligible < level.weight

end PriceLevel

namespace Levels
variable {α : Type} [Scalar α]

/-- A swing's candle and its price. -/
abbrev Turn (α : Type) := Candle α × α

/-- The places of extrema in a column of prices. -/
def turnsOf (side : Extrema.Side) (order : Nat) (price : Candle α → α) (series : List (Candle α)) :
    List (Nat × Turn α) :=
  let candles := series.toArray
  (Extrema.places (Extrema.wins side .inclusive) order (series.map price)).filterMap fun i =>
    candles[i]?.map fun c => (i, c, price c)

/-- All turns of a series by their places; a low comes before a high of the same candle. -/
def turns (order : Nat) (series : List (Candle α)) : List (Turn α) :=
  let lows := turnsOf .minimum order (·.low) series
  let highs := turnsOf .maximum order (·.high) series
  ((lows ++ highs).mergeSort fun a b => a.1 ≤ b.1).map (·.2)

/-- The age of a turn since the start of the series, in seconds. -/
def age (start : Instant) (t : Turn α) : α := Scalar.ofInt (Instant.secondsBetween start t.1.start)

/-- The swings of a series in rising order of their prices. -/
def swings (order : Nat) (start : Instant) (series : List (Candle α)) : List (PriceLevel α) :=
  let found := turns order series
  let total : α := Scalar.sum (found.map (age start))
  if total ≤ Scalar.zero then []
  else
    let weighed := found.map fun t => (⟨t.2, age start t / total, t.1.start⟩ : PriceLevel α)
    (weighed.filter PriceLevel.counts).mergeSort fun a b => Scalar.precedes a.price b.price

/-- The distance below which a swing is absorbed. -/
def tolerance (rules : LevelRules α) (series : List (Candle α)) : α :=
  (Scalar.highest (series.map (·.high)) - Scalar.lowest (series.map (·.low))) * rules.tolerance

/-- The levels of a series, in rising order. -/
def ofSeries (rules : LevelRules α) (series : List (Candle α)) : List (PriceLevel α) :=
  match series with
  | [] => []
  | first :: _ =>
    let merged := PriceLevel.merged (tolerance rules series) (swings rules.order first.start series)
    merged.filter PriceLevel.counts

end Levels
end TickerBoard

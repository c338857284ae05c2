import TickerBoard.Chart.Candle
import TickerBoard.Indicator.Extrema
import TickerBoard.Market.Divergence

/-! Detection of a divergence at the end of a candle series.

The last candle is still forming and never looked at. Of the closed ones the
three newest must form a peak of the closing price whose high is above the one
before it (bearish) or a trough whose low is below it (bullish), and the newest
strict extremum of the oscillator of that side must be at the middle one. A
walk goes over the extrema before it from the newest to the oldest and draws
candidates: one is passed over if the oscillator's slope to the end is looser
than that of the candidate drawn before. A candidate counts if one of its two
oscillator readings lies in the zone and oscillator and price slopes have
opposite signs; of those that count, the one with the widest angle between its
slopes is the start, and of equally wide ones the newest. -/
namespace TickerBoard

/-- How divergences are looked for. -/
structure DetectionRules (α : Type) where
  order : Nat
  overbought : α
  oversold : α
deriving Repr, DecidableEq

namespace DetectionRules

def standard : DetectionRules Float := ⟨3, 70.0, 30.0⟩

end DetectionRules

namespace Detection
open Divergence (Kind)
variable {α : Type} [Angular α]

/-- The pattern of the three newest closed candles, `c₁` the newest of them. -/
def pattern? (c₁ c₂ c₃ : Candle α) : Option Kind :=
  if c₁.closing < c₂.closing && c₃.closing < c₂.closing && c₃.high < c₂.high then some .bearish
  else if c₂.closing < c₁.closing && c₂.closing < c₃.closing && c₂.low < c₃.low then some .bullish
  else none

def side : Kind → Extrema.Side
  | .bearish => .maximum
  | .bullish => .minimum

/-- The price that a divergence of the kind compares. -/
def price (kind : Kind) (c : Candle α) : α :=
  match kind with
  | .bearish => c.high
  | .bullish => c.low

/-- A place of an oscillator extremum with its candle and its reading. -/
structure Extremum (α : Type) where
  candle : Candle α
  reading : α

def slope (t u : Instant) (rise : α) : α :=
  Angular.angle rise (Scalar.ofInt (Instant.secondsBetween t u))

/-- The angle between two directions, at most half a turn. -/
def angleBetween (a b : α) : α :=
  let d := Scalar.abs (a - b)
  Scalar.min d (Angular.turn - d)

/-- A walk over the extrema before the end. -/
structure Walk (α : Type) where
  /-- The oscillator's slope to the end from the candidate drawn last. -/
  bound : Option α := none
  /-- The widest candidate that counts so far, with its spread and its place. -/
  best : Option (α × Nat × Extremum α) := none

section Candidates
variable (rules : DetectionRules α) (kind : Kind) (finish : Extremum α)

def rsiSlope (start : Extremum α) : α :=
  slope start.candle.start finish.candle.start (finish.reading - start.reading)

def priceSlope (start : Extremum α) : α :=
  slope start.candle.start finish.candle.start
    (price kind finish.candle - price kind start.candle)

/-- The slope `a` is looser than the slope `b`. -/
def looser (a b : α) : Bool :=
  match kind with
  | .bearish => b < a
  | .bullish => a < b

def inZone (start : Extremum α) : Bool :=
  match kind with
  | .bearish => rules.overbought ≤ start.reading || rules.overbought ≤ finish.reading
  | .bullish => start.reading ≤ rules.oversold || finish.reading ≤ rules.oversold

def spread (start : Extremum α) : α :=
  angleBetween (rsiSlope finish start) (priceSlope kind finish start)

/-- The widest with a further candidate drawn. -/
def weigh (best : Option (α × Nat × Extremum α)) (e : Nat × Extremum α) :
    Option (α × Nat × Extremum α) :=
  if !inZone rules kind finish e.2 then best
  else if Scalar.zero ≤ rsiSlope finish e.2 * priceSlope kind finish e.2 then best
  else
    let width := spread kind finish e.2
    if best.all (·.1 < width) then some (width, e) else best

/-- Comes to the next older extremum. -/
def Walk.visit (w : Walk α) (e : Nat × Extremum α) : Walk α :=
  let s := rsiSlope finish e.2
  if w.bound.any (looser kind s ·) then w
  else { bound := some s, best := weigh rules kind finish w.best e }

end Candidates

/-- The extrema of the oscillator, newest first, with their places. -/
def extrema (order : Nat) (kind : Kind) (closed : List (Candle α)) : List (Nat × Extremum α) :=
  let wins := Extrema.winsPresent (Extrema.wins (side kind) .strict)
  let candles := closed.toArray
  (Extrema.places wins order (closed.map (·.rsi))).reverse.filterMap fun i => do
    let candle ← candles[i]?
    let reading ← candle.rsi
    pure (i, ⟨candle, reading⟩)

/-- Start and end of the divergence of the kind, if there is one. -/
def pair? (rules : DetectionRules α) (kind : Kind) (closed : List (Candle α)) :
    Option (Extremum α × Extremum α) :=
  match extrema rules.order kind closed with
  | [] => none
  | (place, finish) :: prior =>
    if place + 2 ≠ closed.length then none
    else
      let walk := prior.foldl (Walk.visit rules kind finish) {}
      walk.best.map fun (_, _, start) => (start, finish)

/-- Start, end and kind of the divergence at the end of a series. -/
def find? (rules : DetectionRules α) (series : List (Candle α)) :
    Option (Kind × Extremum α × Extremum α) :=
  let closed := series.dropLast
  match closed.reverse with
  | c₁ :: c₂ :: c₃ :: _ => do
    let kind ← pattern? c₁ c₂ c₃
    let (start, finish) ← pair? rules kind closed
    pure (kind, start, finish)
  | _ => none

def divergence (symbol : String) (kind : Kind) (day : Day) (start finish : Extremum α) :
    Divergence α where
  symbol := symbol
  kind := kind
  day := day
  start := start.candle.start
  startPrice := price kind start.candle
  startRsi := start.reading
  finish := finish.candle.start
  finishPrice := price kind finish.candle
  finishRsi := finish.reading

/-- The divergence at the end of a series, if there is one; no answer at all if its
end has no local day. -/
def detect? (symbol : String) (rules : DetectionRules α) (clock : SessionClock)
    (series : List (Candle α)) : Option (Option (Divergence α)) :=
  match find? rules series with
  | none => some none
  | some (kind, start, finish) =>
    (clock.day? finish.candle.start).map fun day => some (divergence symbol kind day start finish)

end Detection
end TickerBoard

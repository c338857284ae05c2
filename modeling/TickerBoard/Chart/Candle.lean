import TickerBoard.Market.Bar
import TickerBoard.Calendar.SessionClock
import TickerBoard.Indicator.Ema
import TickerBoard.Indicator.Rsi
import TickerBoard.Indicator.TrueRange

/-! Candles: bars gathered into intervals of a fixed width.

Intervals start at the multiples of their width since the epoch. A candle takes
the first opening price of its bars, the highest high, the lowest low, the last
closing price and the sum of their volumes as a word of 64 bits holds it; an
interval whose sum comes to nothing has no candle. Beside its prices a candle
carries the oscillator and the moving average of the closing prices up to it. -/
namespace TickerBoard

structure Candle (α : Type) where
  start : Instant
  opening : α
  high : α
  low : α
  closing : α
  volume : Nat
  rsi : Option α
  average : Option α
deriving Repr, DecidableEq

namespace Candle
variable {α : Type} [Scalar α]

def range (c : Candle α) : PriceRange α := ⟨c.high, c.low, c.closing⟩

/-! ### Gathering bars -/

/-- The width of an interval in seconds; no interval is shorter than a minute. -/
def width (minutes : Nat) : Nat := max minutes 1 * 60

/-- The second in which the interval of an instant starts. -/
def intervalStart (width : Nat) (t : Instant) : Int := t.seconds - t.seconds % width

/-- The candle of a first bar. An interval that starts before the calendar does is
marked by the bar itself. -/
def ofBar (start : Int) (b : Bar α) : Candle α :=
  ⟨(Instant.ofSeconds? start).getD b.time, b.opening, b.high, b.low, b.closing, b.volume, none, none⟩

/-- The candle with one more bar. A sum of volumes that no word has starts over from zero. -/
def extend (c : Candle α) (b : Bar α) : Candle α :=
  { c with
    high := Scalar.max c.high b.high
    low := Scalar.min c.low b.low
    closing := b.closing
    volume := (c.volume + b.volume) % Word.size 64 }

/-- Adds a bar to the candle of its interval. -/
def gather (width : Nat) (candles : Table Int (Candle α)) (b : Bar α) : Table Int (Candle α) :=
  let start := intervalStart width b.time
  candles.upsert start fun
    | some c => c.extend b
    | none => ofBar start b

/-- The candles of some bars, by time. -/
def resample (bars : List (Bar α)) (minutes : Nat) : List (Candle α) :=
  let candles := bars.foldl (gather (width minutes)) Table.empty
  candles.values.filter fun c => 0 < c.volume

/-! ### Indicator columns -/

def addIndicators (candles : List (Candle α)) (rsiPeriod averagePeriod : Nat) : List (Candle α) :=
  let closes := candles.map (·.closing)
  let columns := (Rsi.column closes rsiPeriod).zip (Ema.column closes averagePeriod)
  (candles.zip columns).map fun (c, rsi, average) => { c with rsi, average }

/-! ### Trading days -/

/-- Of candles with the newest first, those of the `limit` newest trading days that
occur, of which `seen` have been met. -/
def takeDays (clock : SessionClock) (limit : Nat) :
    List Day → List (Candle α) → Option (List (Candle α))
  | _, [] => some []
  | seen, c :: rest =>
    match clock.day? c.start with
    | none => none
    | some day =>
      if seen.contains day then (takeDays clock limit seen rest).map (c :: ·)
      else if limit ≤ seen.length then some []
      else (takeDays clock limit (day :: seen) rest).map (c :: ·)

/-- The candles of the last trading days that occur, at least of one. There is no
answer if a candle that has to be looked at has no local day. -/
def trimDays? (clock : SessionClock) (days : Nat) (candles : List (Candle α)) :
    Option (List (Candle α)) :=
  (takeDays clock (max days 1) [] candles.reverse).map List.reverse

def json (c : Candle Float) : Json :=
  .record [("time", .int c.start.seconds), ("open", .float c.opening), ("high", .float c.high),
    ("low", .float c.low), ("close", .float c.closing), ("volume", .int c.volume),
    ("rsi", .optional .float c.rsi), ("ma", .optional .float c.average)]

end Candle
end TickerBoard

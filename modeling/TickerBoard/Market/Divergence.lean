import TickerBoard.Market.Bar

/-! Divergences between a price and its oscillator.

A divergence joins two extrema of the oscillator between which price and
oscillator moved apart: a bearish one has the highs of their bars as prices, a
bullish one the lows. Its day is the trading day of its end. -/
namespace TickerBoard

namespace Divergence

inductive Kind
  | bullish
  | bearish
deriving Repr, DecidableEq

def Kind.name : Kind → String
  | .bullish => "Bullish"
  | .bearish => "Bearish"

end Divergence

structure Divergence (α : Type) where
  symbol : String
  kind : Divergence.Kind
  day : Day
  start : Instant
  startPrice : α
  startRsi : α
  finish : Instant
  finishPrice : α
  finishRsi : α
deriving Repr, DecidableEq

namespace Divergence

/-- Equality of all fields, in which the scalars compare as numbers. -/
def same {α : Type} [BEq α] (a b : Divergence α) : Bool :=
  a.symbol == b.symbol && a.kind == b.kind && a.day == b.day && a.start == b.start &&
    a.startPrice == b.startPrice && a.startRsi == b.startRsi && a.finish == b.finish &&
    a.finishPrice == b.finishPrice && a.finishRsi == b.finishRsi

def json (d : Divergence Float) : Json :=
  .record [("symbol", .text d.symbol), ("divergence", .text d.kind.name), ("day", .text d.day.text),
    ("start", .int d.start.seconds), ("start_price", .float d.startPrice),
    ("start_rsi", .float d.startRsi), ("end", .int d.finish.seconds),
    ("end_price", .float d.finishPrice), ("end_rsi", .float d.finishRsi)]

open Json.Written in
def ofWritten? (w : Json.Written) : Option (Divergence Float) := do
  let [symbol, kind, day, start, startPrice, startRsi, finish, finishPrice, finishRsi] ←
    w.fields? ["symbol", "divergence", "day", "start", "start_price", "start_rsi", "end",
      "end_price", "end_rsi"] | none
  pure {
    symbol := ← needed text? symbol
    kind := ← needed (choice? [("Bullish", .bullish), ("Bearish", .bearish)]) kind
    day := ← needed day? day
    start := ← needed seconds? start
    startPrice := ← needed float? startPrice
    startRsi := ← needed float? startRsi
    finish := ← needed seconds? finish
    finishPrice := ← needed float? finishPrice
    finishRsi := ← needed float? finishRsi }

end Divergence

/-- The pattern lists of one symbol and day by chart label. -/
abbrev DayRecord := Table String (List (Divergence Float))

namespace DayRecord

def json (r : DayRecord) : Json :=
  .record (r.entries.map fun (label, ds) => (label, .listOf Divergence.json ds))

def ofWritten? (w : Json.Written) : Option DayRecord :=
  w.tableOf? (Json.Written.listOf? Divergence.ofWritten?)

end DayRecord
end TickerBoard

import TickerBoard.Scalar
import TickerBoard.Json.Decode

/-! Price bars: the trades of one symbol in one interval. -/
namespace TickerBoard

/-- The prices and the volume of an interval that begins at `time`. -/
structure Bar (α : Type) where
  symbol : String
  time : Instant
  opening : α
  high : α
  low : α
  closing : α
  volume : Nat
deriving Repr, DecidableEq

namespace Bar

/-- Something was traded in the interval. -/
def isTraded {α : Type} (b : Bar α) : Bool := 0 < b.volume

def json (b : Bar Float) : Json :=
  .record [("symbol", .text b.symbol), ("timestamp", .int b.time.seconds),
    ("open", .float b.opening), ("high", .float b.high), ("low", .float b.low),
    ("close", .float b.closing), ("volume", .int b.volume)]

open Json.Written in
def ofWritten? (w : Json.Written) : Option (Bar Float) := do
  let [symbol, time, opening, high, low, closing, volume] ←
    w.fields? ["symbol", "timestamp", "open", "high", "low", "close", "volume"] | none
  pure {
    symbol := ← needed text? symbol
    time := ← needed seconds? time
    opening := ← needed float? opening
    high := ← needed float? high
    low := ← needed float? low
    closing := ← needed float? closing
    volume := ← needed (nat? 64) volume }

end Bar
end TickerBoard

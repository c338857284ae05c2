import TickerBoard.Market.Bar

/-! Price levels: horizontal lines of support and resistance. -/
namespace TickerBoard

/-- A level with its share of the total recency weight and its earliest swing. -/
structure PriceLevel (α : Type) where
  price : α
  weight : α
  anchor : Instant
deriving Repr, DecidableEq

namespace PriceLevel

def json (l : PriceLevel Float) : Json :=
  .record [("price", .float l.price), ("weight", .float l.weight), ("at", .int l.anchor.seconds)]

open Json.Written in
def ofWritten? (w : Json.Written) : Option (PriceLevel Float) := do
  let [price, weight, anchor] ← w.fields? ["price", "weight", "at"] | none
  pure {
    price := ← needed float? price
    weight := ← needed float? weight
    anchor := ← needed seconds? anchor }

end PriceLevel
end TickerBoard

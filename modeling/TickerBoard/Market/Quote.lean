import TickerBoard.Json.Decode

/-! Quotes and the top of the book.

A quote is an update of the best bid, the best ask and the last price of a
symbol. It carries what changed; an absent price says nothing. The top of the
book is what the updates so far add up to: an update's prices replace the known
ones, and a price once known stays known. -/
namespace TickerBoard

structure Quote where
  symbol : String
  bid : Option Float
  ask : Option Float
  last : Option Float
deriving Repr, DecidableEq

namespace Quote

def json (q : Quote) : Json :=
  .record [("symbol", .text q.symbol), ("bid", .optional .float q.bid),
    ("ask", .optional .float q.ask), ("last", .optional .float q.last)]

open Json.Written in
def ofWritten? (w : Json.Written) : Option Quote := do
  let [symbol, bid, ask, last] ← w.fields? ["symbol", "bid", "ask", "last"] | none
  pure {
    symbol := ← needed text? symbol
    bid := ← orElse (optional? float?) none bid
    ask := ← orElse (optional? float?) none ask
    last := ← orElse (optional? float?) none last }

/-- The prices of `update` over those of `known`, under the name that is known. -/
def merge (known update : Quote) : Quote :=
  { known with
    bid := update.bid <|> known.bid
    ask := update.ask <|> known.ask
    last := update.last <|> known.last }

end Quote

/-- The merged quote of one symbol, absent before the first update. -/
structure TopOfBook where
  quote : Option Quote
deriving Repr, DecidableEq

namespace TopOfBook

def empty : TopOfBook := ⟨none⟩

/-- The merged quote after an update. -/
def view (t : TopOfBook) (update : Quote) : Quote :=
  match t.quote with
  | none => update
  | some known => known.merge update

def update (t : TopOfBook) (u : Quote) : TopOfBook := ⟨some (t.view u)⟩

end TopOfBook
end TickerBoard

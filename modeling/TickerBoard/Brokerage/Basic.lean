import TickerBoard.Market.Account
import TickerBoard.Market.Options
import TickerBoard.Stream.Exchange
import TickerBoard.Market.Bar
import TickerBoard.Market.Quote

/-! Brokerages: where history, symbols and contracts come from.

A brokerage is asked one thing at a time, and every question may change it. Its
streams deliver bars and quotes in batches. -/
namespace TickerBoard

/-- A batch from a stream. -/
inductive StreamEvent
  | bars (bars : List (Bar Float))
  | quotes (quotes : List Quote)
deriving Repr, DecidableEq

class Brokerage (β : Type) extends Exchange β where
  account : β → Account
  /-- The ticker that a query means, if there is one. -/
  resolve : β → String → β × Except Fault (Option String)
  /-- The bars of a symbol from one instant up to another, which is now. -/
  history : β → String → (since now : Instant) → β × Except Fault (List (Bar Float))
  chains : β → OptionsQuery → β × Except Fault ExpiryChains

/-- The traded bars of the history. -/
def Brokerage.tradedHistory {β : Type} [Brokerage β] (b : β) (symbol : String) (since now : Instant) :
    β × Except Fault (List (Bar Float)) :=
  let (b, result) := Brokerage.history b symbol since now
  (b, result.map (·.filter Bar.isTraded))

end TickerBoard

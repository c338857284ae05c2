import TickerBoard.Snapshot
import TickerBoard.Market.Quote
import TickerBoard.Market.Account

/-! What viewers are told: an action and its data. -/
namespace TickerBoard

inductive ViewerEvent
  | updateChart (snapshot : Snapshot Float)
  | updateQuote (quote : Quote)
  | unsubscribeChart (symbol : String)
  | updateAccount (account : Account)
deriving Repr, DecidableEq

namespace ViewerEvent

def action : ViewerEvent → String
  | updateChart _ => "UPDATE_CHART"
  | updateQuote _ => "UPDATE_QUOTE"
  | unsubscribeChart _ => "UNSUBSCRIBE_CHART"
  | updateAccount _ => "UPDATE_ACCOUNT"

def data : ViewerEvent → Json
  | updateChart snapshot => snapshot.json
  | updateQuote quote => quote.json
  | unsubscribeChart symbol => .record [("symbol", .text symbol)]
  | updateAccount account => account.json

/-- The text that is sent. -/
def payload (e : ViewerEvent) : String :=
  (Json.record [("action", .text e.action), ("data", e.data)]).compact

end ViewerEvent
end TickerBoard

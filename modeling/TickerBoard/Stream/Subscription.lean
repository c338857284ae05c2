import TickerBoard.Market.Bar
import TickerBoard.Market.Quote
import TickerBoard.Refusal

/-! Subscriptions: which symbols are streamed, and who listens to them.

Bars go to the listeners of their symbol's subscription, each bar to all of
them before the next bar; quotes go to the symbol's quote listener. What comes
in for a symbol without a subscription goes nowhere. -/
namespace TickerBoard

/-- Who listens to the bars of a symbol. -/
inductive ChartListener
  /-- The symbol's monitor. -/
  | analytics
  /-- The store of bars. -/
  | archive
deriving Repr, DecidableEq

structure Subscription where
  charts : List ChartListener
  /-- The top of the book listens to the symbol's quotes. -/
  quotes : Bool
deriving Repr, DecidableEq

namespace Subscription

/-- Everyone listens. -/
def full : Subscription := ⟨[.analytics, .archive], true⟩

end Subscription

/-- What leaving the streams of a symbol came to. -/
structure Teardown where
  /-- The chart stream carries the symbol no more. -/
  chartsRemoved : Bool
  result : Except Fault Unit

/-- The subscriptions by symbol. -/
structure Registry where
  entries : Table String Subscription
deriving Repr, DecidableEq

namespace Registry

def empty : Registry := ⟨.empty⟩

def find? (r : Registry) (symbol : String) : Option Subscription := r.entries.find? symbol

def isSubscribed (r : Registry) (symbol : String) : Bool := (r.find? symbol).isSome

def insert (r : Registry) (symbol : String) (s : Subscription) : Except Refusal Registry :=
  if r.isSubscribed symbol then .error (.alreadySubscribed symbol)
  else .ok ⟨r.entries.insert symbol s⟩

/-- Takes out what a teardown ended, and answers whether nothing is left of the symbol.
A subscription that lost only its charts keeps its quotes. -/
def detach (r : Registry) (symbol : String) (t : Teardown) : Registry × Bool :=
  match t.result with
  | .ok () => (⟨r.entries.erase symbol⟩, true)
  | .error _ =>
    if t.chartsRemoved then (⟨r.entries.modify symbol fun s => { s with charts := [] }⟩, false)
    else (r, false)

/-- Each bar with the listeners of its symbol, in turn. -/
def routeBars (r : Registry) (bars : List (Bar Float)) : List (ChartListener × Bar Float) :=
  bars.flatMap fun b =>
    match r.find? b.symbol with
    | some s => s.charts.map fun listener => (listener, b)
    | none => []

/-- The quotes that are listened to. -/
def routeQuotes (r : Registry) (quotes : List Quote) : List Quote :=
  quotes.filter fun q => (r.find? q.symbol).any (·.quotes)

end Registry
end TickerBoard

/-! Why a request is refused.

A fault is something that went wrong outside the board: in the store, at the
brokerage, on the stream. Its text comes with the texts of its causes. A
refusal is the board's answer to a request that it does not carry out, with the
status that tells web clients whose turn it is. A request may also fail because
its dates leave the calendar, which is no answer to anybody. -/
namespace TickerBoard

/-- The text of a fault, and below it those of its causes. -/
structure Fault where
  text : String
  causes : List String
deriving Repr, DecidableEq

namespace Fault

/-- A fault without a known cause. -/
def plain (text : String) : Fault := ⟨text, []⟩

/-- The fault that `f` is the cause of. -/
def under (f : Fault) (text : String) : Fault := ⟨text, f.text :: f.causes⟩

/-- The texts of the fault and its causes in one line. -/
def chain (f : Fault) : String := ": ".intercalate (f.text :: f.causes)

end Fault

inductive Refusal
  | invalidSymbol (symbol : String)
  | alreadySubscribed (symbol : String)
  | notSubscribed (symbol : String)
  | noHistory (symbol : String)
  /-- A side of an options chain is empty, or no expiry has both sides. -/
  | emptyChain (symbol side : String)
  | streamRequest (fault : Fault)
  | adapter (fault : Fault)
  | engineStopped
deriving Repr, DecidableEq

namespace Refusal

def message : Refusal → String
  | invalidSymbol symbol => symbol ++ " is not a valid ticker"
  | alreadySubscribed symbol => symbol ++ " is already subscribed"
  | notSubscribed symbol => symbol ++ " is not subscribed"
  | noHistory symbol => "no price history found for " ++ symbol
  | emptyChain symbol side => "options chain for " ++ symbol ++ " has no " ++ side
  | streamRequest fault => "stream request rejected: " ++ fault.chain
  | adapter fault => fault.text
  | engineStopped => "analytics engine is not running"

/-- The status of the web answer. -/
def status : Refusal → Nat
  | invalidSymbol _ | alreadySubscribed _ | notSubscribed _ => 400
  | noHistory _ | emptyChain _ _ => 404
  | streamRequest _ | adapter _ => 502
  | engineStopped => 503

end Refusal

/-- Why a request has no result. -/
inductive Failure
  | refused (r : Refusal)
  /-- A date of the request is not in the calendar. -/
  | outsideCalendar
deriving Repr, DecidableEq

/-- The value, where the calendar has it. -/
def Failure.inCalendar {α : Type} : Option α → Except Failure α
  | some a => .ok a
  | none => .error .outsideCalendar

end TickerBoard

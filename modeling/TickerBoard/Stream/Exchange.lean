import TickerBoard.Refusal

/-! The exchange's streams and the requests that change them.

There is a stream of charts and one of quotes. The first request of a kind
opens its stream with some symbols; later ones add symbols or remove them. The
exchange may reject any request. -/
namespace TickerBoard

inductive StreamKind
  | chart
  | quote
deriving Repr, DecidableEq

inductive StreamOp
  | opening
  | add
  | remove
deriving Repr, DecidableEq

structure StreamRequest where
  kind : StreamKind
  op : StreamOp
  symbols : List String
deriving Repr, DecidableEq

def StreamKind.name : StreamKind → String
  | .chart => "Chart"
  | .quote => "Quote"

def StreamOp.name : StreamOp → String
  | .opening => "Open"
  | .add => "Add"
  | .remove => "Remove"

/-- What takes stream requests. -/
class Exchange (χ : Type) where
  request : χ → StreamRequest → χ × Except Fault Unit

/-- An exchange that rejects the requests it is told to, and keeps those it takes. -/
structure ScriptedExchange where
  rejecting : List (StreamKind × StreamOp)
  /-- The requests taken, oldest first. -/
  taken : List StreamRequest
deriving Repr, DecidableEq

namespace ScriptedExchange

def request (x : ScriptedExchange) (r : StreamRequest) : ScriptedExchange × Except Fault Unit :=
  if x.rejecting.contains (r.kind, r.op) then
    (x, .error (.plain ("rejected " ++ r.kind.name ++ " " ++ r.op.name)))
  else ({ x with taken := x.taken ++ [r] }, .ok ())

instance : Exchange ScriptedExchange := ⟨request⟩

end ScriptedExchange
end TickerBoard

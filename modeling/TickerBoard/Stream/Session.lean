import TickerBoard.Stream.Exchange
import TickerBoard.Stream.Subscription

/-! The session with the exchange: which requests a subscription takes.

The session remembers which streams were opened. A symbol enters the chart
stream first and then the quote stream; if the second is rejected, the first is
undone, and a rejected undoing is let go. It leaves in the same order, and
stops at the first rejection. -/
namespace TickerBoard

structure StreamSession where
  /-- The kinds of stream that were opened. -/
  opened : List StreamKind
deriving Repr, DecidableEq

namespace StreamSession
variable {χ : Type} [Exchange χ]

def start : StreamSession := ⟨[]⟩

def isOpen (s : StreamSession) (kind : StreamKind) : Bool := s.opened.contains kind

/-- The operation that brings a symbol into a stream. -/
def entering (s : StreamSession) (kind : StreamKind) : StreamOp :=
  if s.isOpen kind then .add else .opening

/-- Brings a symbol into the stream of a kind. -/
def enterKind (s : StreamSession) (x : χ) (kind : StreamKind) (symbol : String) :
    StreamSession × χ × Except Fault Unit :=
  match Exchange.request x ⟨kind, s.entering kind, [symbol]⟩ with
  | (x, .error f) => (s, x, .error f)
  | (x, .ok ()) => (if s.isOpen kind then s else ⟨kind :: s.opened⟩, x, .ok ())

def leaveKind (x : χ) (kind : StreamKind) (symbol : String) : χ × Except Fault Unit :=
  Exchange.request x ⟨kind, .remove, [symbol]⟩

/-- Brings a symbol into the stream of a kind, if that is wanted. -/
def enterIf (wanted : Bool) (s : StreamSession) (x : χ) (kind : StreamKind) (symbol : String) :
    StreamSession × χ × Except Fault Unit :=
  if wanted then s.enterKind x kind symbol else (s, x, .ok ())

/-- Brings a symbol into the streams that its subscription listens to. -/
def enter (s : StreamSession) (x : χ) (symbol : String) (sub : Subscription) :
    StreamSession × χ × Except Fault Unit :=
  let charted := !sub.charts.isEmpty
  match enterIf charted s x .chart symbol with
  | (s, x, .error f) => (s, x, .error f)
  | (s, x, .ok ()) =>
    match enterIf sub.quotes s x .quote symbol with
    | (s, x, .ok ()) => (s, x, .ok ())
    | (s, x, .error f) =>
      (s, if charted then (leaveKind x .chart symbol).1 else x, .error f)

/-- Takes a symbol out of the stream of a kind, if it is there. -/
def leaveIf (wanted : Bool) (x : χ) (kind : StreamKind) (symbol : String) : χ × Except Fault Unit :=
  if wanted then leaveKind x kind symbol else (x, .ok ())

/-- Takes a symbol out of the streams that its subscription listens to. -/
def leave (x : χ) (symbol : String) (sub : Subscription) : χ × Teardown :=
  match leaveIf (!sub.charts.isEmpty) x .chart symbol with
  | (x, .error f) => (x, ⟨false, .error f⟩)
  | (x, .ok ()) =>
    let (x, result) := leaveIf sub.quotes x .quote symbol
    (x, ⟨true, result⟩)

end StreamSession
end TickerBoard

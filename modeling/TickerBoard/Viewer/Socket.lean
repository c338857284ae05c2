import TickerBoard.Service

/-! Viewer sockets.

A viewer joins the audience first and is greeted then, so that nothing published
in between is lost; if the desk has stopped there is no greeting, and if there
can be no queue no joining, and the viewer is lost. From then on a viewer is sent what waits for it, its pings are
answered, and whatever else it says is passed over until it closes. -/
namespace TickerBoard

/-- A message from a viewer. -/
inductive ViewerMessage
  | text (s : String)
  | binary (bytes : List UInt8)
  | ping (bytes : List UInt8)
  | close
deriving Repr, DecidableEq

/-- A message to a viewer. -/
inductive ServerMessage
  | payload (text : String)
  | pong (bytes : List UInt8)
  | close
deriving Repr, DecidableEq

namespace Service
variable {σ β : Type} [Store σ] [Brokerage β]

/-- Greets a viewer that has joined; without a greeting it has to leave. -/
def welcome (s : Service σ β) : Service σ β × Option (Nat × List ServerMessage) :=
  match s.audience.join? with
  | none => (s, none)
  | some (audience, id) =>
    match (greeting (σ := σ) (β := β)).run.run { s with audience } with
    | (.ok events, s) => (s, some (id, events.map fun e => .payload e.payload))
    | (.error _, s) => ({ s with audience := s.audience.leave id }, none)

/-- Sends a viewer what waits for it. -/
def relay (s : Service σ β) (id : Nat) : Service σ β × List ServerMessage :=
  let (audience, payloads) := s.audience.drain id
  ({ s with audience }, payloads.map .payload)

/-- Takes a message of a viewer and answers it. -/
def hear (s : Service σ β) (id : Nat) : ViewerMessage → Service σ β × List ServerMessage
  | .ping bytes => (s, [.pong bytes])
  | .close => ({ s with audience := s.audience.leave id }, [.close])
  | .text _ | .binary _ => (s, [])

end Service
end TickerBoard

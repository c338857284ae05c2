import TickerBoard.Brokerage.Live.Wire

/-! The session on a live stream.

Every command gets an identifier of its own, counted from one, and waits for
the first response that bears it. A frame is read as a whole: a notification is
passed over, responses are settled in their order, then the data goes to the
receiver. When the stream ends, or nobody receives its data any more, or a
command cannot be written, the session is over and the commands that still wait
fail. -/
namespace TickerBoard

/-- What comes from the server. -/
inductive Frame
  | text (s : String)
  | binary (bytes : List UInt8)
  | ping (bytes : List UInt8)
  | close
  /-- The connection is lost. -/
  | hangup
deriving Repr, DecidableEq

structure Streamer where
  details : Live.StreamDetails
  /-- The identifier of the next command. -/
  nextId : Nat
  /-- The commands that wait for a response, oldest first. -/
  pending : List Nat
  receiverDropped : Bool
  isOver : Bool
deriving Repr, DecidableEq

namespace Streamer

/-- A command is settled. -/
abbrev Settled := Nat × Except LiveFault Unit

def start (details : Live.StreamDetails) : Streamer := ⟨details, 1, [], false, false⟩

/-- Sends a command and answers its identifier and its message. -/
def send (s : Streamer) (r : StreamRequest) : Streamer × Except LiveFault (Nat × Json) :=
  if s.isOver then (s, .error .streamerGone)
  else
    ({ s with nextId := s.nextId + 1, pending := s.pending ++ [s.nextId] },
      .ok (s.nextId, Live.requestCommand s.details r s.nextId))

/-- Settles the command that a response answers. -/
def settle (s : Streamer) (r : Live.Response) : Streamer × List Settled :=
  if s.pending.contains r.id then
    ({ s with pending := s.pending.filter (· ≠ r.id) }, [(r.id, r.outcome)])
  else (s, [])

def settleAll (s : Streamer) : List Live.Response → Streamer × List Settled
  | [] => (s, [])
  | r :: rest =>
    let (s, first) := s.settle r
    let (s, others) := s.settleAll rest
    (s, first ++ others)

/-- Ends the session: what waits fails. -/
def finish (s : Streamer) : Streamer × List Settled :=
  ({ s with pending := [], isOver := true }, s.pending.map (·, .error .requestDropped))

/-- Fails a command that cannot be written, and ends the session. -/
def fail (s : Streamer) (cause : String) : Streamer × List Settled :=
  if s.isOver then (s, [])
  else
    let (ended, failed) := { s with nextId := s.nextId + 1 }.finish
    (ended, (s.nextId, .error (.unwritten cause)) :: failed)

/-- Takes a message: answers what it settles and what the receiver gets. -/
def take (s : Streamer) (message : Json) : Streamer × List Settled × List StreamEvent :=
  if (message.get? "notify").isSome then (s, [], [])
  else
    let (s, settled) := s.settleAll (Live.Response.ofFrame message)
    let events := Live.eventsOf (message.get "data")
    if s.receiverDropped && !events.isEmpty then
      let (s, failed) := s.finish
      (s, settled ++ failed, [])
    else (s, settled, events)

/-- Takes a frame from the server. -/
def receive (s : Streamer) (f : Frame) : Streamer × List Settled × List StreamEvent :=
  if s.isOver then (s, [], [])
  else
    match f with
    | .text text =>
      match Json.ofText? text with
      | some message => s.take message
      | none => (s, [], [])
    | .binary _ | .ping _ => (s, [], [])
    | .close | .hangup =>
      let (s, failed) := s.finish
      (s, failed, [])

def receiveAll (s : Streamer) : List Frame → Streamer × List Settled × List StreamEvent
  | [] => (s, [], [])
  | f :: rest =>
    let (s, settled, events) := s.receive f
    let (s, settled', events') := s.receiveAll rest
    (s, settled ++ settled', events ++ events')

/-! ### Logging in -/

/-- Reads frames up to the response to the login; what stands after it belongs to the session.
A stream that was closed in order is told apart from a lost one. -/
def awaitLogin : List Frame → Except LiveFault (List Frame)
  | [] | .close :: _ => .error .closedBeforeLogin
  | .hangup :: _ => .error .loginReadError
  | .text text :: rest =>
    match (Json.ofText? text).bind fun m => (Live.Response.ofFrame m).find? (·.id == 0) with
    | none => awaitLogin rest
    | some r => if r.code = 0 then .ok rest else .error (.loginRejected r.code r.text)
  | .binary _ :: rest | .ping _ :: rest => awaitLogin rest

end Streamer
end TickerBoard

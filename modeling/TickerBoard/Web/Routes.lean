import TickerBoard.Service
import TickerBoard.Web.RequestLine

/-! The web interface.

A path that is not known is answered with status 404, a known one with another
method with 405, and a query that cannot be read with 400; none of these
answers has a body. A HEAD request is answered like a GET request, less the
body, and an OPTIONS request is a question that browsers ask in advance and is
always answered. A refusal has its own status and says why. -/
namespace TickerBoard.Web

structure Response where
  status : Nat
  /-- The text of a JSON value. -/
  body : Option String
deriving Repr, DecidableEq

namespace Response

def empty (status : Nat) : Response := ⟨status, none⟩

def ofJson (status : Nat) (j : Json) : Response := ⟨status, some j.compact⟩

def refusal (r : Refusal) : Response := ofJson r.status (.record [("error", .text r.message)])

end Response

/-- What the paths of the interface lead to. -/
inductive Endpoint
  | health
  | state
  | addTicker
  | removeTicker
  | optionsChain
  | socket
deriving Repr, DecidableEq

namespace Endpoint

def ofPath? (path : String) : Option Endpoint :=
  [("/api/v1/health", health), ("/api/v1/state", state), ("/api/v1/ticker/add", addTicker),
    ("/api/v1/ticker/remove", removeTicker), ("/api/v1/options_chain", optionsChain),
    ("/api/v1/ws", socket)].lookup path

def method : Endpoint → String
  | addTicker => "PUT"
  | removeTicker => "DELETE"
  | health | state | optionsChain | socket => "GET"

end Endpoint

section Answers
variable {σ β : Type} [Store σ] [Brokerage β]

/-- The answer of a request that was carried out or refused. There is none where dates
leave the calendar. -/
def respond {α : Type} (write : α → Json) (request : Request σ β α) (s : Service σ β) :
    Service σ β × Option Response :=
  match (request.run).run s with
  | (.ok a, s) => (s, some (.ofJson 200 (write a)))
  | (.error (.refused r), s) => (s, some (.refusal r))
  | (.error .outsideCalendar, s) => (s, none)

def health (now : Instant) (s : Service σ β) : Json :=
  .record [("status", .text "ok"), ("viewers", .int s.audience.viewerCount),
    ("server_time", .int now.ms)]

def removed (symbol : String) : Json :=
  .record [("symbol", .text symbol), ("message", .text (symbol ++ " unsubscribed"))]

/-- What is asked of the options endpoint. -/
structure ChainQuery where
  ticker : String
  strikeCount : Option Nat
  first : Option Day
  last : Option Day

def ChainQuery.ofQuery? (q : Query) : Option ChainQuery := do
  pure ⟨← q.needed? "ticker", ← q.optional? Query.count? "strike_count",
    ← q.optional? Day.ofText? "from", ← q.optional? Day.ofText? "to"⟩

/-- The answer of an endpoint to its own method. A viewer's socket cannot be had by a
plain request. -/
def serve (now : Instant) (e : Endpoint) (query : Query) (s : Service σ β) :
    Service σ β × Option Response :=
  match e with
  | .health => (s, some (.ofJson 200 (health now s)))
  | .state => respond (.listOf Snapshot.json) Service.snapshots s
  | .addTicker =>
    match query.needed? "ticker" with
    | none => (s, some (.empty 400))
    | some ticker => respond Snapshot.json (Service.subscribe now ticker) s
  | .removeTicker =>
    match query.needed? "ticker" with
    | none => (s, some (.empty 400))
    | some ticker => respond removed (Service.unsubscribe ticker) s
  | .optionsChain =>
    match ChainQuery.ofQuery? query with
    | none => (s, some (.empty 400))
    | some q =>
      respond OptionsChain.json (Service.optionsChain now q.ticker q.strikeCount q.first q.last) s
  | .socket => (s, some (.empty 400))

/-- The answer to a request for what HEAD asks for. -/
def serveHead (now : Instant) (e : Endpoint) (query : Query) (s : Service σ β) :
    Service σ β × Option Response :=
  if e = .socket then (s, some (.empty 405))
  else
    let (s, response) := serve now e query s
    (s, response.map fun r => .empty r.status)

/-- Answers a web request. -/
def answer (now : Instant) (line : RequestLine) (s : Service σ β) : Service σ β × Option Response :=
  if line.method = "OPTIONS" then (s, some (.empty 200))
  else
    match Endpoint.ofPath? line.path with
    | none => (s, some (.empty 404))
    | some e =>
      if line.method = e.method then serve now e line.query s
      else if line.method = "HEAD" ∧ e.method = "GET" then serveHead now e line.query s
      else (s, some (.empty 405))

end Answers
end TickerBoard.Web

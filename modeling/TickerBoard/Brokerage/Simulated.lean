import TickerBoard.Brokerage.Basic
import TickerBoard.Settings.Basic

/-! The simulated brokerage, which holds everything in memory.

It knows the symbols that it has a history of. Stream batches are pushed by
hand or replayed from a file, a batch for each instant; they wait until they
are taken, and are refused once nobody takes them any more. It keeps every
stream request it takes and can be told to reject them all. -/
namespace TickerBoard

structure SimulatedBrokerage where
  account : Account
  history : Table String (List (Bar Float))
  chains : Table String ExpiryChains
  /-- The stream requests taken, oldest first. -/
  requests : List StreamRequest
  rejecting : Bool
  /-- The batches that wait, oldest first. -/
  events : List StreamEvent
  receiverDropped : Bool
deriving Repr, DecidableEq

namespace SimulatedBrokerage

def ofAccount (account : Account) : SimulatedBrokerage := ⟨account, .empty, .empty, [], false, [], false⟩

/-- Sets the history of a symbol, in the order of the times. -/
def insertHistory (b : SimulatedBrokerage) (symbol : String) (bars : List (Bar Float)) :
    SimulatedBrokerage :=
  let sorted := bars.mergeSort fun x y => x.time.ms ≤ y.time.ms
  { b with history := b.history.insert (Text.upper symbol) sorted }

def insertChains (b : SimulatedBrokerage) (symbol : String) (chains : ExpiryChains) :
    SimulatedBrokerage :=
  { b with chains := b.chains.insert (Text.upper symbol) chains }

/-! ### The stream -/

def push (b : SimulatedBrokerage) (e : StreamEvent) : SimulatedBrokerage × Except Fault Unit :=
  if b.receiverDropped then (b, .error (.plain "stream receiver dropped"))
  else ({ b with events := b.events ++ [e] }, .ok ())

/-- Takes the batches that wait. -/
def takeEvents (b : SimulatedBrokerage) : SimulatedBrokerage × List StreamEvent :=
  ({ b with events := [] }, b.events)

def dropReceiver (b : SimulatedBrokerage) : SimulatedBrokerage :=
  { b with events := [], receiverDropped := true }

/-- Bars in batches of one time, by the times. -/
def batches (bars : List (Bar Float)) : List (List (Bar Float)) :=
  let add (t : Table Instant (List (Bar Float))) (bar : Bar Float) :=
    t.upsert bar.time fun batch => batch.getD [] ++ [bar]
  (bars.foldl add .empty).values

/-- Pushes bars batch by batch. -/
def replay (b : SimulatedBrokerage) (bars : List (Bar Float)) : SimulatedBrokerage :=
  (batches bars).foldl (fun b batch => (b.push (.bars batch)).1) b

/-! ### Questions -/

def request (b : SimulatedBrokerage) (r : StreamRequest) : SimulatedBrokerage × Except Fault Unit :=
  if b.rejecting then
    (b, .error (.plain ("simulated stream rejected " ++ r.op.name ++ " " ++ r.kind.name)))
  else ({ b with requests := b.requests ++ [r] }, .ok ())

def resolve? (b : SimulatedBrokerage) (query : String) : Option String :=
  let symbol := Text.upper (Text.trim query)
  if b.history.contains symbol then some symbol else none

def barsSince (b : SimulatedBrokerage) (symbol : String) (since : Instant) : List (Bar Float) :=
  (b.history.findD symbol []).filter fun bar => since.ms ≤ bar.time.ms

def chainsFor (b : SimulatedBrokerage) (q : OptionsQuery) : ExpiryChains :=
  (b.chains.findD q.symbol .empty).within q.first q.last

instance : Brokerage SimulatedBrokerage where
  request := request
  account b := b.account
  resolve b query := (b, .ok (b.resolve? query))
  history b symbol since _ := (b, .ok (b.barsSince symbol since))
  chains b q := (b, .ok (b.chainsFor q))

/-! ### Settings -/

inductive HistoryFault
  | read (path : String)
  | parse (path : String)
deriving Repr, DecidableEq

def HistoryFault.message : HistoryFault → String
  | read path => "failed to read simulation history from " ++ path
  | parse path => "failed to parse simulation history from " ++ path

/-- The bars of a history file, each under the symbol of its list. -/
def historyOf? (w : Json.Written) : Option (List (Bar Float)) :=
  (w.tableOf? (Json.Written.listOf? Bar.ofWritten?)).map fun lists =>
    lists.entries.flatMap fun (symbol, bars) =>
      bars.map fun bar => { bar with symbol := Text.upper symbol }

def loadHistory (read? : String → Option String) (path : String) :
    Except HistoryFault (List (Bar Float)) :=
  match read? path with
  | none => .error (.read path)
  | some text =>
    match (Json.Written.ofText? text).bind historyOf? with
    | none => .error (.parse path)
    | some bars => .ok bars

def bySymbol (bars : List (Bar Float)) : Table String (List (Bar Float)) :=
  bars.foldl (fun t bar => t.upsert bar.symbol fun list => list.getD [] ++ [bar]) .empty

/-- A brokerage as configured, and the bars that are left to be replayed. -/
def ofSettings (read? : String → Option String) (s : SimulationSettings) :
    Except HistoryFault (SimulatedBrokerage × List (Bar Float)) :=
  let b := ofAccount ⟨"SIM", s.balance⟩
  match s.historyFile with
  | none => .ok (b, [])
  | some path =>
    match loadHistory read? path with
    | .error e => .error e
    | .ok bars =>
      let isHistory (bar : Bar Float) : Bool := s.replayStart.all (·.after bar.time)
      let history := bySymbol (bars.filter isHistory)
      .ok (history.entries.foldl (fun b e => b.insertHistory e.1 e.2) b,
        bars.filter fun bar => !isHistory bar)

/-- A brokerage as configured, with the replay under way. -/
def connect (read? : String → Option String) (s : SimulationSettings) :
    Except HistoryFault SimulatedBrokerage :=
  (ofSettings read? s).map fun (b, rest) => b.replay rest

end SimulatedBrokerage
end TickerBoard

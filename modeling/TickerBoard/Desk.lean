import TickerBoard.Stream.Subscription
import TickerBoard.Storage.Writer
import TickerBoard.Viewer.Event

/-! The desk: the state that the stream and the requests work on.

The desk owns the registry, a slot with a monitor for every symbol with chart
listeners, and the top of the book for every symbol. Deriving what a monitor
shows takes time, so the desk hands the work out: a slot has at most one
recompute under way, and bars that arrive meanwhile wait in its backlog. When a
recompute comes back, its result goes into the monitor, and the backlog is fed
to the monitor up to the first bar that it takes. Every slot has an epoch of
its own, and a recompute that comes back for another epoch, or for no slot,
changes nothing. What the desk wants published or stored is the effect of a
step; nothing is waited for. -/
namespace TickerBoard

structure Slot where
  monitor : Monitor Float
  epoch : Nat
  /-- A recompute is under way. -/
  inFlight : Bool
  /-- The bars that arrived meanwhile, oldest first. -/
  backlog : List (Bar Float)
deriving Repr, DecidableEq

/-- A recompute: the monitor as it was when it took the bar. -/
structure Recompute where
  symbol : String
  epoch : Nat
  monitor : Monitor Float
deriving Repr, DecidableEq

namespace Desk

inductive Effect
  | publish (e : ViewerEvent)
  | store (job : WriteJob)
deriving Repr, DecidableEq

end Desk

structure Desk where
  registry : Registry
  slots : Table String Slot
  books : Table String TopOfBook
  /-- The epoch of the newest slot. -/
  lastEpoch : Nat
  /-- The recomputes under way, in the order they were begun. -/
  outstanding : List Recompute
deriving Repr, DecidableEq

namespace Slot

/-- The slot of a new monitor. -/
def fresh (monitor : Monitor Float) (epoch : Nat) : Slot := ⟨monitor, epoch, false, []⟩

/-- Feeds bars to an idle monitor up to the first that it takes; the others wait. -/
def feed (s : Slot) : List (Bar Float) → Slot
  | [] => { s with inFlight := false, backlog := [] }
  | b :: rest =>
    match s.monitor.accept b with
    | some monitor => { s with monitor, inFlight := true, backlog := rest }
    | none => s.feed rest

/-- Takes a bar that has arrived; while a recompute is under way it waits. -/
def arrive (s : Slot) (b : Bar Float) : Slot :=
  if s.inFlight then { s with backlog := s.backlog ++ [b] }
  else
    match s.monitor.accept b with
    | some monitor => { s with monitor, inFlight := true }
    | none => s

end Slot

namespace Desk

def empty : Desk := ⟨.empty, .empty, .empty, 0, []⟩

/-! ### Bars and recomputes -/

/-- Puts a slot in place; the recompute that it has begun, if any, is under way. -/
def begin (d : Desk) (symbol : String) (slot : Slot) : Desk :=
  { d with
    slots := d.slots.insert symbol slot
    outstanding :=
      if slot.inFlight then d.outstanding ++ [⟨symbol, slot.epoch, slot.monitor⟩] else d.outstanding }

/-- Gives a bar to the slot of its symbol. -/
def analyse (d : Desk) (b : Bar Float) : Desk :=
  match d.slots.find? b.symbol with
  | none => d
  | some slot =>
    if slot.inFlight then { d with slots := d.slots.insert b.symbol (slot.arrive b) }
    else d.begin b.symbol (slot.arrive b)

/-- Gives a bar to one of its listeners. Only a traded bar is archived. -/
def hear (d : Desk) : ChartListener × Bar Float → Desk × List Effect
  | (.analytics, b) => (d.analyse b, [])
  | (.archive, b) => (d, if b.isTraded then [.store (.archive b)] else [])

/-- Runs a step on every item of a list and collects the effects. -/
def each {α : Type} (step : Desk → α → Desk × List Effect) (d : Desk) : List α → Desk × List Effect
  | [] => (d, [])
  | a :: rest =>
    let (d, first) := step d a
    let (d, others) := each step d rest
    (d, first ++ others)

/-- Takes a batch of bars from the stream. -/
def takeBars (d : Desk) (bars : List (Bar Float)) : Desk × List Effect :=
  each hear d (d.registry.routeBars bars)

/-- What a result asks for: its lists stored, and the monitor shown. -/
def outcome (m : Monitor Float) (updates : List (PatternUpdate Float)) : List Effect :=
  updates.map (fun u => .store (.patterns u)) ++ [.publish (.updateChart m.snapshot)]

/-- Takes the result of a recompute, or the news that it failed. -/
def complete (d : Desk) (symbol : String) (epoch : Nat) (result : Option (Derived Float)) :
    Desk × List Effect :=
  match d.slots.find? symbol with
  | none => (d, [])
  | some slot =>
    if slot.epoch ≠ epoch then (d, [])
    else
      match result with
      | none => (d.begin symbol (slot.feed slot.backlog), [])
      | some derived =>
        let (monitor, updates) := slot.monitor.apply derived
        (d.begin symbol ({ slot with monitor }.feed slot.backlog), outcome monitor updates)

/-- Lets the recompute at a place of the list come back; a failed one has no result. -/
def finish [Protractor] (d : Desk) (place : Nat) (succeeds : Bool) : Desk × List Effect :=
  match d.outstanding[place]? with
  | none => (d, [])
  | some r =>
    let result := if succeeds then r.monitor.derive? else none
    { d with outstanding := d.outstanding.eraseIdx place }.complete r.symbol r.epoch result

/-- Lets recomputes come back in their order, at most `n` of them. -/
def settleWithin [Protractor] : Nat → Desk → Desk × List Effect
  | 0, d => (d, [])
  | n + 1, d =>
    if d.outstanding.isEmpty then (d, [])
    else
      let (d, first) := d.finish 0 true
      let (d, others) := settleWithin n d
      (d, first ++ others)

/-- All bars that wait in a backlog. -/
def waiting (d : Desk) : List (Bar Float) := d.slots.values.flatMap (·.backlog)

/-- Lets all recomputes come back, those included that they begin: each of these takes
a bar out of a backlog. -/
def settle [Protractor] (d : Desk) : Desk × List Effect :=
  settleWithin (d.outstanding.length + d.waiting.length) d

/-! ### Quotes -/

/-- Puts a quote into its book and shows the merged one. -/
def takeQuote (d : Desk) (q : Quote) : Desk × List Effect :=
  match d.books.find? q.symbol with
  | none => (d, [])
  | some book =>
    ({ d with books := d.books.insert q.symbol (book.update q) },
      [.publish (.updateQuote (book.view q))])

/-- Takes a batch of quotes from the stream. -/
def takeQuotes (d : Desk) (quotes : List Quote) : Desk × List Effect :=
  each takeQuote d (d.registry.routeQuotes quotes)

/-! ### Subscriptions -/

/-- Puts a monitor that is already streamed to work and shows it. -/
def install (d : Desk) (m : Monitor Float) (sub : Subscription) :
    Desk × List Effect × Except Refusal (Snapshot Float) :=
  match d.registry.insert m.symbol sub with
  | .error r => (d, [], .error r)
  | .ok registry =>
    let epoch := d.lastEpoch + 1
    ({ d with
        registry
        lastEpoch := epoch
        slots := d.slots.insert m.symbol (.fresh m epoch)
        books := d.books.insert m.symbol .empty },
      [.publish (.updateChart m.snapshot)], .ok m.snapshot)

/-- Drops what a teardown ended. -/
def detach (d : Desk) (symbol : String) (t : Teardown) : Desk :=
  let (registry, gone) := d.registry.detach symbol t
  { d with
    registry
    slots := if t.chartsRemoved then d.slots.erase symbol else d.slots
    books := if gone then d.books.erase symbol else d.books }

/-- All monitors as viewers see them, by symbol. -/
def snapshots (d : Desk) : List (Snapshot Float) := d.slots.values.map (·.monitor.snapshot)

/-! ### Runs -/

inductive Event
  | bars (bars : List (Bar Float))
  | quotes (quotes : List Quote)
  | install (m : Monitor Float) (sub : Subscription)
  | detach (symbol : String) (t : Teardown)
  /-- The recompute at a place of the list of outstanding ones comes back. -/
  | finish (place : Nat) (succeeds : Bool)

def handle [Protractor] (d : Desk) : Event → Desk × List Effect
  | .bars bars => d.takeBars bars
  | .quotes quotes => d.takeQuotes quotes
  | .install m sub => let (d, effects, _) := d.install m sub; (d, effects)
  | .detach symbol t => (d.detach symbol t, [])
  | .finish place succeeds => d.finish place succeeds

end Desk
end TickerBoard

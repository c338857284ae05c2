import TickerBoard.Brokerage.Basic
import TickerBoard.Desk
import TickerBoard.Settings.Basic
import TickerBoard.Stream.Session
import TickerBoard.Viewer.Audience

/-! The service: what users ask of the board.

A service joins the desk with a store, a brokerage, the audience and the queue
of what is to be stored. To subscribe a symbol, its history is backfilled and a
monitor seeded first, which changes nothing but the store and the queue; then,
while nobody else may change the streams, the symbol enters them and the
monitor is installed; last, the symbol is remembered in the store. To
unsubscribe goes the other way round. A failed step leaves what the steps
before it did. -/
namespace TickerBoard

/-- Why the stream is read no more. -/
inductive ReaderEnd
  | streamClosed
  | engineStopped
deriving Repr, DecidableEq

def ReaderEnd.message : ReaderEnd → String
  | .streamClosed => "market data stream closed"
  | .engineStopped => "analytics engine stopped while the stream was live"

structure Service (σ β : Type) where
  rules : AnalysisRules Float
  /-- The desk takes commands. -/
  isRunning : Bool
  reader : Option ReaderEnd
  desk : Desk
  session : StreamSession
  store : σ
  brokerage : β
  audience : Audience String
  queue : WriteQueue

/-- A request to the service, which keeps what was done before it failed. -/
abbrev Request (σ β α : Type) := ExceptT Failure (StateM (Service σ β)) α

namespace Service
variable {σ β : Type}

/-- A service that nobody has asked for anything yet, if its queue can be made. -/
def start? (settings : Settings) (store : σ) (brokerage : β) : Option (Service σ β) :=
  (WriteQueue.ofCapacity? settings.queueCapacity).map fun queue =>
    { rules := settings.analysis
      isRunning := true
      reader := none
      desk := .empty
      session := .start
      store
      brokerage
      audience := .ofCapacity settings.viewerCapacity
      queue }

/-! ### Effects -/

/-- Tells the audience, if there is one. -/
def publish (s : Service σ β) (e : ViewerEvent) : Service σ β :=
  if s.audience.viewerCount = 0 then s
  else { s with audience := (s.audience.publish e.payload).1 }

def offer (s : Service σ β) (job : WriteJob) : Service σ β :=
  { s with queue := s.queue.offer job }

def perform (s : Service σ β) (effects : List Desk.Effect) : Service σ β :=
  effects.foldl (fun s e =>
    match e with
    | .publish e => s.publish e
    | .store job => s.offer job) s

/-! ### The stream -/

/-- Hands a batch of the stream to the desk; a stopped desk ends the reading. -/
def read (s : Service σ β) (e : StreamEvent) : Service σ β :=
  if s.reader.isSome then s
  else if !s.isRunning then { s with reader := some .engineStopped }
  else
    let (desk, effects) := match e with
      | .bars bars => s.desk.takeBars bars
      | .quotes quotes => s.desk.takeQuotes quotes
    { s with desk }.perform effects

/-- The stream has ended. -/
def closeStream (s : Service σ β) : Service σ β :=
  { s with reader := s.reader <|> some .streamClosed }

/-- Lets all recomputes come back. -/
def settle (s : Service σ β) : Service σ β :=
  let (desk, effects) := s.desk.settle
  { s with desk }.perform effects

def stop (s : Service σ β) : Service σ β := { s with isRunning := false }

/-- Writes what waits to be stored, as one batch. -/
def flush [Store σ] (s : Service σ β) : Service σ β :=
  let (queue, jobs) := s.queue.drain
  { s with queue, store := (Writer.writeBatch s.store jobs).1 }

/-! ### Steps of requests -/

section Steps

def refuse {α : Type} (r : Refusal) : Request σ β α := throw (.refused r)

/-- A value that the calendar must have. -/
def dated {α : Type} (a : Option α) : Request σ β α := liftM (Failure.inCalendar a)

def ofStoreFault : StoreFault → Failure
  | .outsideCalendar => .outsideCalendar
  | e => .refused (.adapter (.plain e.message))

/-- Reads from the store. -/
def load {α : Type} (f : σ → Except StoreFault α) : Request σ β α := do
  match f (← get).store with
  | .ok a => pure a
  | .error e => throw (ofStoreFault e)

/-- Writes to the store. -/
def save (f : σ → σ × Except StoreFault Unit) : Request σ β Unit := do
  let (store, result) := f (← get).store
  modify ({ · with store })
  match result with
  | .ok () => pure ()
  | .error e => throw (ofStoreFault e)

/-- Asks the brokerage. -/
def ask {α : Type} (f : β → β × Except Fault α) : Request σ β α := do
  let (brokerage, result) := f (← get).brokerage
  modify ({ · with brokerage })
  match result with
  | .ok a => pure a
  | .error f => refuse (.adapter f)

/-- Carries out a step that only a refusal can end. -/
def step {α : Type} (f : Service σ β → Service σ β × Except Refusal α) : Request σ β α := do
  let (s, result) := f (← get)
  set s
  match result with
  | .ok a => pure a
  | .error r => refuse r

/-- The subscription of a symbol, which a stopped desk does not tell. -/
def subscription? (symbol : String) : Request σ β (Option Subscription) := do
  let s ← get
  if s.isRunning then pure (s.desk.registry.find? symbol) else refuse .engineStopped

def refuseSubscribed (symbol : String) : Request σ β Unit := do
  if (← subscription? symbol).isSome then refuse (.alreadySubscribed symbol)

end Steps

/-! ### Subscribing -/

section Subscribe
variable [Store σ] [Brokerage β]

/-- The ticker of a query. -/
def identify (query : String) : Request σ β String := do
  match ← ask (Brokerage.resolve · query) with
  | some symbol => pure symbol
  | none => refuse (.invalidSymbol (Text.trim query))

/-- The instant that the history is fetched from: a minute after the newest stored bar
of the window, or the start of the window. -/
def backfillStart (window : Instant) (symbol : String) : Request σ β Instant := do
  match ← load (Store.latestBar · symbol window) with
  | none => pure window
  | some latest => dated (latest.time.plus? 60000)

/-- Backfills the history of a query's symbol and seeds a monitor from it. -/
def prepare (now : Instant) (query : String) : Request σ β (Monitor Float) := do
  let symbol ← identify query
  refuseSubscribed symbol
  let rules := (← get).rules
  let window ← dated (rules.clock.daysAgo? now rules.historyDays)
  let since ← backfillStart window symbol
  let fetched ← ask (Brokerage.tradedHistory · symbol since now)
  let today ← dated (rules.clock.day? now)
  save (Store.saveBars · symbol fetched)
  let bars ← load (Store.loadBars · symbol window)
  let record ← load (Store.loadRecord · symbol today)
  let (monitor, updates) ← liftM (Monitor.seed rules symbol bars record)
  modify (·.perform (updates.map fun u => .store (.patterns u)))
  pure monitor

/-- Streams a monitor's symbol and puts the monitor to work. -/
def enlist (m : Monitor Float) (s : Service σ β) : Service σ β × Except Refusal (Snapshot Float) :=
  if !s.isRunning then (s, .error .engineStopped)
  else if s.desk.registry.isSubscribed m.symbol then (s, .error (.alreadySubscribed m.symbol))
  else
    match s.session.enter s.brokerage m.symbol .full with
    | (session, brokerage, .error f) => ({ s with session, brokerage }, .error (.streamRequest f))
    | (session, brokerage, .ok ()) =>
      let (desk, effects, result) := s.desk.install m .full
      ({ s with session, brokerage, desk }.perform effects, result)

/-- Keeps a symbol among the stored instruments; if that fails, it is let go. -/
def remember (symbol : String) (s : Service σ β) : Service σ β :=
  { s with store := (Store.saveInstrument s.store symbol).1 }

/-- Subscribes the symbol that a query means. -/
def subscribe (now : Instant) (query : String) : Request σ β (Snapshot Float) := do
  let monitor ← prepare now query
  let snapshot ← step (enlist monitor)
  modify (remember monitor.symbol)
  pure snapshot

/-! ### Unsubscribing -/

/-- Takes a symbol out of the streams and drops what listened to it. -/
def dismiss (symbol : String) (s : Service σ β) : Service σ β × Except Refusal Unit :=
  if !s.isRunning then (s, .error .engineStopped)
  else
    match s.desk.registry.find? symbol with
    | none => (s, .error (.notSubscribed symbol))
    | some sub =>
      let (brokerage, teardown) := StreamSession.leave s.brokerage symbol sub
      let s := { s with brokerage, desk := s.desk.detach symbol teardown }
      (s, teardown.result.mapError .streamRequest)

/-- Takes a symbol out of the stored instruments; if that fails, it is let go. -/
def forget (symbol : String) (s : Service σ β) : Service σ β :=
  { s with store := (Store.deleteInstrument s.store symbol).1 }

/-- Unsubscribes a symbol, tells the audience and answers the ticker. -/
def unsubscribe (query : String) : Request σ β String := do
  let symbol := Text.upper (Text.trim query)
  if symbol = "" then refuse (.invalidSymbol query)
  step (dismiss symbol)
  modify (forget symbol)
  modify (·.publish (.unsubscribeChart symbol))
  pure symbol

/-! ### Other requests -/

/-- All monitors as viewers see them, by symbol. -/
def snapshots : Request σ β (List (Snapshot Float)) := do
  let s ← get
  if s.isRunning then pure s.desk.snapshots else refuse .engineStopped

def standardStrikeCount : Nat := 10

/-- The chain of the earliest expiry in a window that has both sides. -/
def optionsChain (now : Instant) (symbol : String) (strikeCount : Option Nat)
    (first last : Option Day) : Request σ β OptionsChain := do
  let symbol := Text.upper (Text.trim symbol)
  if symbol = "" then refuse (.invalidSymbol symbol)
  let today ← dated ((← get).rules.clock.day? now)
  let window ← dated (OptionsQuery.defaultWindow? today)
  let query : OptionsQuery :=
    ⟨symbol, strikeCount.getD standardStrikeCount, first.getD window.1, last.getD window.2⟩
  let chains ← ask (Brokerage.chains · query)
  match chains.single symbol with
  | .ok chain => pure chain
  | .error r => refuse r

/-- What a viewer is greeted with: the account, then every monitor. -/
def greeting : Request σ β (List ViewerEvent) := do
  let account := Brokerage.account (← get).brokerage
  pure (.updateAccount account :: (← snapshots).map .updateChart)

end Subscribe
end Service
end TickerBoard

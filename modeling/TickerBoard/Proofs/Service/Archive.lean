import TickerBoard.Brokerage.Simulated
import TickerBoard.Proofs.Desk.Holding
import TickerBoard.Proofs.Desk.Sequential
import TickerBoard.Proofs.Service.Subscribed

/-! Whether a restart finds what the monitor held.

From the moment a symbol is subscribed, two parties hear its bars: the monitor,
which takes a traded bar that is newer than all it has, and the archive, which
takes every traded bar. `Archiving` is what bars, recomputes and the writer keep
between them, whatever the order (`archiving_run`). From it comes the exact
condition for the stored window to be the monitor's history
(`restart_agrees_iff`): of the bars that were sent to the archive, the monitor
holds the last for each time of the window. A refused bar that comes after a
held one of its time replaces it in the store (`restart_differs_corrected`). -/
namespace TickerBoard

namespace WriteQueue

/-- A queue that has room takes all jobs. -/
theorem offerAll_of_room (q : WriteQueue) (jobs : List WriteJob)
    (room : q.jobs.length + jobs.length ≤ q.capacity) :
    q.offerAll jobs = { q with jobs := q.jobs ++ jobs } := by
  induction jobs generalizing q with
  | nil => rw [List.append_nil]; rfl
  | cons job rest ih =>
    rw [List.length_cons] at room
    have fits : q.offer job = { q with jobs := q.jobs ++ [job] } := by
      rw [offer, if_pos (by omega)]
    have next := ih { q with jobs := q.jobs ++ [job] } (by simp only [List.length_append, List.length_singleton]; omega)
    show (q.offer job).offerAll rest = _
    rw [fits, next, List.append_assoc, List.singleton_append]

/-- A queue takes some of the jobs that it is offered, in their order. -/
theorem offerAll_sublist (q : WriteQueue) (jobs : List WriteJob) :
    (q.offerAll jobs).jobs.Sublist (q.jobs ++ jobs) := by
  induction jobs generalizing q with
  | nil => rw [List.append_nil]; exact .refl _
  | cons job rest ih =>
    refine (ih (q.offer job)).trans ?_
    unfold offer
    split
    · simp
    · exact (List.sublist_cons_self ..).append_left _

theorem archived_offerAll {q : WriteQueue} {jobs : List WriteJob} {symbol : String} {b : Bar Float}
    (h : b ∈ archived symbol (q.offerAll jobs).jobs) : b ∈ archived symbol q.jobs ∨ b ∈ archived symbol jobs := by
  have kept := ((q.offerAll_sublist jobs).filterMap _).subset h
  rwa [← List.mem_append, ← archived_append]

/-- Lists in the queue are not bars. -/
theorem archived_offerLists (q : WriteQueue) (us : List (PatternUpdate Float)) (symbol : String) :
    archived symbol (q.offerAll (us.map .patterns)).jobs = archived symbol q.jobs := by
  induction us generalizing q with
  | nil => rfl
  | cons u rest ih =>
    have same : archived symbol (q.offer (.patterns u)).jobs = archived symbol q.jobs := by
      unfold offer
      split
      · exact (archived_append ..).trans (List.append_nil _)
      · rfl
    exact (ih (q.offer (.patterns u))).trans same

end WriteQueue

namespace Service
variable {β : Type}

/-! ### Moves of a service -/

/-- What happens to a service while nobody asks it for anything. -/
inductive Move
  /-- A batch of bars comes from the stream. -/
  | bars (bars : List (Bar Float))
  /-- The recompute at a place of the list of outstanding ones comes back. -/
  | finish (place : Nat) (succeeds : Bool)
  /-- The writer wakes up. -/
  | flush

/-- What a move is to the desk. -/
def Move.event? : Move → Option Desk.Event
  | .bars batch => some (.bars batch)
  | .finish place succeeds => some (.finish place succeeds)
  | .flush => none

section Run
variable {σ : Type} [Store σ]

def move (s : Service σ β) : Move → Service σ β
  | .bars bars => s.read (.bars bars)
  | .finish place succeeds =>
    { s with desk := (s.desk.finish place succeeds).1 }.perform (s.desk.finish place succeeds).2
  | .flush => s.flush

def run (s : Service σ β) (moves : List Move) : Service σ β := moves.foldl move s

/-- What the desk wants stored at a move. -/
def sent (s : Service σ β) (mv : Move) : List WriteJob :=
  mv.event?.elim [] fun e => Desk.stored (s.desk.handle e).2

/-- No job of the run is dropped: the queue has room for all that is sent at each move. -/
def Undropped : Service σ β → List Move → Prop
  | _, [] => True
  | s, mv :: rest => s.queue.jobs.length + (s.sent mv).length ≤ s.queue.capacity ∧ Undropped (s.move mv) rest

/-- A move that is an event of the desk happens there, and what is sent is offered to the queue. -/
theorem move_frame {s : Service σ β} (running : s.isRunning = true) (reading : s.reader = none) {mv : Move}
    {e : Desk.Event} (h : mv.event? = some e) :
    ∃ audience, s.move mv =
      { s with desk := (s.desk.handle e).1, audience, queue := s.queue.offerAll (s.sent mv) } := by
  have performed := perform_frame { s with desk := (s.desk.handle e).1 } (s.desk.handle e).2
  cases mv with
  | bars bars =>
    obtain rfl := Option.some.inj h
    have read : s.move (.bars bars) = { s with desk := (s.desk.takeBars bars).1 }.perform (s.desk.takeBars bars).2 := by
      simp [move, read, reading, running]
    rw [read]
    exact performed
  | finish place succeeds =>
    obtain rfl := Option.some.inj h
    exact performed
  | flush => cases h

/-- While the stream is read, a run of the service is a run of its desk. -/
theorem desk_run {s : Service σ β} (running : s.isRunning = true) (reading : s.reader = none) (moves : List Move) :
    (s.run moves).desk = (s.desk.run (moves.filterMap Move.event?)).1 := by
  induction moves generalizing s with
  | nil => rfl
  | cons mv rest ih =>
    show ((s.move mv).run rest).desk = _
    cases event : mv.event? with
    | none =>
      rw [List.filterMap_cons_none event]
      cases mv with
      | flush => exact ih running reading
      | bars bars => cases event
      | finish place succeeds => cases event
    | some e =>
      obtain ⟨audience, moved⟩ := move_frame running reading event
      rw [List.filterMap_cons_some event, moved]
      exact ih running reading

/-- A queue with room for all that the desk wants stored in a run drops nothing. -/
theorem undropped_of_room {s : Service σ β} (running : s.isRunning = true) (reading : s.reader = none)
    {moves : List Move}
    (room : s.queue.jobs.length + (Desk.stored (s.desk.run (moves.filterMap Move.event?)).2).length ≤
      s.queue.capacity) :
    s.Undropped moves := by
  induction moves generalizing s with
  | nil => trivial
  | cons mv rest ih =>
    cases event : mv.event? with
    | none =>
      rw [List.filterMap_cons_none event] at room
      cases mv with
      | flush =>
        have later : 0 + (Desk.stored (s.desk.run (rest.filterMap Move.event?)).2).length ≤ s.queue.capacity := by
          omega
        refine ⟨?_, ih running reading later⟩
        show s.queue.jobs.length + 0 ≤ s.queue.capacity
        omega
      | bars bars => cases event
      | finish place succeeds => cases event
    | some e =>
      rw [List.filterMap_cons_some event, Desk.run, Desk.each_cons, Desk.stored_append, List.length_append] at room
      have now : s.sent mv = Desk.stored (s.desk.handle e).2 := by rw [sent, event]; rfl
      have fits : s.queue.jobs.length + (s.sent mv).length ≤ s.queue.capacity := by
        rw [now]
        omega
      obtain ⟨audience, moved⟩ := move_frame running reading event
      refine ⟨fits, ?_⟩
      rw [moved, WriteQueue.offerAll_of_room _ _ fits]
      refine ih running reading ?_
      rw [List.length_append, now, Nat.add_assoc]
      exact room

end Run

/-! ### Bars on their way -/

/-- The bars of a symbol that a move delivers. -/
def Move.delivered (symbol : String) : Move → List (Bar Float)
  | .bars batch => batch.filter (·.symbol = symbol)
  | _ => []

/-- The bars of a symbol that moves deliver, in turn. -/
def delivered (symbol : String) (moves : List Move) : List (Bar Float) :=
  moves.flatMap (Move.delivered symbol)

/-! ### What moves keep -/

/-- The symbol is streamed, its monitor, which was `m` at first, holds what it heard, and
its series with the bars that wait to be written is the one at first with the bars that
waited then and all traded ones since. -/
structure Archiving (symbol : String) (m : Monitor Float) (series : BarSeries) (waiting : List (Bar Float))
    (s : Service MemoryStore β) (heard : List (Bar Float)) : Prop where
  running : s.isRunning = true
  reading : s.reader = none
  full : s.desk.registry.find? symbol = some .full
  holds : s.desk.Holds symbol m heard
  filed : (s.store.series symbol).merge (archived symbol s.queue.jobs) =
    series.merge (waiting ++ heard.filter Bar.isTraded)

section Archiving
variable {symbol : String} {m : Monitor Float} {series : BarSeries} {waiting heard : List (Bar Float)}
  {s : Service MemoryStore β}

/-- An event keeps it if what the symbol hears is what is sent of it to the archive. -/
theorem archiving_event (h : Archiving symbol m series waiting s heard) {mv : Move} {e : Desk.Event}
    (event : mv.event? = some e) (fits : s.queue.jobs.length + (s.sent mv).length ≤ s.queue.capacity)
    {new : List (Bar Float)} (registry : (s.desk.handle e).1.registry = s.desk.registry)
    (holds : (s.desk.handle e).1.Holds symbol m (heard ++ new))
    (sent : archived symbol (s.sent mv) = new.filter Bar.isTraded) :
    Archiving symbol m series waiting (s.move mv) (heard ++ new) := by
  obtain ⟨audience, moved⟩ := move_frame h.running h.reading event
  rw [moved]
  refine ⟨h.running, h.reading, by rw [← h.full, ← registry], holds, ?_⟩
  show (s.store.series symbol).merge (archived symbol (s.queue.offerAll _).jobs) = _
  rw [WriteQueue.offerAll_of_room _ _ fits, archived_append, sent, BarSeries.merge_append, h.filed,
    ← BarSeries.merge_append, List.filter_append, List.append_assoc]

theorem archiving_move (h : Archiving symbol m series waiting s heard) {mv : Move}
    (fits : s.queue.jobs.length + (s.sent mv).length ≤ s.queue.capacity) :
    Archiving symbol m series waiting (s.move mv) (heard ++ mv.delivered symbol) := by
  cases mv with
  | bars bars =>
    obtain ⟨registry, holds, sent⟩ := Desk.takeBars_full h.full h.holds bars
    exact archiving_event (e := .bars bars) h rfl fits registry holds sent
  | finish place succeeds =>
    obtain ⟨registry, silent⟩ := Desk.finish_frame s.desk place succeeds symbol
    have holds := Desk.holds_finish h.holds place succeeds
    rw [← List.append_nil heard] at holds
    exact archiving_event (e := .finish place succeeds) h rfl fits registry holds silent
  | flush =>
    refine ⟨h.running, h.reading, h.full, ?_, ?_⟩
    · show s.desk.Holds symbol m (heard ++ [])
      rw [List.append_nil]
      exact h.holds
    · show ((Writer.writeBatch s.store s.queue.jobs).1.series symbol).merge [] = _
      rw [MemoryStore.series_writeBatch, h.filed]
      simp [Move.delivered, BarSeries.merge]

/-- Bars, recomputes and the writer keep it in any order. -/
theorem archiving_run (h : Archiving symbol m series waiting s heard) {moves : List Move}
    (undropped : s.Undropped moves) :
    Archiving symbol m series waiting (s.run moves) (heard ++ delivered symbol moves) := by
  induction moves generalizing s heard with
  | nil => simpa [run, delivered] using h
  | cons mv rest ih =>
    obtain ⟨fits, undropped⟩ := undropped
    have next := ih (archiving_move h fits) undropped
    rw [List.append_assoc] at next
    exact next

end Archiving

/-! ### From the subscription on -/

section Subscription
variable {s mid s' : Service MemoryStore β} {now window : Instant} {m : Monitor Float}

/-- A monitor that was prepared holds just what the store has of its window. -/
theorem history_prepared (prepared : Prepared now s mid m window) (filed : (s.store.series m.symbol).Filed)
    (traded : ∀ b ∈ (s.store.series m.symbol).values, b.isTraded = true) :
    (mid.store.series m.symbol).Filed ∧ m.history = (mid.store.series m.symbol).since window ∧
      InTurn m.history := by
  obtain ⟨brokerage, fetched, us, fetched_traded, performed⟩ := prepared.service
  have saved : mid.store.series m.symbol = (s.store.series m.symbol).merge fetched := by
    rw [performed, perform_store]
    exact (MemoryStore.series_saveBars s.store m.symbol m.symbol fetched).trans (if_pos rfl)
  have filed' := BarSeries.filed_merge filed fetched
  have turn := BarSeries.inTurn_since filed' (BarSeries.traded_merge filed traded fetched_traded) window
  obtain ⟨bars, loaded, usable⟩ := prepared.seeded
  have all : bars = (mid.store.series m.symbol).since window := (Except.ok.inj loaded).symm
  rw [← usable, all, saved, Monitor.usable_of_inTurn turn]
  exact ⟨filed', rfl, turn⟩

theorem archiving_installed (prepared : Prepared now s mid m window) (installed : Installed mid s' m)
    (reading : s.reader = none) :
    Archiving m.symbol m (mid.store.series m.symbol) (archived m.symbol s.queue.jobs) s' [] := by
  obtain ⟨running, reader, us, queue⟩ := prepared.frame
  refine ⟨?_, ?_, ?_, ⟨.fresh m (mid.desk.lastEpoch + 1), ?_, fun _ => rfl, [], rfl, rfl⟩, ?_⟩
  · rw [installed.running, running]
  · rw [installed.reader, reader, reading]
  · rw [installed.desk, install_new installed.new]
    simp [Registry.find?]
  · rw [installed.desk, install_new installed.new]
    simp
  · rw [installed.queue, installed.store, queue, WriteQueue.archived_offerLists, List.filter_nil, List.append_nil]
    rfl

end Subscription

/-- **The archive agrees with the monitor if and only if the monitor holds the last bar
that was sent to the archive for each time of the window.** Take a subscription over a
store in memory whose series of the symbol, for example an empty one, has traded bars
only, and then batches of any bars, recomputes that come back with a result or without,
and flushes, in any order, of which no job is dropped and all are written. Once no
recompute of the symbol is under way, what a restart would load from the window that the
monitor was seeded from is the monitor's history just in that case. -/
theorem restart_agrees_iff [Brokerage β] {s s' : Service MemoryStore β} {now : Instant} {query : String}
    {snapshot : Snapshot Float} (subscribed : s.carryOut (subscribe now query) = (.ok snapshot, s'))
    (filed : (s.store.series snapshot.symbol).Filed)
    (traded : ∀ b ∈ (s.store.series snapshot.symbol).values, b.isTraded = true) (reading : s.reader = none)
    {moves : List Move} (undropped : s'.Undropped moves) (written : (s'.run moves).queue.jobs = []) :
    ∃ window slot, s.rules.clock.daysAgo? now s.rules.historyDays = some window ∧
      (s'.run moves).desk.slots.find? snapshot.symbol = some slot ∧
      (slot.inFlight = false →
        (Store.loadBars (s'.run moves).store snapshot.symbol window = .ok slot.monitor.history ↔
          ∀ t b, BarSeries.lastAt t (archived snapshot.symbol s.queue.jobs ++
              (delivered snapshot.symbol moves).filter Bar.isTraded) = some b →
            window.ms ≤ t.ms → b ∈ slot.monitor.history)) := by
  obtain ⟨m, window, mid, rfl, prepared, installed⟩ := subscribe_ok subscribed
  obtain ⟨filed', history, turn⟩ := history_prepared prepared filed traded
  have final := archiving_run (archiving_installed prepared installed reading) undropped
  obtain ⟨slot, found, holds⟩ := final.holds
  refine ⟨window, slot, prepared.dated, found, fun idle => ?_⟩
  obtain ⟨given, heard, held⟩ := holds.given
  rw [holds.idle idle, List.append_nil, List.nil_append] at heard
  have turned := Monitor.inTurn_held turn given
  obtain ⟨taken, split, sent⟩ := Monitor.held_split m given
  have stored := final.filed
  rw [written] at stored
  have some_old : (mid.store.series m.symbol).since window ≠ [] := by
    rw [← history]
    exact List.append_ne_nil_of_right_ne_nil _ (List.cons_ne_nil _ _)
  have reached : ∀ b ∈ taken,
      b ∈ archived m.symbol s.queue.jobs ++ (delivered m.symbol moves).filter Bar.isTraded := by
    intro b hb
    rw [heard]
    exact List.mem_append_right _ (sent b hb)
  rw [split, history] at turned
  rw [held, split, history]
  have agree := BarSeries.since_merge_eq_iff filed' some_old reached turned
  have listed : (s'.run moves).store.series m.symbol = (mid.store.series m.symbol).merge
      (archived m.symbol s.queue.jobs ++ (delivered m.symbol moves).filter Bar.isTraded) := stored
  rw [← listed] at agree
  show Except.ok _ = Except.ok _ ↔ _
  rw [Except.ok.injEq]
  exact agree

/-! ### A correction that the monitor refuses -/

section Correction
open Desk (plainBar plainMonitor)

/-- A service without charts whose brokerage has one bar of a symbol. -/
def plainService : Service MemoryStore SimulatedBrokerage where
  rules := plainMonitor.rules
  isRunning := true
  reader := none
  desk := .empty
  session := .start
  store := .empty
  brokerage := { SimulatedBrokerage.ofAccount ⟨"SIM", 0⟩ with history := .ofList [("XYZ", [plainBar 0])] }
  audience := .ofCapacity 4
  queue := ⟨4, []⟩

/-- A plain bar with more volume. -/
def correctedBar (minute : Int) : Bar Float := { plainBar minute with volume := 20 }

theorem prepare_plain {levels : List (PriceLevel Float)} {range : Option Float}
    (derived : plainMonitor.derive? = some ⟨[], [], levels, range⟩) :
    plainService.carryOut (prepare ⟨60000⟩ "XYZ") =
      (.ok { plainMonitor with levels, averageRange := range },
       { plainService with store := plainService.store.saveBars "XYZ" [plainBar 0] }) := by
  have known : plainService.brokerage.resolve? "XYZ" = some "XYZ" := by decide +kernel
  have usable : Monitor.usable [plainBar 0] = [plainBar 0] :=
    Monitor.usable_of_inTurn ⟨by decide, List.pairwise_singleton _ _⟩
  have seeded : Monitor.seed plainMonitor.rules "XYZ" [plainBar 0] .empty =
      .ok ({ plainMonitor with levels, averageRange := range }, []) :=
    Monitor.seed_eq_ok.mpr ⟨[], plainBar 0, _, usable, derived, rfl⟩
  have resolved : Brokerage.resolve plainService.brokerage "XYZ" = (plainService.brokerage, .ok (some "XYZ")) := by
    rw [← known]
    rfl
  have dated : plainService.rules.clock.daysAgo? ⟨60000⟩ plainService.rules.historyDays =
      some ⟨-604800000⟩ := rfl
  have history : Brokerage.tradedHistory plainService.brokerage "XYZ" ⟨-604800000⟩ ⟨60000⟩ =
      (plainService.brokerage, .ok [plainBar 0]) := rfl
  have day : plainService.rules.clock.day? ⟨60000⟩ = some ⟨0⟩ := rfl
  have loaded : Store.loadBars (Store.saveBars plainService.store "XYZ" [plainBar 0]).1 "XYZ" ⟨-604800000⟩ =
      .ok [plainBar 0] := rfl
  have read : Store.loadRecord (Store.saveBars plainService.store "XYZ" [plainBar 0]).1 "XYZ" ⟨0⟩ =
      .ok .empty := rfl
  exact carryOut_prepare resolved rfl rfl dated rfl history day rfl loaded read seeded

/-- The service that streams a monitor of its symbol. -/
def streaming (m : Monitor Float) : Service MemoryStore SimulatedBrokerage :=
  remember m.symbol (enlist m { plainService with store := plainService.store.saveBars "XYZ" [plainBar 0] }).1

theorem subscribe_plain {levels : List (PriceLevel Float)} {range : Option Float}
    (derived : plainMonitor.derive? = some ⟨[], [], levels, range⟩) :
    plainService.carryOut (subscribe ⟨60000⟩ "XYZ") =
      (.ok ({ plainMonitor with levels, averageRange := range } : Monitor Float).snapshot,
        streaming { plainMonitor with levels, averageRange := range }) := by
  rw [carryOut_subscribe, prepare_plain derived]
  rfl

/-- A bar is taken, another one of its time refused, and both are written. -/
def correction : List Move :=
  [.bars [plainBar 1], .finish 0 true, .bars [correctedBar 1], .flush]

/-- The desk that has a slot for the one symbol. -/
def plainDesk (slot : Slot) (outstanding : List Recompute) : Desk :=
  ⟨⟨⟨[("XYZ", .full)]⟩⟩, ⟨[("XYZ", slot)]⟩, ⟨[("XYZ", .empty)]⟩, 1, outstanding⟩

theorem correction_run (levels : List (PriceLevel Float)) (range : Option Float) :
    let s := streaming { plainMonitor with levels, averageRange := range }
    s.Undropped correction ∧ (s.run correction).queue.jobs = [] ∧
      ∃ slot, (s.run correction).desk.slots.find? "XYZ" = some slot ∧ slot.inFlight = false ∧
        slot.monitor.history = [plainBar 0, plainBar 1] := by
  intro s
  let taken : Monitor Float :=
    { plainMonitor with levels, averageRange := range, earlier := [plainBar 0], latest := plainBar 1 }
  have window : taken.rules.clock.daysAgo? taken.lastUpdated taken.rules.historyDays = some ⟨-604800000⟩ := rfl
  have charts : taken.charts = [] := rfl
  obtain ⟨levels', range', derived⟩ := Desk.derives_without_charts charts window
  let shown : Monitor Float := { taken with levels := levels', averageRange := range' }
  have first : s.desk.handle (.bars [plainBar 1]) =
      (plainDesk ⟨taken, 1, true, []⟩ [⟨"XYZ", 1, taken⟩], [.store (.archive (plainBar 1))]) := rfl
  have second : (plainDesk ⟨taken, 1, true, []⟩ [⟨"XYZ", 1, taken⟩]).handle (.finish 0 true) =
      (plainDesk ⟨shown, 1, false, []⟩ [], [.publish (.updateChart shown.snapshot)]) := by
    have handed : (plainDesk ⟨taken, 1, true, []⟩ [⟨"XYZ", 1, taken⟩]).handle (.finish 0 true) =
        (plainDesk ⟨taken, 1, true, []⟩ []).complete "XYZ" 1 taken.derive? := rfl
    rw [handed, derived]
    rfl
  have third : (plainDesk ⟨shown, 1, false, []⟩ []).handle (.bars [correctedBar 1]) =
      (plainDesk ⟨shown, 1, false, []⟩ [], [.store (.archive (correctedBar 1))]) := rfl
  have course : s.desk.run (correction.filterMap Move.event?) =
      Desk.each Desk.handle s.desk [.bars [plainBar 1], .finish 0 true, .bars [correctedBar 1]] := rfl
  rw [Desk.each_cons, Desk.each_cons, Desk.each_cons, first, second, third] at course
  refine ⟨undropped_of_room rfl rfl ?_, rfl, ?_⟩
  · rw [course]
    show 0 + 2 ≤ 4
    omega
  · rw [desk_run rfl rfl, course]
    exact ⟨_, rfl, rfl, rfl⟩

/-- The store keeps the refused bar, and the monitor the other. -/
theorem restart_differs_corrected : ∃ snapshot s' window slot,
    plainService.carryOut (subscribe ⟨60000⟩ "XYZ") = (.ok snapshot, s') ∧ s'.Undropped correction ∧
      (s'.run correction).queue.jobs = [] ∧
      plainService.rules.clock.daysAgo? ⟨60000⟩ plainService.rules.historyDays = some window ∧
      (s'.run correction).desk.slots.find? "XYZ" = some slot ∧ slot.inFlight = false ∧
      Store.loadBars (s'.run correction).store "XYZ" window ≠ .ok slot.monitor.history := by
  have window : plainMonitor.rules.clock.daysAgo? plainMonitor.lastUpdated plainMonitor.rules.historyDays =
      some ⟨-604800000⟩ := rfl
  have charts : plainMonitor.charts = [] := rfl
  obtain ⟨levels, range, derived⟩ := Desk.derives_without_charts charts window
  have subscribed := subscribe_plain derived
  obtain ⟨undropped, written, slot, found, idle, history⟩ := correction_run levels range
  obtain ⟨window, slot', dated, found', agrees⟩ :=
    restart_agrees_iff subscribed BarSeries.filed_empty nofun rfl undropped written
  obtain rfl := Option.some.inj (found'.symm.trans found)
  refine ⟨_, _, window, slot', subscribed, undropped, written, dated, found, idle, fun same => ?_⟩
  have inside : window.ms ≤ (correctedBar 1).time.ms := by
    obtain rfl := Option.some.inj dated
    decide
  have held := (agrees idle).mp same ⟨60000⟩ (correctedBar 1) rfl inside
  rw [history] at held
  have volumes : ∀ b ∈ [plainBar 0, plainBar 1], b.volume = 10 := by simp [plainBar]
  exact absurd (volumes _ held) (by decide)

end Correction
end Service
end TickerBoard

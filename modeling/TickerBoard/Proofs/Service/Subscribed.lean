import TickerBoard.Proofs.Monitor.Seeding
import TickerBoard.Proofs.Service.Courses

/-! What a subscription that succeeds has done.

`Prepared` is everything that precedes the streams: the history was backfilled
into the store, the monitor was seeded from what the store then had of the
window, and only lists went into the queue; `Answered` says in addition what
was fetched and from when on. `Installed` is what comes then. A subscription
that succeeds is the one followed by the other (`subscribe_answered`,
`subscribe_ok`). -/
namespace TickerBoard.Service
variable {σ β α γ : Type}

theorem except_map_ok {ε : Type} {f : α → γ} {a : Except ε α} {c : γ} (h : a.map f = .ok c) :
    ∃ b, a = .ok b ∧ f b = c := by
  cases a with
  | error e => cases h
  | ok b => exact ⟨b, rfl, Except.ok.inj h⟩

theorem except_mapError_ok {ε δ : Type} {f : ε → δ} {a : Except ε α} {c : α} (h : a.mapError f = .ok c) :
    a = .ok c := by
  cases a with
  | error e => cases h
  | ok b => exact congrArg _ (Except.ok.inj h)

theorem inCalendar_ok {a : Option α} {c : α} (h : Failure.inCalendar a = .ok c) : a = some c := by
  cases a with
  | none => cases h
  | some b => exact congrArg _ (Except.ok.inj h)

theorem refuseSubscribed_ok {s s' : Service σ β} {symbol : String}
    (h : s.carryOut (refuseSubscribed symbol) = (.ok ⟨⟩, s')) : s.isRunning = true ∧ s' = s := by
  rw [carryOut_refuseSubscribed] at h
  obtain ⟨allowed, rfl⟩ := Prod.mk.inj h
  cases running : s.isRunning with
  | true => exact ⟨rfl, rfl⟩
  | false =>
    rw [running] at allowed
    cases allowed

section Brokerage
variable [Brokerage β]

theorem identify_ok {s s' : Service σ β} {query symbol : String}
    (h : s.carryOut (identify query) = (.ok symbol, s')) :
    ∃ brokerage, Brokerage.resolve s.brokerage query = (brokerage, .ok (some symbol)) ∧
      s' = { s with brokerage } := by
  obtain ⟨found, mid, asked, h⟩ := carryOut_bind_ok h
  rw [carryOut_ask] at asked
  obtain ⟨resolved, rfl⟩ := Prod.mk.inj asked
  cases found with
  | none => cases h
  | some name =>
    obtain ⟨same, rfl⟩ := Prod.mk.inj h
    obtain rfl := Except.ok.inj same
    exact ⟨_, Prod.ext rfl (except_mapError_ok resolved), rfl⟩

theorem tradedHistory_traded {b : β} {symbol : String} {since now : Instant} {bars : List (Bar Float)}
    (h : (Brokerage.tradedHistory b symbol since now).2 = .ok bars) : ∀ bar ∈ bars, bar.isTraded = true := by
  obtain ⟨all, -, rfl⟩ := except_map_ok h
  exact fun bar hbar => (List.mem_filter.mp hbar).2

end Brokerage

section Store
variable [Store σ]

theorem backfillStart_ok {s s' : Service σ β} {window since : Instant} {symbol : String}
    (h : s.carryOut (backfillStart window symbol) = (.ok since, s')) : s' = s := by
  obtain ⟨latest, mid, loaded, h⟩ := carryOut_bind_ok h
  rw [carryOut_load] at loaded
  obtain ⟨-, rfl⟩ := Prod.mk.inj loaded
  cases latest with
  | none => exact (Prod.mk.inj h).2.symm
  | some b =>
    rw [carryOut_dated] at h
    exact (Prod.mk.inj h).2.symm

/-- The monitor is seeded from the window of a store that the fetched bars went into. -/
structure Prepared (now : Instant) (s s' : Service σ β) (m : Monitor Float) (window : Instant) : Prop where
  dated : s.rules.clock.daysAgo? now s.rules.historyDays = some window
  running : s.isRunning = true
  /-- Bars that were traded are saved, and lists are offered to the queue. -/
  service : ∃ (brokerage : β) (fetched : List (Bar Float)) (us : List (PatternUpdate Float)),
    (∀ b ∈ fetched, b.isTraded = true) ∧
    s' = Service.perform { s with brokerage, store := (Store.saveBars s.store m.symbol fetched).1 }
      (us.map fun u => .store (.patterns u))
  seeded : ∃ bars, Store.loadBars s'.store m.symbol window = .ok bars ∧ Monitor.usable bars = m.history

/-- Only store, brokerage, audience and queue have changed, the queue by lists. -/
theorem Prepared.frame {s s' : Service σ β} {now window : Instant} {m : Monitor Float}
    (h : Prepared now s s' m window) :
    s'.isRunning = true ∧ s'.reader = s.reader ∧
      ∃ us : List (PatternUpdate Float), s'.queue = s.queue.offerAll (us.map .patterns) := by
  obtain ⟨brokerage, fetched, us, -, performed⟩ := h.service
  obtain ⟨audience, framed⟩ := perform_frame
    { s with brokerage, store := (Store.saveBars s.store m.symbol fetched).1 } (us.map fun u => .store (.patterns u))
  have offered : Desk.stored (us.map fun u => .store (.patterns u)) = us.map .patterns := by
    rw [Desk.stored, List.filterMap_map]
    exact congrFun List.filterMap_eq_map us
  rw [performed, framed, offered]
  exact ⟨h.running, rfl, us, rfl⟩

end Store

variable [Store σ] [Brokerage β]

/-- What brokerage, calendar and store have answered when a monitor is prepared. -/
structure Answered (now : Instant) (query : String) (s s' : Service σ β) (m : Monitor Float)
    (window since : Instant) (asked : β) (fetched : List (Bar Float)) : Prop where
  resolved : Brokerage.resolve s.brokerage query = (asked, .ok (some m.symbol))
  running : s.isRunning = true
  dated : s.rules.clock.daysAgo? now s.rules.historyDays = some window
  started : { s with brokerage := asked }.carryOut (backfillStart window m.symbol) =
    (.ok since, { s with brokerage := asked })
  history : (Brokerage.tradedHistory asked m.symbol since now).2 = .ok fetched
  service : ∃ (brokerage : β) (us : List (PatternUpdate Float)),
    s' = Service.perform { s with brokerage, store := (Store.saveBars s.store m.symbol fetched).1 }
      (us.map fun u => .store (.patterns u))
  seeded : ∃ bars, Store.loadBars s'.store m.symbol window = .ok bars ∧ Monitor.usable bars = m.history

theorem prepare_answered {s s' : Service σ β} {now : Instant} {query : String} {m : Monitor Float}
    (h : s.carryOut (prepare now query) = (.ok m, s')) :
    ∃ window since asked fetched, Answered now query s s' m window since asked fetched := by
  obtain ⟨symbol, s₁, identified, h⟩ := carryOut_bind_ok h
  obtain ⟨first, resolved, rfl⟩ := identify_ok identified
  obtain ⟨_, s₂, fresh, h⟩ := carryOut_bind_ok h
  obtain ⟨running, rfl⟩ := refuseSubscribed_ok fresh
  obtain ⟨_, s₃, got, h⟩ := carryOut_bind_ok h
  cases got
  obtain ⟨window, s₄, counted, h⟩ := carryOut_bind_ok h
  rw [carryOut_dated] at counted
  obtain ⟨dated, rfl⟩ := Prod.mk.inj counted
  obtain ⟨since, s₅, started, h⟩ := carryOut_bind_ok h
  obtain rfl := backfillStart_ok started
  obtain ⟨fetched, s₆, asked, h⟩ := carryOut_bind_ok h
  rw [carryOut_ask] at asked
  obtain ⟨fetch, rfl⟩ := Prod.mk.inj asked
  obtain ⟨today, s₇, dayed, h⟩ := carryOut_bind_ok h
  rw [carryOut_dated] at dayed
  obtain ⟨-, rfl⟩ := Prod.mk.inj dayed
  obtain ⟨_, s₈, saved, h⟩ := carryOut_bind_ok h
  rw [carryOut_save] at saved
  obtain ⟨-, rfl⟩ := Prod.mk.inj saved
  obtain ⟨bars, s₉, listed, h⟩ := carryOut_bind_ok h
  rw [carryOut_load] at listed
  obtain ⟨loaded, rfl⟩ := Prod.mk.inj listed
  obtain ⟨record, s₁₀, read, h⟩ := carryOut_bind_ok h
  rw [carryOut_load] at read
  obtain ⟨-, rfl⟩ := Prod.mk.inj read
  obtain ⟨⟨monitor, us⟩, s₁₁, lifted, h⟩ := carryOut_bind_ok h
  rw [carryOut_lift] at lifted
  obtain ⟨seeded, rfl⟩ := Prod.mk.inj lifted
  obtain ⟨_, s₁₂, performed, h⟩ := carryOut_bind_ok h
  rw [carryOut_modify] at performed
  obtain ⟨-, rfl⟩ := Prod.mk.inj performed
  obtain ⟨same, rfl⟩ := Prod.mk.inj h
  obtain rfl := Except.ok.inj same
  obtain ⟨earlier, latest, d, split, -, applied⟩ := Monitor.seed_eq_ok.mp seeded
  obtain ⟨rfl, -⟩ := Prod.mk.inj applied
  refine ⟨window, since, first, fetched, resolved, running, inCalendar_ok dated, started,
    except_mapError_ok fetch, ⟨_, us, rfl⟩, bars, ?_, split⟩
  rw [perform_store]
  exact except_mapError_ok loaded

theorem Answered.prepared {s s' : Service σ β} {now : Instant} {query : String} {m : Monitor Float}
    {window since : Instant} {asked : β} {fetched : List (Bar Float)}
    (h : Answered now query s s' m window since asked fetched) : Prepared now s s' m window := by
  obtain ⟨brokerage, us, performed⟩ := h.service
  exact ⟨h.dated, h.running, ⟨brokerage, fetched, us, tradedHistory_traded h.history, performed⟩, h.seeded⟩

/-- What has to come back from brokerage, store and calendar for a monitor to be prepared. -/
theorem carryOut_prepare {s : Service σ β} {now window since : Instant} {today : Day} {query symbol : String}
    {asked told : β} {fetched bars : List (Bar Float)} {record : DayRecord} {m : Monitor Float}
    {us : List (PatternUpdate Float)}
    (resolved : Brokerage.resolve s.brokerage query = (asked, .ok (some symbol)))
    (running : s.isRunning = true) (new : s.desk.registry.isSubscribed symbol = false)
    (dated : s.rules.clock.daysAgo? now s.rules.historyDays = some window)
    (started : { s with brokerage := asked }.carryOut (backfillStart window symbol) =
      (.ok since, { s with brokerage := asked }))
    (history : Brokerage.tradedHistory asked symbol since now = (told, .ok fetched))
    (day : s.rules.clock.day? now = some today)
    (saved : (Store.saveBars s.store symbol fetched).2 = .ok ())
    (loaded : Store.loadBars (Store.saveBars s.store symbol fetched).1 symbol window = .ok bars)
    (read : Store.loadRecord (Store.saveBars s.store symbol fetched).1 symbol today = .ok record)
    (seeded : Monitor.seed s.rules symbol bars record = .ok (m, us)) :
    s.carryOut (prepare now query) =
      (.ok m, Service.perform { s with brokerage := told, store := (Store.saveBars s.store symbol fetched).1 }
        (us.map fun u => .store (.patterns u))) := by
  have identified : s.carryOut (identify query) = (.ok symbol, { s with brokerage := asked }) := by
    rw [identify, carryOut_bind, carryOut_ask, resolved]
    rfl
  have fresh : { s with brokerage := asked }.carryOut (refuseSubscribed symbol) =
      (.ok ⟨⟩, { s with brokerage := asked }) := by
    simp [running, new]
  simp only [prepare, carryOut_bind, identified, fresh, carryOut_get, carryOut_dated, dated, Failure.inCalendar,
    started, carryOut_ask, history, day, carryOut_save, saved, carryOut_load, loaded, read, carryOut_lift, seeded,
    mapError_ok, carryOut_modify, carryOut_pure]

/-! ### The installation -/

/-- A monitor that was new is installed, and its symbol is among the stored instruments. -/
structure Installed (s s' : Service σ β) (m : Monitor Float) : Prop where
  new : s.desk.registry.isSubscribed m.symbol = false
  desk : s'.desk = (s.desk.install m .full).1
  queue : s'.queue = s.queue
  reader : s'.reader = s.reader
  running : s'.isRunning = s.isRunning
  store : s'.store = (Store.saveInstrument s.store m.symbol).1

omit [Store σ] in
theorem enlist_ok {s s' : Service σ β} {m : Monitor Float} {snapshot : Snapshot Float}
    (h : enlist m s = (s', .ok snapshot)) :
    s.desk.registry.isSubscribed m.symbol = false ∧ snapshot = m.snapshot ∧
      ∃ session brokerage, s' = Service.perform { s with session, brokerage, desk := (s.desk.install m .full).1 }
        [.publish (.updateChart m.snapshot)] := by
  unfold enlist at h
  split at h
  · cases h
  split at h
  · cases h
  rename_i subscribed
  have new := eq_false_of_ne_true subscribed
  split at h
  · cases h
  · rename_i session brokerage _
    rw [install_new new] at h
    obtain ⟨rfl, shown⟩ := Prod.mk.inj h
    refine ⟨new, (Except.ok.inj shown).symm, session, brokerage, ?_⟩
    rw [install_new new]

/-- A subscription that succeeds has got answers, prepared a monitor from them and
installed it. -/
theorem subscribe_answered {s s' : Service σ β} {now : Instant} {query : String} {snapshot : Snapshot Float}
    (h : s.carryOut (subscribe now query) = (.ok snapshot, s')) :
    ∃ m mid window since asked fetched, snapshot = m.snapshot ∧
      Answered now query s mid m window since asked fetched ∧ Installed mid s' m := by
  rw [carryOut_subscribe] at h
  rcases preparing : s.carryOut (prepare now query) with ⟨e | m, mid⟩ <;> rw [preparing] at h
  · cases h
  obtain ⟨window, since, asked, fetched, answered⟩ := prepare_answered preparing
  dsimp only at h
  rcases enlisting : enlist m mid with ⟨s₂, r | shown⟩ <;> rw [enlisting] at h
  · cases h
  obtain ⟨new, rfl, session, brokerage, rfl⟩ := enlist_ok enlisting
  obtain ⟨same, rfl⟩ := Prod.mk.inj h
  obtain ⟨audience, performed⟩ := perform_frame
    { mid with session, brokerage, desk := (mid.desk.install m .full).1 } [.publish (.updateChart m.snapshot)]
  refine ⟨m, mid, window, since, asked, fetched, (Except.ok.inj same).symm, answered, ?_⟩
  rw [performed]
  exact ⟨new, rfl, rfl, rfl, rfl, rfl⟩

/-- A subscription that succeeds has prepared a monitor and installed it. -/
theorem subscribe_ok {s s' : Service σ β} {now : Instant} {query : String} {snapshot : Snapshot Float}
    (h : s.carryOut (subscribe now query) = (.ok snapshot, s')) :
    ∃ m window mid, snapshot = m.snapshot ∧ Prepared now s mid m window ∧ Installed mid s' m := by
  obtain ⟨m, mid, window, since, asked, fetched, shown, answered, installed⟩ := subscribe_answered h
  exact ⟨m, window, mid, shown, answered.prepared, installed⟩

end TickerBoard.Service

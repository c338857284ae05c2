import TickerBoard.Proofs.Service.Agreement
import TickerBoard.Proofs.Service.Archive

/-! Which bars a backfill leaves out.

A subscription fetches what the brokerage has from a minute after the newest
stored bar of the window on, and saves it before the monitor is seeded. So the
store gets a bar in one of two ways: the writer writes it, or a subscription
finds it while nothing as new is stored (`series_undergo`). What is stored
stays, and every happening between the subscriptions does one of the two or
nothing (`stored_iff`). A subscription therefore misses just the bars that were
overtaken: `backfilled_iff` says so of any course of bars, recomputes, flushes
and calls in which the brokerage gets new histories, and `backfill_skips` is
one in which the stream leaves out a bar that is never fetched. -/
namespace TickerBoard

/-- Bars at whole minutes, at most one for each. -/
structure Minutely (bars : List (Bar Float)) : Prop where
  aligned : ∀ b ∈ bars, b.time.ms % 60000 = 0
  single : ∀ b ∈ bars, ∀ c ∈ bars, b.time = c.time → b = c

theorem Minutely.filter {bars : List (Bar Float)} (h : Minutely bars) (p : Bar Float → Bool) :
    Minutely (bars.filter p) :=
  ⟨fun b hb => h.aligned b (List.mem_filter.mp hb).1,
    fun b hb c hc => h.single b (List.mem_filter.mp hb).1 c (List.mem_filter.mp hc).1⟩

theorem Instant.plus?_ms {t u : Instant} {n : Int} (h : t.plus? n = some u) : u.ms = t.ms + n := by
  simp only [plus?, ofMs?] at h
  split at h
  · obtain rfl := Option.some.inj h
    rfl
  · cases h

namespace Service

/-! ### What happens to a service -/

/-- What happens to a service and its brokerage. -/
inductive Happening
  /-- Something happens while nobody asks for anything. -/
  | move (mv : Move)
  /-- A user calls. -/
  | call (c : Call)
  /-- The brokerage gets another history of a symbol. -/
  | learn (symbol : String) (bars : List (Bar Float))

section Happenings
variable {σ : Type}

/-- The traded bars that the brokerage has of a symbol. -/
def tradedBars (s : Service σ SimulatedBrokerage) (symbol : String) : List (Bar Float) :=
  (s.brokerage.history.findD symbol []).filter Bar.isTraded

variable [Store σ]

def undergo (s : Service σ SimulatedBrokerage) : Happening → Service σ SimulatedBrokerage
  | .move mv => s.move mv
  | .call c => (s.call c).2
  | .learn symbol bars => { s with brokerage := s.brokerage.insertHistory symbol bars }

def undergoAll (s : Service σ SimulatedBrokerage) (hs : List Happening) : Service σ SimulatedBrokerage :=
  hs.foldl undergo s

theorem undergo_call (s : Service σ SimulatedBrokerage) (c : Call) : s.undergo (.call c) = (s.call c).2 := rfl

@[simp] theorem undergoAll_nil (s : Service σ SimulatedBrokerage) : s.undergoAll [] = s := rfl

@[simp] theorem undergoAll_cons (s : Service σ SimulatedBrokerage) (h : Happening) (rest : List Happening) :
    s.undergoAll (h :: rest) = (s.undergo h).undergoAll rest := rfl

theorem undergoAll_concat (s : Service σ SimulatedBrokerage) (hs : List Happening) (h : Happening) :
    s.undergoAll (hs ++ [h]) = (s.undergoAll hs).undergo h := by
  rw [undergoAll, List.foldl_append]
  rfl

end Happenings

/-- A subscription finds a bar: the brokerage has it, it lies in the window, and it is newer
than all that is stored. -/
structure Finds (s : Service MemoryStore SimulatedBrokerage) (symbol : String) (now : Instant) (query : String)
    (b : Bar Float) : Prop where
  resolved : s.brokerage.resolve? query = some symbol
  held : b ∈ s.tradedBars symbol
  inside : ∃ window, s.rules.clock.daysAgo? now s.rules.historyDays = some window ∧ window.ms ≤ b.time.ms
  newer : ∀ c ∈ (s.store.series symbol).values, c.time.ms < b.time.ms

/-- A happening brings a bar into the store: the writer writes it, or a subscription finds it. -/
def Adds (s : Service MemoryStore SimulatedBrokerage) (symbol : String) (b : Bar Float) : Happening → Prop
  | .move .flush => b ∈ archived symbol s.queue.jobs
  | .call (.subscribe now query) => s.Finds symbol now query b
  | _ => False

/-- The stored bars of a symbol and those that wait to be written are among some. -/
structure Backed (symbol : String) (all : List (Bar Float)) (s : Service MemoryStore SimulatedBrokerage) :
    Prop where
  filed : (s.store.series symbol).Filed
  stored : ∀ b ∈ (s.store.series symbol).values, b ∈ all
  queued : ∀ b ∈ archived symbol s.queue.jobs, b ∈ all

/-- At a happening, the traded bars that the brokerage has of a symbol and those that the
stream delivers are among some, and a subscription succeeds. -/
structure Regular (symbol : String) (all : List (Bar Float)) (s : Service MemoryStore SimulatedBrokerage)
    (h : Happening) : Prop where
  held : ∀ b ∈ s.tradedBars symbol, b ∈ all
  delivered : ∀ batch, h = .move (.bars batch) → ∀ b ∈ batch, b.symbol = symbol → b.isTraded = true → b ∈ all
  succeeds : ∀ now query, h = .call (.subscribe now query) → (s.call (.subscribe now query)).1 = .ok ()

/-- Everything that happens is regular. -/
def RegularRun (symbol : String) (all : List (Bar Float)) : Service MemoryStore SimulatedBrokerage → List Happening → Prop
  | _, [] => True
  | s, h :: rest => Regular symbol all s h ∧ RegularRun symbol all (s.undergo h) rest

theorem regularRun_traded {symbol : String} {all : List (Bar Float)} {s : Service MemoryStore SimulatedBrokerage}
    {hs : List Happening} (regular : RegularRun symbol all s hs) :
    RegularRun symbol (all.filter Bar.isTraded) s hs := by
  induction hs generalizing s with
  | nil => trivial
  | cons h rest ih =>
    obtain ⟨now, later⟩ := regular
    refine ⟨⟨fun b hb => ?_, fun batch same b hb own traded => ?_, now.succeeds⟩, ih later⟩
    · exact List.mem_filter.mpr ⟨now.held b hb, (List.mem_filter.mp hb).2⟩
    · exact List.mem_filter.mpr ⟨now.delivered batch same b hb own traded, traded⟩

theorem regularRun_append {symbol : String} {all : List (Bar Float)} {s : Service MemoryStore SimulatedBrokerage}
    {hs more : List Happening} :
    RegularRun symbol all s (hs ++ more) ↔ RegularRun symbol all s hs ∧ RegularRun symbol all (s.undergoAll hs) more := by
  induction hs generalizing s with
  | nil => simp [RegularRun]
  | cons h rest ih => rw [List.cons_append, RegularRun, RegularRun, ih, and_assoc, undergoAll_cons]

/-! ### Moves -/

section Moves
variable {s : Service MemoryStore SimulatedBrokerage}

/-- What the desk wants archived of a symbol at a move was delivered and traded. -/
theorem archived_sent {symbol : String} {mv : Move} {b : Bar Float} (h : b ∈ archived symbol (s.sent mv)) :
    ∃ batch, mv = .bars batch ∧ b ∈ batch ∧ b.symbol = symbol ∧ b.isTraded = true := by
  cases mv with
  | flush => cases h
  | finish place succeeds =>
    have silent : archived symbol (s.sent (.finish place succeeds)) = [] :=
      (Desk.finish_frame s.desk place succeeds symbol).2
    rw [silent] at h
    cases h
  | bars batch =>
    have routed : archived symbol (s.sent (.bars batch)) = _ :=
      Desk.archived_hear_all s.desk (s.desk.registry.routeBars batch) symbol
    rw [routed, List.mem_filter, List.mem_map] at h
    obtain ⟨⟨p, hp, rfl⟩, traded⟩ := h
    obtain ⟨listed, own⟩ := List.mem_filter.mp hp
    obtain ⟨c, hc, heard⟩ := List.mem_flatMap.mp listed
    refine ⟨batch, rfl, ?_, (of_decide_eq_true own).2, traded⟩
    split at heard
    · obtain ⟨listener, -, rfl⟩ := List.mem_map.mp heard
      exact hc
    · cases heard

/-- A move other than a flush leaves the store, and queues what is sent at most. -/
theorem move_quiet (symbol : String) {mv : Move} (other : mv ≠ .flush) :
    (s.move mv).store = s.store ∧ ∀ b ∈ archived symbol (s.move mv).queue.jobs,
      b ∈ archived symbol s.queue.jobs ∨ b ∈ archived symbol (s.sent mv) := by
  have performed : ∀ (d : Desk) (effects : List Desk.Effect), Desk.stored effects = s.sent mv →
      ({ s with desk := d }.perform effects).store = s.store ∧
        ∀ b ∈ archived symbol ({ s with desk := d }.perform effects).queue.jobs,
          b ∈ archived symbol s.queue.jobs ∨ b ∈ archived symbol (s.sent mv) := by
    intro d effects sent
    obtain ⟨audience, same⟩ := perform_frame { s with desk := d } effects
    rw [same, sent]
    exact ⟨rfl, fun b hb => WriteQueue.archived_offerAll hb⟩
  cases mv with
  | flush => exact absurd rfl other
  | finish place succeeds => exact performed _ _ rfl
  | bars batch =>
    simp only [move, read]
    split
    · exact ⟨rfl, fun b hb => .inl hb⟩
    split
    · exact ⟨rfl, fun b hb => .inl hb⟩
    · exact performed _ _ rfl

end Moves

/-! ### Calls -/

section Calls
variable {s s' : Service MemoryStore SimulatedBrokerage} {symbol : String}

/-- To unsubscribe leaves the bars, stored and queued. -/
theorem unsubscribe_quiet (s : Service MemoryStore SimulatedBrokerage) (query : String) :
    (s.call (.unsubscribe query)).2.store.bars = s.store.bars ∧
      (s.call (.unsubscribe query)).2.queue = s.queue := by
  simp only [call, carryOut_unsubscribe]
  generalize leaving query = name
  split
  · exact ⟨rfl, rfl⟩
  obtain ⟨brokerage, desk, left⟩ := dismiss_frame name s
  generalize dismiss name s = dismissed at left ⊢
  obtain ⟨s₁, r | _⟩ := dismissed
  · dsimp only at left ⊢
    rw [left]
    exact ⟨rfl, rfl⟩
  · obtain ⟨audience, told⟩ := publish_frame (forget name s₁) (.unsubscribeChart name)
    dsimp only at left ⊢
    rw [told, left]
    exact ⟨rfl, rfl⟩

/-- The backfill starts at the window, or a minute after the newest bar that is stored of it. -/
theorem backfillStart_ok_iff {since window : Instant} :
    s.carryOut (backfillStart window symbol) = (.ok since, s) ↔
      match ((s.store.series symbol).since window).getLast? with
      | none => since = window
      | some b => b.time.plus? 60000 = some since := by
  have latest : Store.latestBar s.store symbol window =
      .ok ((s.store.series symbol).since window).getLast? := rfl
  rw [backfillStart, carryOut_bind, carryOut_load, latest]
  cases ((s.store.series symbol).since window).getLast? with
  | none => simp [eq_comm]
  | some b => cases later : b.time.plus? 60000 <;> simp [later, Failure.inCalendar]

/-- Of bars at whole minutes, the backfill starts before those of the window that are newer
than all that is stored. -/
theorem start_le_iff {since window : Instant}
    (started : s.carryOut (backfillStart window symbol) = (.ok since, s))
    (filed : (s.store.series symbol).Filed)
    (stored : ∀ c ∈ (s.store.series symbol).values, c.time.ms % 60000 = 0) {t : Instant}
    (aligned : t.ms % 60000 = 0) :
    since.ms ≤ t.ms ↔ window.ms ≤ t.ms ∧ ∀ c ∈ (s.store.series symbol).values, c.time.ms < t.ms := by
  have start := backfillStart_ok_iff.mp started
  cases last : ((s.store.series symbol).since window).getLast? with
  | none =>
    rw [last] at start
    rw [show since = window from start]
    exact ⟨fun inside => ⟨inside, (BarSeries.older_iff filed inside).mpr (by simp [last])⟩, And.left⟩
  | some newest =>
    rw [last] at start
    have later : since.ms = newest.time.ms + 60000 := Instant.plus?_ms start
    obtain ⟨listed, shown⟩ := List.mem_filter.mp (List.mem_of_getLast? last)
    have := of_decide_eq_true shown
    have whole := stored newest listed
    constructor
    · intro reached
      have inside : window.ms ≤ t.ms := by omega
      refine ⟨inside, (BarSeries.older_iff filed inside).mpr fun c same => ?_⟩
      obtain rfl := Option.some.inj (last.symm.trans same)
      omega
    · rintro ⟨-, newer⟩
      -- both are whole minutes, so what is newer is newer by a minute
      have := newer newest listed
      omega

/-- What a subscription fetches is what it finds. -/
theorem fetched_iff {now window since : Instant} {query : String} {m : Monitor Float}
    {mid : Service MemoryStore SimulatedBrokerage} {asked : SimulatedBrokerage} {fetched all : List (Bar Float)}
    (answered : Answered now query s mid m window since asked fetched) (minutely : Minutely all)
    (backed : Backed m.symbol all s) (held : ∀ b ∈ s.tradedBars m.symbol, b ∈ all) (b : Bar Float) :
    b ∈ fetched ↔ s.Finds m.symbol now query b := by
  obtain ⟨same, known⟩ := Prod.mk.inj answered.resolved
  subst same
  have whole : ∀ c ∈ (s.store.series m.symbol).values, c.time.ms % 60000 = 0 :=
    fun c hc => minutely.aligned c (backed.stored c hc)
  have started (offered : b ∈ s.tradedBars m.symbol) :=
    start_le_iff answered.started backed.filed whole (minutely.aligned b (held b offered))
  have fetch : (s.brokerage.barsSince m.symbol since).filter Bar.isTraded = fetched :=
    Except.ok.inj answered.history
  rw [← fetch, SimulatedBrokerage.barsSince, List.filter_filter, List.mem_filter]
  constructor
  · rintro ⟨listed, both⟩
    obtain ⟨traded, reached⟩ := Bool.and_eq_true_iff.mp both
    have offered : b ∈ s.tradedBars m.symbol := List.mem_filter.mpr ⟨listed, traded⟩
    obtain ⟨inside, newer⟩ := (started offered).mp (of_decide_eq_true reached)
    exact ⟨Except.ok.inj known, offered, ⟨window, answered.dated, inside⟩, newer⟩
  · rintro ⟨-, offered, ⟨window', dated, inside⟩, newer⟩
    obtain rfl := Option.some.inj (answered.dated.symm.trans dated)
    obtain ⟨listed, traded⟩ := List.mem_filter.mp offered
    have reached := (started offered).mpr ⟨inside, newer⟩
    exact ⟨listed, Bool.and_eq_true_iff.mpr ⟨traded, decide_eq_true reached⟩⟩

theorem series_of_bars {store store' : MemoryStore} (same : store'.bars = store.bars) (symbol : String) :
    store'.series symbol = store.series symbol := by
  rw [MemoryStore.series, same, MemoryStore.series]

/-- A subscription that succeeds saves what it finds, and queues no bars. -/
theorem subscribe_saves {now : Instant} {query : String} {snapshot : Snapshot Float} {all : List (Bar Float)}
    (subscribed : s.carryOut (subscribe now query) = (.ok snapshot, s')) (minutely : Minutely all)
    (backed : Backed symbol all s) (held : ∀ b ∈ s.tradedBars symbol, b ∈ all) :
    (∃ added, s'.store.series symbol = (s.store.series symbol).merge added ∧
      ∀ b, b ∈ added ↔ s.Finds symbol now query b) ∧
    archived symbol s'.queue.jobs = archived symbol s.queue.jobs := by
  obtain ⟨m, mid, window, since, asked, fetched, -, answered, installed⟩ := subscribe_answered subscribed
  obtain ⟨brokerage, us, performed⟩ := answered.service
  obtain ⟨-, -, lists, queue⟩ := answered.prepared.frame
  refine ⟨?_, by rw [installed.queue, queue, WriteQueue.archived_offerLists]⟩
  have saved : s'.store.series symbol =
      if m.symbol = symbol then (s.store.series symbol).merge fetched else s.store.series symbol := by
    have remembered : s'.store.bars = mid.store.bars := by rw [installed.store]; rfl
    rw [series_of_bars remembered, performed, perform_store]
    exact MemoryStore.series_saveBars s.store m.symbol symbol fetched
  by_cases own : m.symbol = symbol
  · subst own
    exact ⟨fetched, by rw [saved, if_pos rfl], fetched_iff answered minutely backed held⟩
  · refine ⟨[], by rw [saved, if_neg own]; rfl, fun b => ⟨nofun, fun found => absurd ?_ own⟩⟩
    have known : s.brokerage.resolve? query = some m.symbol :=
      Except.ok.inj (Prod.mk.inj answered.resolved).2
    exact Option.some.inj (known.symm.trans found.resolved)

end Calls

/-! ### What is stored -/

section Stored
variable {s : Service MemoryStore SimulatedBrokerage} {symbol : String} {all : List (Bar Float)}

/-- A happening merges into the series what it adds. -/
theorem series_undergo (minutely : Minutely all) (backed : Backed symbol all s) {h : Happening}
    (regular : Regular symbol all s h) :
    (∃ added, (s.undergo h).store.series symbol = (s.store.series symbol).merge added ∧
      ∀ b, b ∈ added ↔ s.Adds symbol b h) ∧
    ∀ b ∈ archived symbol (s.undergo h).queue.jobs, b ∈ all := by
  have nothing (none : ∀ b, ¬ s.Adds symbol b h)
      (same : (s.undergo h).store.series symbol = s.store.series symbol) :
      ∃ added, (s.undergo h).store.series symbol = (s.store.series symbol).merge added ∧
        ∀ b, b ∈ added ↔ s.Adds symbol b h :=
    ⟨[], same, fun b => ⟨nofun, fun adds => (none b adds).elim⟩⟩
  cases h with
  | move mv =>
    have quiet (other : mv ≠ .flush) : (s.move mv).store = s.store ∧
        ∀ b ∈ archived symbol (s.move mv).queue.jobs, b ∈ all := by
      obtain ⟨store, queued⟩ := move_quiet symbol other
      refine ⟨store, fun b hb => ?_⟩
      rcases queued b hb with waited | sent
      · exact backed.queued b waited
      · obtain ⟨batch, rfl, given, own, traded⟩ := archived_sent sent
        exact regular.delivered batch rfl b given own traded
    cases mv with
    | flush =>
      refine ⟨⟨_, MemoryStore.series_writeBatch s.store s.queue.jobs symbol, fun b => Iff.rfl⟩, fun b hb => ?_⟩
      cases hb
    | bars batch =>
      obtain ⟨store, queued⟩ := quiet nofun
      exact ⟨nothing (fun _ => id) (congrArg (·.series symbol) store), queued⟩
    | finish place succeeds =>
      obtain ⟨store, queued⟩ := quiet nofun
      exact ⟨nothing (fun _ => id) (congrArg (·.series symbol) store), queued⟩
  | call c =>
    rw [undergo_call] at nothing ⊢
    cases c with
    | unsubscribe query =>
      obtain ⟨bars, queue⟩ := unsubscribe_quiet s query
      rw [queue]
      exact ⟨nothing (fun _ => id) (series_of_bars bars symbol), backed.queued⟩
    | subscribe now query =>
      obtain ⟨snapshot, ok, -⟩ := except_map_ok (regular.succeeds now query rfl)
      have subscribed : s.carryOut (subscribe now query) = (.ok snapshot, (s.call (.subscribe now query)).2) :=
        Prod.ext ok rfl
      obtain ⟨saved, queued⟩ := subscribe_saves subscribed minutely backed regular.held
      rw [queued]
      exact ⟨saved, backed.queued⟩
  | learn name bars => exact ⟨nothing (fun _ => id) rfl, backed.queued⟩

theorem adds_among (backed : Backed symbol all s) {h : Happening} (regular : Regular symbol all s h) {b : Bar Float}
    (adds : s.Adds symbol b h) : b ∈ all := by
  cases h with
  | move mv =>
    cases mv with
    | flush => exact backed.queued b adds
    | bars batch => exact adds.elim
    | finish place succeeds => exact adds.elim
  | call c =>
    cases c with
    | subscribe now query => exact regular.held b adds.held
    | unsubscribe query => exact adds.elim
  | learn name bars => exact adds.elim

/-- What is stored stays, and what a happening adds comes in. -/
theorem stored_undergo (minutely : Minutely all) (backed : Backed symbol all s) {h : Happening}
    (regular : Regular symbol all s h) :
    Backed symbol all (s.undergo h) ∧
      ∀ b, b ∈ ((s.undergo h).store.series symbol).values ↔
        b ∈ (s.store.series symbol).values ∨ s.Adds symbol b h := by
  obtain ⟨⟨added, merged, adds⟩, queued⟩ := series_undergo minutely backed regular
  have among : ∀ b ∈ added, b ∈ all := fun b hb => adds_among backed regular ((adds b).mp hb)
  have stored : ∀ b, b ∈ ((s.undergo h).store.series symbol).values → b ∈ all := by
    intro b hb
    rw [merged] at hb
    exact (BarSeries.mem_or_mem_of_mem_values_merge backed.filed hb).elim (backed.stored b) (among b)
  refine ⟨⟨?_, stored, queued⟩, fun b => ?_⟩
  · rw [merged]
    exact BarSeries.filed_merge backed.filed added
  · rw [← adds, merged]
    refine ⟨BarSeries.mem_or_mem_of_mem_values_merge backed.filed, fun either => ?_⟩
    have known : b ∈ all := either.elim (backed.stored b) (among b)
    exact (BarSeries.mem_values_merge backed.filed fun c hc same =>
      minutely.single c (among c hc) b known same).mpr either

/-- Just the bars are stored after a run that were before it or that some happening added. -/
theorem stored_iff (minutely : Minutely all) (backed : Backed symbol all s) {hs : List Happening}
    (regular : RegularRun symbol all s hs) :
    Backed symbol all (s.undergoAll hs) ∧
      ∀ b, b ∈ ((s.undergoAll hs).store.series symbol).values ↔ b ∈ (s.store.series symbol).values ∨
        ∃ before h after, hs = before ++ h :: after ∧ (s.undergoAll before).Adds symbol b h := by
  induction hs generalizing s with
  | nil => exact ⟨backed, fun b => by simp⟩
  | cons h rest ih =>
    obtain ⟨now, later⟩ := regular
    obtain ⟨kept, next⟩ := stored_undergo minutely backed now
    obtain ⟨backed', stored⟩ := ih kept later
    refine ⟨backed', fun b => ?_⟩
    rw [undergoAll_cons, stored, next, or_assoc]
    -- the first happening stands behind no other one
    refine or_congr_right ⟨?_, ?_⟩
    · rintro (adds | ⟨before, k, after, rfl, adds⟩)
      · exact ⟨[], h, rest, rfl, adds⟩
      · exact ⟨h :: before, k, after, rfl, adds⟩
    · rintro ⟨before, k, after, split, adds⟩
      rcases List.cons_eq_append_iff.mp split with ⟨rfl, same⟩ | ⟨before, rfl, same⟩
      · obtain ⟨rfl, rfl⟩ := List.cons.inj same
        exact .inl adds
      · exact .inr ⟨before, k, after, same, adds⟩

theorem backed_start (symbol : String) (all : List (Bar Float)) (empty : s.store = .empty) (idle : s.queue.jobs = []) :
    Backed symbol all s := by
  have bare : s.store.series symbol = .empty := by rw [empty]; rfl
  refine ⟨?_, ?_, ?_⟩
  · rw [bare]
    exact BarSeries.filed_empty
  · rw [bare]
    nofun
  · rw [idle]
    nofun

end Stored

/-! ### What a subscription misses -/

/-- **A subscription misses just the bars that were overtaken.** Start with an empty store
and queue, let bars come from the stream, recomputes come back and the writer wake up in any
order, let users subscribe and unsubscribe, subscriptions with success, and let the brokerage
get new histories. Of a symbol, let the traded bars that the brokerage has when something
happens, and those that the stream delivers, be among some with one for each minute, as they
are if the history only grows and the stream delivers some of it. Then after a subscription of
the symbol the seeded history has a bar of the window if and only if the writer had written
it, or some subscription, this one or an earlier one, found it: the brokerage held it then, and
nothing as new was stored. -/
theorem backfilled_iff {s s' : Service MemoryStore SimulatedBrokerage} (empty : s.store = .empty)
    (idle : s.queue.jobs = []) {hs : List Happening} {now : Instant} {query : String} {snapshot : Snapshot Float}
    (subscribed : (s.undergoAll hs).carryOut (subscribe now query) = (.ok snapshot, s')) {all : List (Bar Float)}
    (minutely : Minutely all)
    (regular : RegularRun snapshot.symbol all s (hs ++ [.call (.subscribe now query)])) :
    ∃ window slot, (s.undergoAll hs).rules.clock.daysAgo? now (s.undergoAll hs).rules.historyDays = some window ∧
      s'.desk.slots.find? snapshot.symbol = some slot ∧
      ∀ b : Bar Float, window.ms ≤ b.time.ms →
        (b ∈ slot.monitor.history ↔
          ∃ before h after, hs ++ [.call (.subscribe now query)] = before ++ h :: after ∧
            (s.undergoAll before).Adds snapshot.symbol b h) := by
  obtain ⟨m, mid, window, since, asked, fetched, rfl, answered, installed⟩ := subscribe_answered subscribed
  have single := minutely.filter Bar.isTraded
  have traded := regularRun_traded regular
  have start := backed_start (s := s) m.symbol (all.filter Bar.isTraded) empty idle
  obtain ⟨backed, -⟩ := stored_iff single start (regularRun_append.mp traded).1
  obtain ⟨-, stored⟩ := stored_iff single start traded
  obtain ⟨-, history, -⟩ := history_prepared answered.prepared backed.filed
    fun b hb => (List.mem_filter.mp (backed.stored b hb)).2
  have after : s.undergoAll (hs ++ [.call (.subscribe now query)]) = s' := by
    rw [undergoAll_concat, undergo_call]
    exact congrArg Prod.snd subscribed
  have series : s'.store.series m.symbol = mid.store.series m.symbol :=
    series_of_bars (by rw [installed.store]; rfl) m.symbol
  have bare : s.store.series m.symbol = .empty := by rw [empty]; rfl
  refine ⟨window, .fresh m (mid.desk.lastEpoch + 1), answered.dated, ?_, fun b inside => ?_⟩
  · rw [installed.desk, install_new installed.new]
    simp [Monitor.snapshot]
  · have listed : b ∈ m.history ↔ b ∈ (s'.store.series m.symbol).values := by
      rw [history, series, BarSeries.since, List.mem_filter]
      exact and_iff_left (decide_eq_true inside)
    rw [← after, stored, bare] at listed
    exact listed.trans (or_iff_right List.not_mem_nil)

/-! ### A bar that is never fetched -/

section Skipping
open Desk (plainBar plainMonitor)

/-- The bars of three minutes. -/
def plainBars : List (Bar Float) := [plainBar 0, plainBar 1, plainBar 2]

/-- The brokerage gets two more bars, and the stream leaves out the first of them. -/
def skipping : List Happening :=
  [.call (.subscribe ⟨60000⟩ "XYZ"), .learn "XYZ" plainBars, .move (.bars [plainBar 2]), .move .flush,
    .call (.unsubscribe "XYZ")]

theorem leaving_plain : leaving "XYZ" = "XYZ" := by decide +kernel

theorem insertHistory_plain (b : SimulatedBrokerage) :
    b.insertHistory "XYZ" plainBars = { b with history := b.history.insert "XYZ" plainBars } := by
  have upper : Text.upper "XYZ" = "XYZ" := by decide +kernel
  have sorted : plainBars.mergeSort (fun x y => x.time.ms ≤ y.time.ms) = plainBars :=
    List.mergeSort_of_pairwise (by simp [plainBars, plainBar])
  simp only [SimulatedBrokerage.insertHistory, upper, sorted]

/-- The service in the end; a recompute of the dropped monitor is still under way. -/
def skipped (m : Monitor Float) : Service MemoryStore SimulatedBrokerage :=
  { plainService with
    desk := ⟨.empty, .empty, .empty, 1, [⟨"XYZ", 1, { m with earlier := [plainBar 0], latest := plainBar 2 }⟩]⟩
    session := ⟨[.quote, .chart]⟩
    store := ⟨.empty, .ofList [("XYZ", .ofList [(⟨0⟩, plainBar 0), (⟨120000⟩, plainBar 2)])], .empty⟩
    brokerage :=
      { plainService.brokerage with
        history := .ofList [("XYZ", plainBars)]
        requests := [⟨.chart, .opening, ["XYZ"]⟩, ⟨.quote, .opening, ["XYZ"]⟩, ⟨.chart, .remove, ["XYZ"]⟩,
          ⟨.quote, .remove, ["XYZ"]⟩] } }

section Run
variable {levels : List (PriceLevel Float)} {range : Option Float}
  (derived : plainMonitor.derive? = some ⟨[], [], levels, range⟩)
include derived

theorem call_plain : plainService.call (.subscribe ⟨60000⟩ "XYZ") =
    (.ok (), streaming { plainMonitor with levels, averageRange := range }) := by
  simp only [call, subscribe_plain derived]
  rfl

theorem undergoAll_skipping :
    plainService.undergoAll skipping = skipped { plainMonitor with levels, averageRange := range } := by
  simp only [skipping, undergoAll_cons, undergoAll_nil, undergo, call_plain derived, insertHistory_plain]
  simp only [call, carryOut_unsubscribe, leaving_plain]
  rfl

end Run

theorem resolve_plain {b : SimulatedBrokerage} {bars : List (Bar Float)}
    (h : b.history = .ofList [("XYZ", bars)]) : b.resolve? "XYZ" = some "XYZ" := by
  have name : Text.upper (Text.trim "XYZ") = "XYZ" := leaving_plain
  simp only [SimulatedBrokerage.resolve?, name, h]
  rfl

/-- Nothing is fetched, since the newest bar of all is stored. -/
theorem subscribe_skipped (m : Monitor Float) :
    ∃ snapshot s' slot, (skipped m).carryOut (subscribe ⟨180000⟩ "XYZ") = (.ok snapshot, s') ∧
      snapshot.symbol = "XYZ" ∧ s'.desk.slots.find? "XYZ" = some slot ∧
      slot.monitor.history = [plainBar 0, plainBar 2] := by
  let bars : List (Bar Float) := [plainBar 0, plainBar 2]
  let held : Monitor Float := { plainMonitor with earlier := [plainBar 0], latest := plainBar 2 }
  have window : held.rules.clock.daysAgo? held.lastUpdated held.rules.historyDays = some ⟨-604800000⟩ := rfl
  have charts : held.charts = [] := rfl
  obtain ⟨levels, range, derived⟩ := Desk.derives_without_charts charts window
  have usable : Monitor.usable bars = bars := Monitor.usable_of_inTurn ⟨by decide, by decide⟩
  have seeded : Monitor.seed plainMonitor.rules "XYZ" bars .empty =
      .ok ({ held with levels, averageRange := range }, []) :=
    Monitor.seed_eq_ok.mpr ⟨[plainBar 0], plainBar 2, _, usable, derived, rfl⟩
  have resolved : Brokerage.resolve (skipped m).brokerage "XYZ" = ((skipped m).brokerage, .ok (some "XYZ")) := by
    rw [← resolve_plain (b := (skipped m).brokerage) rfl]
    rfl
  have dated : (skipped m).rules.clock.daysAgo? ⟨180000⟩ (skipped m).rules.historyDays = some ⟨-604800000⟩ := rfl
  have started : (skipped m).carryOut (backfillStart ⟨-604800000⟩ "XYZ") = (.ok ⟨180000⟩, skipped m) :=
    backfillStart_ok_iff.mpr rfl
  have history : Brokerage.tradedHistory (skipped m).brokerage "XYZ" ⟨180000⟩ ⟨180000⟩ =
      ((skipped m).brokerage, .ok []) := rfl
  have day : (skipped m).rules.clock.day? ⟨180000⟩ = some ⟨0⟩ := rfl
  have loaded : Store.loadBars (Store.saveBars (skipped m).store "XYZ" []).1 "XYZ" ⟨-604800000⟩ = .ok bars := rfl
  have read : Store.loadRecord (Store.saveBars (skipped m).store "XYZ" []).1 "XYZ" ⟨0⟩ = .ok .empty := rfl
  have prepared := carryOut_prepare resolved rfl rfl dated started history day rfl loaded read seeded
  rw [carryOut_subscribe, prepared]
  exact ⟨_, _, .fresh { held with levels, averageRange := range } 2, rfl, rfl, rfl, rfl⟩

theorem minutely_plain : Minutely plainBars :=
  ⟨by simp [plainBars, plainBar], by simp [plainBars, plainBar]⟩

theorem derives_plain : ∃ levels range, plainMonitor.derive? = some ⟨[], [], levels, range⟩ := by
  have window : plainMonitor.rules.clock.daysAgo? plainMonitor.lastUpdated plainMonitor.rules.historyDays =
      some ⟨-604800000⟩ := rfl
  have charts : plainMonitor.charts = [] := rfl
  exact Desk.derives_without_charts charts window

theorem regular_plain {s : Service MemoryStore SimulatedBrokerage} {bars : List (Bar Float)}
    (history : s.brokerage.history = .ofList [("XYZ", bars)]) (among : ∀ b ∈ bars, b ∈ plainBars) {h : Happening}
    (delivered : ∀ batch, h = .move (.bars batch) → batch = [plainBar 2])
    (succeeds : ∀ now query, h = .call (.subscribe now query) → (s.call (.subscribe now query)).1 = .ok ()) :
    Regular "XYZ" plainBars s h := by
  refine ⟨fun b hb => ?_, fun batch same b hb _ _ => ?_, succeeds⟩
  · rw [tradedBars, history] at hb
    exact among b (List.mem_filter.mp hb).1
  · rw [delivered batch same, List.mem_singleton] at hb
    simp [hb, plainBars]

/-- The stream delivers bars of the growing history, and both subscriptions succeed. -/
theorem regular_skipping :
    RegularRun "XYZ" plainBars plainService (skipping ++ [.call (.subscribe ⟨180000⟩ "XYZ")]) := by
  obtain ⟨levels, range, derived⟩ := derives_plain
  obtain ⟨snapshot, s', slot, again, -⟩ := subscribe_skipped { plainMonitor with levels, averageRange := range }
  have first : ∀ b ∈ [plainBar 0], b ∈ plainBars := by simp [plainBars]
  have all : ∀ b ∈ plainBars, b ∈ plainBars := fun _ => id
  refine regularRun_append.mpr ⟨⟨?_, ?_⟩, ?_, trivial⟩
  · refine regular_plain rfl first nofun fun now query same => ?_
    cases same
    rw [call_plain derived]
  · rw [undergo_call, call_plain derived]
    refine ⟨?_, ?_, ?_, ?_, trivial⟩
    · exact regular_plain rfl first nofun nofun
    all_goals simp only [undergo, insertHistory_plain]
    · exact regular_plain rfl all (fun batch same => by cases same; rfl) nofun
    · exact regular_plain rfl all nofun nofun
    · exact regular_plain rfl all nofun nofun
  · rw [undergoAll_skipping derived]
    refine regular_plain rfl all nofun fun now query same => ?_
    cases same
    simp only [call, again]
    rfl

/-- The brokerage holds the bar that the stream has left out, and the seeded history lacks it. -/
theorem backfill_skips : ∃ snapshot s' window slot,
    plainService.store = .empty ∧ plainService.queue.jobs = [] ∧ Minutely plainBars ∧
      RegularRun "XYZ" plainBars plainService (skipping ++ [.call (.subscribe ⟨180000⟩ "XYZ")]) ∧
      (plainService.undergoAll skipping).carryOut (subscribe ⟨180000⟩ "XYZ") = (.ok snapshot, s') ∧
      plainService.rules.clock.daysAgo? ⟨180000⟩ plainService.rules.historyDays = some window ∧
      s'.desk.slots.find? "XYZ" = some slot ∧
      plainBar 1 ∈ (plainService.undergoAll skipping).tradedBars "XYZ" ∧
      window.ms ≤ (plainBar 1).time.ms ∧ plainBar 1 ∉ slot.monitor.history := by
  obtain ⟨levels, range, derived⟩ := derives_plain
  obtain ⟨snapshot, s', slot, again, -, found, history⟩ :=
    subscribe_skipped { plainMonitor with levels, averageRange := range }
  have regular := regular_skipping
  have held : (skipped { plainMonitor with levels, averageRange := range }).tradedBars "XYZ" = plainBars := rfl
  rw [undergoAll_skipping derived]
  refine ⟨snapshot, s', ⟨-604800000⟩, slot, rfl, rfl, minutely_plain, regular, again, rfl, found, ?_, by decide, ?_⟩
  · rw [held]
    simp [plainBars]
  · rw [history]
    simp [plainBar]

theorem backfilled_iff_skipped : ∃ snapshot s' window slot,
    plainService.store = .empty ∧ plainService.queue.jobs = [] ∧ Minutely plainBars ∧
      (plainService.undergoAll skipping).carryOut (subscribe ⟨180000⟩ "XYZ") = (.ok snapshot, s') ∧
      RegularRun snapshot.symbol plainBars plainService (skipping ++ [.call (.subscribe ⟨180000⟩ "XYZ")]) ∧
      (plainService.undergoAll skipping).rules.clock.daysAgo? ⟨180000⟩
        (plainService.undergoAll skipping).rules.historyDays = some window ∧
      s'.desk.slots.find? snapshot.symbol = some slot ∧
      ∀ b : Bar Float, window.ms ≤ b.time.ms →
        (b ∈ slot.monitor.history ↔
          ∃ before h after, skipping ++ [.call (.subscribe ⟨180000⟩ "XYZ")] = before ++ h :: after ∧
            (plainService.undergoAll before).Adds snapshot.symbol b h) := by
  obtain ⟨levels, range, derived⟩ := derives_plain
  obtain ⟨snapshot, s', -, again, symbol, -⟩ :=
    subscribe_skipped { plainMonitor with levels, averageRange := range }
  rw [← undergoAll_skipping derived] at again
  have regular : RegularRun snapshot.symbol plainBars plainService
      (skipping ++ [.call (.subscribe ⟨180000⟩ "XYZ")]) := by
    rw [symbol]
    exact regular_skipping
  obtain ⟨window, slot, dated, found, overtaken⟩ := backfilled_iff rfl rfl again minutely_plain regular
  exact ⟨snapshot, s', window, slot, rfl, rfl, minutely_plain, again, regular, dated, found, overtaken⟩

end Skipping
end Service
end TickerBoard

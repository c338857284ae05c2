import TickerBoard.Proofs.Desk.Due
import TickerBoard.Proofs.Monitor.Figures
import TickerBoard.Proofs.Monitor.Restart

/-! What the snapshots of a desk show.

A slot shows the history of its monitor when it is at rest, and with a
recompute under way the one before the bar that it took (`Slot.Current`). Every
event keeps that for monitors that were seeded, as long as no recompute fails
(`current_run`). A snapshot that is published is that of a monitor that a
derived part was just put into, so its figures are those of the history up to
its last update; one that is asked for may be a bar behind
(`snapshots_consistent`, `snapshot_lags`). -/
namespace TickerBoard

/-- The part of a history up to an instant. -/
def upTo (t : Instant) (history : List (Bar Float)) : List (Bar Float) :=
  history.filter fun b => b.time.ms ≤ t.ms

theorem upTo_lastUpdated (m : Monitor Float) {later : List (Bar Float)} (turn : InTurn (m.history ++ later)) :
    upTo m.lastUpdated (m.history ++ later) = m.history := by
  obtain ⟨own, -, after⟩ := List.pairwise_append.mp turn.ascending
  have before : ∀ b ∈ m.history, b.time.ms ≤ m.lastUpdated.ms := by
    intro b hb
    rcases List.mem_append.mp hb with earlier | latest
    · exact Int.le_of_lt ((List.pairwise_append.mp own).2.2 b earlier m.latest (List.mem_singleton.mpr rfl))
    · rw [List.mem_singleton.mp latest]
      exact Int.le_refl _
  have latest : m.latest ∈ m.history := List.mem_append_right _ (List.mem_singleton.mpr rfl)
  have behind : ∀ b ∈ later, ¬ decide (b.time.ms ≤ m.lastUpdated.ms) = true := fun b hb =>
    of_decide_eq_false (decide_eq_false (Int.not_le.mpr (after m.latest latest b hb))) ∘ of_decide_eq_true
  rw [upTo, List.filter_append, List.filter_eq_self.mpr fun b hb => decide_eq_true (before b hb),
    List.filter_eq_nil_iff.mpr behind, List.append_nil]

namespace Slot

/-- The history that the figures of a slot are computed from. -/
def shown (s : Slot) : List (Bar Float) :=
  if s.inFlight then s.monitor.earlier else s.monitor.history

structure Current (s : Slot) : Prop where
  inTurn : InTurn s.monitor.history
  shows : s.monitor.Shows s.shown

theorem current_fresh {m : Monitor Float} (seeded : m.Seeded) (epoch : Nat) : (fresh m epoch).Current :=
  ⟨seeded.shows.1, seeded.shows.2⟩

/-- A monitor that shows its history and takes a bar shows it still, while the result is out. -/
theorem current_taken {s s' : Slot} {b : Bar Float} (turn : InTurn s.monitor.history)
    (shows : s.monitor.Shows s.monitor.history) (accepted : s.monitor.accept b = some s'.monitor)
    (under : s'.inFlight = true) : s'.Current := by
  obtain ⟨-, turn⟩ := Monitor.inTurn_accept turn accepted
  refine ⟨turn, ?_⟩
  have before : s'.monitor.earlier = s.monitor.history := by rw [(Monitor.accept_eq_some.mp accepted).2]
  simpa [shown, under, before] using shows.accept accepted

/-- Fed with bars, a monitor that shows its history shows it still. -/
theorem current_feed {s : Slot} (turn : InTurn s.monitor.history) (shows : s.monitor.Shows s.monitor.history)
    (bars : List (Bar Float)) : (s.feed bars).Current := by
  induction bars with
  | nil => exact ⟨turn, shows⟩
  | cons b rest ih =>
    rw [feed]
    split
    · rename_i taken accepted
      exact current_taken turn shows accepted rfl
    · exact ih

theorem Current.arrive {s : Slot} (h : s.Current) (b : Bar Float) : (s.arrive b).Current := by
  cases under : s.inFlight with
  | false =>
    have shows := h.shows
    rw [shown, under] at shows
    simp only [Slot.arrive, under, Bool.false_eq_true, if_false]
    cases accepted : s.monitor.accept b with
    | none => exact h
    | some taken => exact current_taken h.inTurn shows accepted rfl
  | true =>
    have same : (s.arrive b).shown = s.shown := by simp [Slot.arrive, shown, under]
    refine ⟨?_, ?_⟩
    · simpa [Slot.arrive, under] using h.inTurn
    · rw [same]
      simpa [Slot.arrive, under] using h.shows

theorem Current.settings {s : Slot} (h : s.Current) : s.monitor.charts.map (·.settings) = s.monitor.rules.charts :=
  h.shows.settings

/-- With its result put in, the monitor of a slot shows its history. -/
theorem Current.resume {s : Slot} (h : s.Current) {derived : Derived Float} (result : s.monitor.derive? = some derived) :
    (s.resume (some derived)).Current :=
  current_feed (s := { s with monitor := (s.monitor.apply derived).1 }) h.inTurn
    (Monitor.shows_apply h.settings result) s.backlog

/-- Feeding only adds to a history. -/
theorem history_feed (s : Slot) (bars : List (Bar Float)) :
    (s.feed bars).monitor.rules = s.monitor.rules ∧
      ∃ later, (s.feed bars).monitor.history = s.monitor.history ++ later := by
  induction bars with
  | nil => exact ⟨rfl, [], (List.append_nil _).symm⟩
  | cons b rest ih =>
    rw [feed]
    split
    · rename_i taken accepted
      obtain ⟨-, rfl⟩ := Monitor.accept_eq_some.mp accepted
      exact ⟨rfl, [b], rfl⟩
    · exact ih

end Slot

namespace Desk

/-! ### The slots of a run -/

/-- Every monitor that is installed has been seeded. -/
def AllSeeded (events : List Event) : Prop := ∀ m sub, .install m sub ∈ events → m.Seeded

theorem current_run {events : List Event} (seeded : AllSeeded events) (successful : Successful empty events)
    {symbol : String} {s : Slot} (found : (empty.run events).1.slots.find? symbol = some s) : s.Current := by
  induction events using List.reverseRecOn generalizing s with
  | nil => cases found
  | append_singleton events e ih =>
    obtain ⟨before, succeeds⟩ := successful_concat.mp successful
    have ih := @ih (fun m sub h => seeded m sub (List.mem_append_left _ h)) before
    rw [run_concat] at found
    rcases slot_of_handle (due_run events) found with
      ⟨m, sub, rfl, rfl⟩ | ⟨s₀, had, rfl | ⟨place, came, r, rfl, at_place, own, -, rfl⟩⟩
    · exact Slot.current_fresh (seeded m sub (List.mem_append_right _ (List.mem_singleton.mpr rfl))) _
    · exact List.foldlRecOn _ _ (ih had) fun s h b _ => h.arrive b
    · obtain ⟨rfl, derived⟩ := succeeds r at_place
      rw [own] at derived
      obtain ⟨result, derived⟩ := Option.isSome_iff_exists.mp derived
      rw [if_pos rfl, derived]
      exact (ih had).resume derived

theorem Successful.of_append {d : Desk} {events later : List Event} (h : Successful d (events ++ later)) :
    Successful d events := by
  induction events generalizing d with
  | nil => trivial
  | cons e rest ih => exact ⟨h.1, ih h.2⟩

theorem ascending_begin {d : Desk} (h : d.slots.Ascending) (symbol : String) (s : Slot) :
    (d.begin symbol s).slots.Ascending :=
  Table.ascending_insert h symbol s

theorem ascending_hear_all {d : Desk} (h : d.slots.Ascending) (routed : List (ChartListener × Bar Float)) :
    (each hear d routed).1.slots.Ascending := by
  induction routed generalizing d with
  | nil => exact h
  | cons p rest ih =>
    refine ih ?_
    obtain ⟨listener, b⟩ := p
    cases listener with
    | archive => exact h
    | analytics =>
      simp only [analyse]
      split
      · exact h
      · split
        · exact Table.ascending_insert h _ _
        · exact ascending_begin h _ _

theorem ascending_handle {d : Desk} (h : d.slots.Ascending) (e : Event) : (d.handle e).1.slots.Ascending := by
  cases e with
  | bars bars => exact ascending_hear_all h _
  | quotes quotes =>
    obtain ⟨books, same⟩ := handle_quotes d quotes
    rw [same]
    exact h
  | install m sub =>
    simp only [handle, install]
    split
    · exact h
    · exact Table.ascending_insert h _ _
  | detach name t =>
    simp only [handle, detach]
    split
    · exact Table.ascending_erase h _
    · exact h
  | finish place succeeds =>
    simp only [handle, finish, complete]
    split
    · exact h
    · split
      · exact h
      · split
        · exact h
        · split <;> exact ascending_begin h _ _

theorem ascending_run (events : List Event) : (empty.run events).1.slots.Ascending := by
  induction events using List.reverseRecOn with
  | nil => exact Table.ascending_empty
  | append_singleton events e ih =>
    rw [run_concat]
    exact ascending_handle ih e

/-! ### What is published -/

/-- What every step asks for, all steps together ask for. -/
theorem mem_each {α : Type} {step : Desk → α → Desk × List Effect} {P : Effect → Prop}
    (h : ∀ d a, ∀ effect ∈ (step d a).2, P effect) (d : Desk) (items : List α) :
    ∀ effect ∈ (each step d items).2, P effect := by
  induction items generalizing d with
  | nil => exact fun _ hx => by cases hx
  | cons a rest ih =>
    intro effect hx
    rcases List.mem_append.mp hx with first | later
    · exact h d a effect first
    · exact ih _ effect later

theorem stored_of_hear (d : Desk) (p : ChartListener × Bar Float) :
    ∀ effect ∈ (d.hear p).2, ∃ job, effect = .store job := by
  obtain ⟨listener, b⟩ := p
  intro effect h
  cases listener with
  | analytics => cases h
  | archive =>
    simp only [hear] at h
    split at h
    · exact ⟨_, List.mem_singleton.mp h⟩
    · cases h

theorem quoted_of_takeQuote (d : Desk) (q : Quote) :
    ∀ effect ∈ (d.takeQuote q).2, ∃ quote, effect = .publish (.updateQuote quote) := by
  intro effect h
  unfold takeQuote at h
  split at h
  · cases h
  · exact ⟨_, List.mem_singleton.mp h⟩

/-- A snapshot is published of a monitor that is installed, or of one that a derived part is
put into. -/
theorem snapshot_of_handle {d : Desk} (h : ∀ symbol, d.DueAt symbol) {e : Event} {shown : Snapshot Float}
    (published : .publish (.updateChart shown) ∈ (d.handle e).2) :
    (∃ m sub, e = .install m sub ∧ shown = m.snapshot ∧
        (d.handle e).1.slots.find? m.symbol = some (.fresh m (d.lastEpoch + 1))) ∨
      ∃ place r s derived, e = .finish place true ∧ d.outstanding[place]? = some r ∧
        d.slots.find? r.symbol = some s ∧ s.monitor.derive? = some derived ∧
        shown = (s.monitor.apply derived).1.snapshot ∧
        (d.handle e).1.slots.find? r.symbol = some (s.resume (some derived)) := by
  cases e with
  | bars bars =>
    obtain ⟨job, impossible⟩ := mem_each stored_of_hear _ _ _ published
    cases impossible
  | quotes quotes =>
    obtain ⟨quote, impossible⟩ := mem_each quoted_of_takeQuote _ _ _ published
    cases impossible
  | detach name t => cases published
  | install m sub =>
    cases entered : d.registry.insert m.symbol sub with
    | error refusal =>
      simp only [handle, install, entered] at published
      cases published
    | ok registry =>
      simp only [handle, install, entered, List.mem_singleton, Effect.publish.injEq,
        ViewerEvent.updateChart.injEq] at published
      exact .inl ⟨m, sub, rfl, published, by simp [handle, install, entered]⟩
  | finish place succeeds =>
    cases at_place : d.outstanding[place]? with
    | none =>
      simp only [handle, finish, at_place] at published
      cases published
    | some r =>
      rcases finish_cases h at_place succeeds with ⟨-, same⟩ | ⟨s, found, -, -, -, -, next⟩
      · simp only [handle, same] at published
        cases published
      · simp only [handle, next] at published
        cases result : (if succeeds then s.monitor.derive? else none : Option (Derived Float)) with
        | none =>
          rw [result] at published
          cases published
        | some derived =>
          obtain ⟨rfl, derived_eq⟩ : succeeds = true ∧ s.monitor.derive? = some derived := by
            cases succeeds with
            | false => cases result
            | true => exact ⟨rfl, result⟩
          rw [result] at published
          simp only [Slot.asks, outcome, List.mem_append, List.mem_map, reduceCtorEq, and_false, exists_false,
            List.mem_singleton, Effect.publish.injEq, ViewerEvent.updateChart.injEq, false_or] at published
          refine .inr ⟨place, r, s, derived, rfl, at_place, found, derived_eq, published, ?_⟩
          simp [handle, next, begin, derived_eq]

/-! ### What is shown -/

/-- A snapshot has the figures of the history of a slot up to its last update, which is the time
of a bar. -/
def Faithful (s : Slot) (shown : Snapshot Float) : Prop :=
  (∃ b ∈ s.monitor.history, b.time = shown.lastUpdated) ∧
    figures? s.monitor.rules (upTo shown.lastUpdated s.monitor.history) = some shown.figures

/-- The snapshot of a monitor that shows its history. -/
theorem faithful_of_shows {m : Monitor Float} {s : Slot} {later : List (Bar Float)} (shows : m.Shows m.history)
    (rules : s.monitor.rules = m.rules) (grown : s.monitor.history = m.history ++ later)
    (turn : InTurn s.monitor.history) : Faithful s m.snapshot := by
  rw [grown] at turn
  refine ⟨⟨m.latest, ?_, rfl⟩, ?_⟩
  · rw [grown]
    exact List.mem_append_left _ (List.mem_append_right _ (List.mem_singleton.mpr rfl))
  · have cut : upTo m.snapshot.lastUpdated (m.history ++ later) = m.history := upTo_lastUpdated m turn
    rw [rules, grown, cut]
    exact shows.figures

/-- **Snapshots, published or asked for.** In any run in which the monitors that are installed have been
seeded and no recompute fails, a snapshot that is published, when a monitor is installed or a
recompute comes back, has the series, levels and range of its symbol's history up to its last
update. So has one that is asked for of a symbol at rest; of a symbol that waits for a
recompute, the last update is the time of the bar that was taken, and the figures are those of the
history before that bar. -/
theorem snapshots_consistent (events : List Event) (seeded : AllSeeded events) (successful : Successful empty events) :
    (∀ before e after shown, events = before ++ e :: after →
      .publish (.updateChart shown) ∈ ((empty.run before).1.handle e).2 →
      ∃ s, ((empty.run before).1.handle e).1.slots.find? shown.symbol = some s ∧ Faithful s shown) ∧
      ∀ shown ∈ (empty.run events).1.snapshots, ∃ s, (empty.run events).1.slots.find? shown.symbol = some s ∧
        (s.inFlight = false → Faithful s shown) ∧
        (s.inFlight = true → shown.lastUpdated = s.monitor.lastUpdated ∧
          figures? s.monitor.rules s.monitor.history.dropLast = some shown.figures) := by
  refine ⟨fun before e after shown split published => ?_, fun shown asked => ?_⟩
  · have whole : events = (before ++ [e]) ++ after := by rw [split, List.append_cons]
    have earlier : AllSeeded (before ++ [e]) := fun m sub h => seeded m sub (whole ▸ List.mem_append_left _ h)
    have succeeded : Successful empty (before ++ [e]) := (whole ▸ successful).of_append
    rcases snapshot_of_handle (due_run before) published with
      ⟨m, sub, rfl, rfl, found⟩ | ⟨place, r, s, derived, rfl, -, had, result, rfl, found⟩
    · have own := earlier m sub (List.mem_append_right _ (List.mem_singleton.mpr rfl))
      exact ⟨_, found, faithful_of_shows own.shows.2 rfl (List.append_nil _).symm own.shows.1⟩
    · have current := current_run (fun m sub h => earlier m sub (List.mem_append_left _ h)) succeeded.of_append had
      have name : (s.monitor.apply derived).1.snapshot.symbol = r.symbol := (sound_run sound_empty before).named _ _ had
      obtain ⟨rules, later, grown⟩ :=
        Slot.history_feed { s with monitor := (s.monitor.apply derived).1 } s.backlog
      refine ⟨_, name ▸ found, faithful_of_shows (Monitor.shows_apply current.settings result) rules grown ?_⟩
      exact (current.resume result).inTurn
  · obtain ⟨s, listed, rfl⟩ := List.mem_map.mp asked
    obtain ⟨⟨symbol, t⟩, entry, (rfl : t = s)⟩ := List.mem_map.mp listed
    have found := (Table.find?_eq_some (ascending_run events)).mpr entry
    have name : t.monitor.snapshot.symbol = symbol := (sound_run sound_empty events).named _ _ found
    have current := current_run seeded successful found
    have shows := current.shows
    refine ⟨t, name.symm ▸ found, fun rest => ?_, fun under => ⟨rfl, ?_⟩⟩
    · rw [Slot.shown, if_neg (by simp [rest])] at shows
      exact faithful_of_shows shows rfl (List.append_nil _).symm current.inTurn
    · rw [Slot.shown, if_pos under] at shows
      rw [Monitor.history, List.dropLast_concat]
      exact shows.figures

/-! ### A monitor of one bar that takes another -/

open Monitor (sessionRules flatBar)

/-- Before its charts are derived. -/
def flatSeed : Monitor Float :=
  ⟨"XYZ", sessionRules, [], flatBar 0, Monitor.startCharts sessionRules.charts .empty, [], none⟩

def flatMonitor : Monitor Float := (flatSeed.derive?.map fun d => (flatSeed.apply d).1).getD flatSeed

theorem flatMonitor_seeded : flatMonitor.Seeded := by
  have alone : Monitor.usable [flatBar 0] = [] ++ [flatBar 0] :=
    Monitor.usable_of_inTurn ⟨fun b hb => by rw [List.mem_singleton.mp hb]; rfl, List.pairwise_singleton _ _⟩
  exact ⟨sessionRules, "XYZ", [flatBar 0], .empty, _, Monitor.seed_eq_ok.mpr ⟨[], flatBar 0, _, alone, rfl, rfl⟩⟩

/-- Its recompute for the second bar has not come back. -/
def flatRun : List Event := [.install flatMonitor .full, .bars [flatBar 5]]

theorem flatRun_seeded : AllSeeded (flatRun ++ [.finish 0 true]) := by
  intro m sub h
  simp only [flatRun, List.cons_append, List.nil_append, List.mem_cons, Event.install.injEq, reduceCtorEq,
    List.not_mem_nil, or_false] at h
  rw [h.1]
  exact flatMonitor_seeded

/-- The snapshot that is asked for has the time of the second bar and a chart of the first alone. -/
theorem snapshot_lags :
    AllSeeded flatRun ∧ Successful empty flatRun ∧
      ∃ shown s, shown ∈ (empty.run flatRun).1.snapshots ∧
        (empty.run flatRun).1.slots.find? shown.symbol = some s ∧ shown.lastUpdated = (flatBar 5).time ∧
        ¬ Faithful s shown := by
  refine ⟨fun m sub h => flatRun_seeded m sub (List.mem_append_left _ h), ⟨trivial, trivial, trivial⟩, _, _,
    List.mem_singleton.mpr rfl, rfl, rfl, ?_⟩
  rintro ⟨-, same⟩
  have lengths := congrArg (Option.map fun f : Figures Float => f.series.values.map List.length) same
  have two_one : some [2] = some [1] := lengths
  cases two_one

theorem snapshots_consistent_flat :
    AllSeeded (flatRun ++ [.finish 0 true]) ∧ Successful empty (flatRun ++ [.finish 0 true]) ∧
      ∃ shown s, .publish (.updateChart shown) ∈ ((empty.run flatRun).1.handle (.finish 0 true)).2 ∧
        ((empty.run flatRun).1.handle (.finish 0 true)).1.slots.find? shown.symbol = some s ∧ Faithful s shown ∧
        shown.figures.series.values.map List.length = [2] := by
  have successful : Successful empty (flatRun ++ [.finish 0 true]) := by
    refine ⟨trivial, trivial, fun r at_place => ⟨rfl, ?_⟩, trivial⟩
    obtain rfl := Option.some.inj at_place
    rfl
  obtain ⟨published, -⟩ := snapshots_consistent _ flatRun_seeded successful
  obtain ⟨s, found, faithful⟩ := published flatRun (.finish 0 true) [] _ rfl (List.mem_singleton.mpr rfl)
  exact ⟨flatRun_seeded, successful, _, s, List.mem_singleton.mpr rfl, found, faithful, rfl⟩

end Desk
end TickerBoard

import TickerBoard.Proofs.Desk.Sequential

/-! No slot waits in vain.

Whatever happens to a desk, recomputes that fail and slots that are dropped or
replaced included, the recomputes under way that belong to a slot are one if
the slot waits for one, which carries the slot's own monitor, and none otherwise
(`due_run`). So an event does one of three things to the slot of a symbol: it
puts a fresh one in place, hands it bars, or gives it the result of its own
recompute (`slot_of_handle`). A recompute of another epoch is dropped, and
epochs are given once. -/
namespace TickerBoard

namespace Slot

/-- The slot with the result of its recompute, or the news that there is none, and with the
bars that waited for it. -/
def resume (s : Slot) (result : Option (Derived Float)) : Slot :=
  match result with
  | none => s.feed s.backlog
  | some derived => { s with monitor := (s.monitor.apply derived).1 }.feed s.backlog

/-- What the result asks for. -/
def asks (s : Slot) (result : Option (Derived Float)) : List Desk.Effect :=
  match result with
  | none => []
  | some derived => Desk.outcome (s.monitor.apply derived).1 (s.monitor.apply derived).2

@[simp] theorem resume_epoch (s : Slot) (result : Option (Derived Float)) :
    (s.resume result).epoch = s.epoch := by
  cases result <;> simp [resume]

/-- At rest nothing waits. -/
def Rested (s : Slot) : Prop := s.inFlight = false → s.backlog = []

theorem rested_feed (s : Slot) (bars : List (Bar Float)) : (s.feed bars).Rested := by
  induction bars with
  | nil => exact fun _ => rfl
  | cons b rest ih =>
    rw [feed]
    split
    · exact fun idle => Bool.noConfusion idle
    · exact ih

theorem Rested.arrive {s : Slot} (h : s.Rested) (b : Bar Float) : (s.arrive b).Rested := by
  cases under : s.inFlight with
  | true =>
    simp only [Slot.arrive, under, if_true]
    exact fun idle => Bool.noConfusion (idle : true = false)
  | false =>
    rw [arrive_of_idle under (h under)]
    exact rested_feed s _

/-- Feeding comes to rest or takes a bar out of the queue. -/
theorem feed_progress (s : Slot) (bars : List (Bar Float)) :
    (s.feed bars).inFlight = false ∨ (s.feed bars).backlog.length < bars.length := by
  induction bars with
  | nil => exact .inl rfl
  | cons b rest ih =>
    rw [feed]
    split
    · exact .inr (Nat.lt_succ_self _)
    · exact ih.imp_right Nat.lt_succ_of_lt

theorem resume_progress (s : Slot) (result : Option (Derived Float)) :
    (s.resume result).inFlight = false ∨ (s.resume result).backlog.length < s.backlog.length := by
  cases result <;> exact feed_progress _ _

theorem rested_resume (s : Slot) (result : Option (Derived Float)) : (s.resume result).Rested := by
  cases result <;> exact rested_feed _ _

end Slot

namespace Desk

/-! ### What is due to the slot of a symbol -/

/-- The recompute that the slot of a symbol waits for is the only one of its epoch. -/
def DueAt (d : Desk) (symbol : String) : Prop :=
  ∀ s, d.slots.find? symbol = some s →
    dueTo symbol s.epoch d.outstanding = if s.inFlight then [s.monitor] else []

theorem dueAt_begin {d : Desk} {symbol name : String} {put : Slot} (h : name ≠ symbol → d.DueAt symbol)
    (nothing : dueTo name put.epoch d.outstanding = []) : (d.begin name put).DueAt symbol := by
  intro s found
  simp only [begin, Table.find?_insert] at found
  split at found
  · rename_i own
    obtain rfl := Option.some.inj found
    subst own
    rw [due_begin, nothing]
    simp
  · rename_i other
    rw [due_begin, h other s found]
    simp [other]

theorem dueAt_analyse {d : Desk} (h : ∀ symbol, d.DueAt symbol) (b : Bar Float) (symbol : String) :
    (d.analyse b).DueAt symbol := by
  cases at_bar : d.slots.find? b.symbol with
  | none =>
    have same : d.analyse b = d := by rw [analyse, at_bar]
    rw [same]
    exact h symbol
  | some slot =>
    cases under : slot.inFlight with
    | true =>
      rw [analyse_busy at_bar under]
      intro s found
      rw [Table.find?_insert] at found
      split at found
      · rename_i own
        obtain rfl := Option.some.inj found
        subst own
        have due := h _ slot at_bar
        simpa [Slot.arrive, under] using due
      · exact h symbol s found
    | false =>
      rw [analyse_idle at_bar under]
      refine dueAt_begin (fun _ => h symbol) ?_
      rw [Slot.arrive_epoch, h _ slot at_bar, under]
      rfl

theorem dueAt_hear_all {d : Desk} (h : ∀ symbol, d.DueAt symbol) (routed : List (ChartListener × Bar Float))
    (symbol : String) : (each hear d routed).1.DueAt symbol := by
  induction routed generalizing d with
  | nil => exact h symbol
  | cons p rest ih =>
    refine ih fun name => ?_
    obtain ⟨listener, b⟩ := p
    cases listener with
    | archive => exact h name
    | analytics => exact dueAt_analyse h b name

/-- A recompute that comes back belongs to nobody, or is the one that a slot waits for. -/
theorem finish_cases {d : Desk} (h : ∀ symbol, d.DueAt symbol) {place : Nat} {r : Recompute}
    (at_place : d.outstanding[place]? = some r) (succeeds : Bool) :
    ((∀ s, d.slots.find? r.symbol = some s → s.epoch ≠ r.epoch) ∧ d.finish place succeeds = (d.without place, [])) ∨
      ∃ s, d.slots.find? r.symbol = some s ∧ s.epoch = r.epoch ∧ s.inFlight = true ∧ s.monitor = r.monitor ∧
        dueTo r.symbol s.epoch (d.without place).outstanding = [] ∧
        d.finish place succeeds =
          ((d.without place).begin r.symbol (s.resume (if succeeds then s.monitor.derive? else none)),
            s.asks (if succeeds then s.monitor.derive? else none)) := by
  have handed : d.finish place succeeds =
      (d.without place).complete r.symbol r.epoch (if succeeds then r.monitor.derive? else none) := by
    rw [finish, at_place]
    rfl
  by_cases current : ∃ s, d.slots.find? r.symbol = some s ∧ s.epoch = r.epoch
  · obtain ⟨s, found, epoch⟩ := current
    obtain ⟨under, same, nothing⟩ := due_without at_place epoch (h _ s found)
    refine .inr ⟨s, found, epoch, under, same, nothing, ?_⟩
    have at_symbol : (d.without place).slots.find? r.symbol = some s := found
    rw [handed, same, complete, at_symbol]
    dsimp only
    rw [if_neg (not_not.mpr epoch)]
    split <;> rename_i result <;> rw [result] <;> rfl
  · have stale : ∀ s, d.slots.find? r.symbol = some s → s.epoch ≠ r.epoch :=
      fun s found epoch => current ⟨s, found, epoch⟩
    exact .inl ⟨stale, handed.trans (complete_stale (d := d.without place) stale _)⟩

theorem dueAt_finish {d : Desk} (h : ∀ symbol, d.DueAt symbol) (place : Nat) (succeeds : Bool) (symbol : String) :
    (d.finish place succeeds).1.DueAt symbol := by
  cases at_place : d.outstanding[place]? with
  | none =>
    simp only [finish, at_place]
    exact h symbol
  | some r =>
    rcases finish_cases h at_place succeeds with ⟨stale, same⟩ | ⟨s, found, epoch, under, -, nothing, next⟩
    · rw [same]
      intro s found
      rw [dueTo_without at_place fun own => stale s (own.1 ▸ found) own.2.symm]
      exact h symbol s found
    · rw [next]
      refine dueAt_begin (fun other t put => ?_) (by rw [Slot.resume_epoch, nothing])
      rw [dueTo_without at_place fun both => other both.1]
      exact h symbol t put

theorem dueAt_handle {d : Desk} (sound : d.Sound) (h : ∀ symbol, d.DueAt symbol) (e : Event) (symbol : String) :
    (d.handle e).1.DueAt symbol := by
  cases e with
  | bars bars => exact dueAt_hear_all h _ symbol
  | quotes quotes =>
    obtain ⟨books, same⟩ := handle_quotes d quotes
    rw [same]
    exact h symbol
  | install m sub =>
    cases entered : d.registry.insert m.symbol sub with
    | error r =>
      simp only [handle, install, entered]
      exact h symbol
    | ok registry =>
      simp only [handle, install, entered]
      intro s found
      rw [Table.find?_insert] at found
      split at found
      · obtain rfl := Option.some.inj found
        simp only [dueTo, Slot.fresh, Bool.false_eq_true, if_false, List.map_eq_nil_iff, List.filter_eq_nil_iff]
        intro r hr own
        have given : r.epoch = d.lastEpoch + 1 := (of_decide_eq_true own).2
        have := sound.outstanding r hr
        omega
      · exact h symbol s found
  | detach name t =>
    intro s found
    simp only [handle, detach] at found
    split at found
    · rw [Table.find?_erase] at found
      split at found
      · cases found
      · exact h symbol s found
    · exact h symbol s found
  | finish place succeeds => exact dueAt_finish h place succeeds symbol

/-- In every run, each slot is due what it waits for. -/
theorem due_run (events : List Event) (symbol : String) : (empty.run events).1.DueAt symbol := by
  induction events using List.reverseRecOn generalizing symbol with
  | nil => exact fun s found => by cases found
  | append_singleton events e ih =>
    rw [run_concat]
    exact dueAt_handle (sound_run sound_empty events) ih e symbol

/-! ### What an event does to a slot -/

theorem find?_hear_all (d : Desk) (routed : List (ChartListener × Bar Float)) (symbol : String) :
    (each hear d routed).1.slots.find? symbol =
      (d.slots.find? symbol).map fun s => (analysed symbol routed).foldl Slot.arrive s := by
  induction routed generalizing d with
  | nil => exact Option.map_id.symm ▸ rfl
  | cons p rest ih =>
    rw [each_cons, ih, analysed_cons]
    obtain ⟨listener, b⟩ := p
    cases listener with
    | archive => rfl
    | analytics =>
      show Option.map _ ((d.analyse b).slots.find? symbol) = _
      rw [find?_analyse]
      by_cases own : b.symbol = symbol <;> simp [analysed, own, Function.comp_def]

/-- The slot that a symbol has after an event is a fresh one, the one it had with the bars it
heard, or the one it had with the result of its own recompute. -/
theorem slot_of_handle {d : Desk} (h : ∀ symbol, d.DueAt symbol) {e : Event} {symbol : String} {s' : Slot}
    (found : (d.handle e).1.slots.find? symbol = some s') :
    (∃ m sub, e = .install m sub ∧ s' = .fresh m (d.lastEpoch + 1)) ∨
      ∃ s, d.slots.find? symbol = some s ∧
        (s' = (d.heardIn symbol e).foldl Slot.arrive s ∨
          ∃ place succeeds r, e = .finish place succeeds ∧ d.outstanding[place]? = some r ∧
            r.monitor = s.monitor ∧ s.inFlight = true ∧
            s' = s.resume (if succeeds then s.monitor.derive? else none)) := by
  cases e with
  | bars bars =>
    have found : (each hear d (d.registry.routeBars bars)).1.slots.find? symbol = some s' := found
    rw [find?_hear_all, Option.map_eq_some_iff] at found
    obtain ⟨s, before, rfl⟩ := found
    exact .inr ⟨s, before, .inl rfl⟩
  | quotes quotes =>
    obtain ⟨books, same⟩ := handle_quotes d quotes
    rw [same] at found
    exact .inr ⟨s', found, .inl rfl⟩
  | install m sub =>
    cases entered : d.registry.insert m.symbol sub with
    | error r =>
      simp only [handle, install, entered] at found
      exact .inr ⟨s', found, .inl rfl⟩
    | ok registry =>
      simp only [handle, install, entered, Table.find?_insert] at found
      split at found
      · exact .inl ⟨m, sub, rfl, (Option.some.inj found).symm⟩
      · exact .inr ⟨s', found, .inl rfl⟩
  | detach name t =>
    have before : d.slots.find? symbol = some s' := by
      simp only [handle, detach] at found
      split at found
      · rw [Table.find?_erase] at found
        split at found
        · cases found
        · exact found
      · exact found
    exact .inr ⟨s', before, .inl rfl⟩
  | finish place succeeds =>
    cases at_place : d.outstanding[place]? with
    | none =>
      simp only [handle, finish, at_place] at found
      exact .inr ⟨s', found, .inl rfl⟩
    | some r =>
      rcases finish_cases h at_place succeeds with ⟨-, same⟩ | ⟨s, before, -, under, same, -, next⟩
      · simp only [handle, same] at found
        exact .inr ⟨s', found, .inl rfl⟩
      · simp only [handle, next, begin, Table.find?_insert] at found
        split at found
        · rename_i own
          subst own
          exact .inr ⟨s, before, .inr ⟨place, succeeds, r, rfl, at_place, same.symm, under, (Option.some.inj found).symm⟩⟩
        · exact .inr ⟨s', found, .inl rfl⟩

/-! ### Whole runs -/

theorem rested_run (events : List Event) {symbol : String} {s : Slot}
    (found : (empty.run events).1.slots.find? symbol = some s) : s.Rested := by
  induction events using List.reverseRecOn generalizing s with
  | nil => cases found
  | append_singleton events e ih =>
    rw [run_concat] at found
    rcases slot_of_handle (due_run events) found with ⟨m, sub, -, rfl⟩ | ⟨s₀, before, rfl | ⟨_, _, _, -, -, -, -, rfl⟩⟩
    · exact fun _ => rfl
    · exact List.foldlRecOn _ _ (ih before) fun s h b _ => Slot.Rested.arrive h b
    · exact Slot.rested_resume _ _

theorem lastEpoch_hear_all (d : Desk) (routed : List (ChartListener × Bar Float)) :
    (each hear d routed).1.lastEpoch = d.lastEpoch := by
  induction routed generalizing d with
  | nil => rfl
  | cons p rest ih =>
    rw [each_cons, ih]
    obtain ⟨listener, b⟩ := p
    cases listener with
    | archive => rfl
    | analytics =>
      simp only [hear, analyse]
      split
      · rfl
      · split <;> rfl

theorem lastEpoch_handle (d : Desk) (e : Event) : d.lastEpoch ≤ (d.handle e).1.lastEpoch := by
  cases e with
  | bars bars => exact Nat.le_of_eq (lastEpoch_hear_all d _).symm
  | quotes quotes =>
    obtain ⟨books, same⟩ := handle_quotes d quotes
    exact Nat.le_of_eq (by rw [same])
  | install m sub =>
    simp only [handle, install]
    split
    · exact Nat.le_refl _
    · exact Nat.le_succ _
  | detach name t => exact Nat.le_refl _
  | finish place succeeds =>
    simp only [handle, finish, complete]
    split
    · exact Nat.le_refl _
    · split
      · exact Nat.le_refl _
      · split
        · exact Nat.le_refl _
        · split <;> exact Nat.le_refl _

theorem lastEpoch_run (d : Desk) (events : List Event) : d.lastEpoch ≤ (d.run events).1.lastEpoch := by
  induction events generalizing d with
  | nil => exact Nat.le_refl _
  | cons e rest ih => exact Nat.le_trans (lastEpoch_handle d e) (ih _)

/-- An installation that is carried out gives the next epoch. -/
theorem install_ok {d : Desk} {m : Monitor Float} {sub : Subscription} {shown : Snapshot Float}
    (h : (d.install m sub).2.2 = .ok shown) :
    (d.handle (.install m sub)).1.slots.find? m.symbol = some (.fresh m (d.lastEpoch + 1)) ∧
      (d.handle (.install m sub)).1.lastEpoch = d.lastEpoch + 1 := by
  cases entered : d.registry.insert m.symbol sub with
  | error r =>
    simp only [install, entered] at h
    cases h
  | ok registry => simp [handle, install, entered]

/-- **No slot waits in vain, and no slot gets what is not its own.** After any run, with
recomputes that fail, come late or in any order, and slots dropped and replaced meanwhile:
just one recompute of its symbol and epoch is under way for a slot that waits, and none for one
at rest, behind which no bar waits. No two installations have one epoch. What comes back for a
symbol without a slot or for another epoch than the slot's changes nothing and has no
effect. What comes back for a slot brings it to rest or takes a bar off its backlog. -/
theorem slots_due_once (events : List Event) :
    (∀ symbol s, (empty.run events).1.slots.find? symbol = some s →
      ((empty.run events).1.outstanding.filter fun r => r.symbol = symbol ∧ r.epoch = s.epoch).length =
          (if s.inFlight then 1 else 0) ∧
        (s.inFlight = false → s.backlog = [])) ∧
      (∀ before m sub middle m' sub' after shown shown',
        events = before ++ .install m sub :: (middle ++ .install m' sub' :: after) →
        ((empty.run before).1.install m sub).2.2 = .ok shown →
        ((empty.run (before ++ .install m sub :: middle)).1.install m' sub').2.2 = .ok shown' →
        ∃ s s', (empty.run (before ++ [.install m sub])).1.slots.find? m.symbol = some s ∧
          (empty.run (before ++ .install m sub :: middle ++ [.install m' sub'])).1.slots.find? m'.symbol =
            some s' ∧
          s.epoch < s'.epoch) ∧
      (∀ symbol epoch result, (∀ s, (empty.run events).1.slots.find? symbol = some s → s.epoch ≠ epoch) →
        (empty.run events).1.complete symbol epoch result = ((empty.run events).1, [])) ∧
      ∀ place r succeeds, (empty.run events).1.outstanding[place]? = some r →
        ((∀ s, (empty.run events).1.slots.find? r.symbol = some s → s.epoch ≠ r.epoch) →
          (empty.run events).1.finish place succeeds = ((empty.run events).1.without place, [])) ∧
        ∀ s, (empty.run events).1.slots.find? r.symbol = some s → s.epoch = r.epoch →
          ∃ s', ((empty.run events).1.finish place succeeds).1.slots.find? r.symbol = some s' ∧
            (s'.inFlight = false ∨ s'.backlog.length < s.backlog.length) := by
  have due := due_run events
  refine ⟨fun symbol s found => ⟨?_, rested_run events found⟩, ?_,
    fun symbol epoch result stale => complete_stale stale result, ?_⟩
  · have own := congrArg List.length (due symbol s found)
    rw [dueTo, List.length_map] at own
    rw [own]
    split <;> rfl
  · intro before m sub middle m' sub' after shown shown' _ first second
    obtain ⟨put, given⟩ := install_ok first
    obtain ⟨put', -⟩ := install_ok second
    refine ⟨_, _, by rw [run_concat, put], by rw [run_concat, put'], ?_⟩
    have joined : (empty.run (before ++ .install m sub :: middle)).1 =
        (((empty.run before).1.handle (.install m sub)).1.run middle).1 := by
      rw [run, each_append]
      rfl
    have later := lastEpoch_run ((empty.run before).1.handle (.install m sub)).1 middle
    rw [given, ← joined] at later
    exact Nat.lt_succ_of_le later
  · intro place r succeeds at_place
    rcases finish_cases due at_place succeeds with ⟨stale, dropped⟩ | ⟨s, found, epoch, -, -, -, next⟩
    · exact ⟨fun _ => dropped, fun s found epoch => absurd epoch (stale s found)⟩
    · refine ⟨fun stale => absurd epoch (stale s found), fun t at_symbol _ => ?_⟩
      obtain rfl := Option.some.inj (found.symm.trans at_symbol)
      refine ⟨s.resume (if succeeds then s.monitor.derive? else none), ?_, Slot.resume_progress _ _⟩
      rw [next, begin, Table.find?_insert, if_pos rfl]

/-- A monitor takes a bar, is dropped while the recompute is under way, and is installed again. -/
def replacedRun : List Event :=
  [.install plainMonitor .full, .bars [plainBar 1, plainBar 2], .detach "XYZ" ⟨true, .ok ()⟩,
    .install plainMonitor .full]

/-- The recompute of the first installation comes back to the second one. -/
theorem slots_due_once_replaced :
    ∃ r, (empty.run replacedRun).1.outstanding = [r] ∧ r.symbol = "XYZ" ∧ r.epoch = 1 ∧
      (empty.run replacedRun).1.slots.find? "XYZ" = some (.fresh plainMonitor 2) ∧
      (empty.run replacedRun).1.finish 0 true = ((empty.run replacedRun).1.without 0, []) ∧
      (empty.run replacedRun).1.finish 0 false = ((empty.run replacedRun).1.without 0, []) := by
  have under : (empty.run replacedRun).1.outstanding[0]? =
      some ⟨"XYZ", 1, { plainMonitor with earlier := [plainBar 0], latest := plainBar 1 }⟩ := rfl
  have found : (empty.run replacedRun).1.slots.find? "XYZ" = some (.fresh plainMonitor 2) := rfl
  have stale : ∀ s, (empty.run replacedRun).1.slots.find? "XYZ" = some s → s.epoch ≠ 1 := by
    intro s at_symbol
    obtain rfl := Option.some.inj (found.symm.trans at_symbol)
    decide
  obtain ⟨-, -, -, returned⟩ := slots_due_once replacedRun
  exact ⟨_, rfl, rfl, rfl, found, (returned 0 _ true under).1 stale, (returned 0 _ false under).1 stale⟩

end Desk
end TickerBoard

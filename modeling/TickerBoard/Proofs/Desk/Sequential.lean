import TickerBoard.Proofs.Desk.Run
import TickerBoard.Proofs.Monitor.Restart

/-! Handing out recomputes changes nothing.

A desk answers a batch of bars at once and derives later: a slot takes one bar,
its recompute is under way, the bars behind it wait, and what comes back may
come in any order, late, or for a slot that was dropped or replaced since.
`Slot.Tracks` says what a slot owes to the plain reading of its monitor
(`Monitor.follow`): at rest it has followed everything it heard; with a
recompute under way it will have followed everything but its backlog as soon as
the result is put in. Every step of the desk keeps this (`Keeps`), because the
recompute that is due to a slot is one and carries the slot's own monitor
(`Desk.Tracks.due`). `follows_since_install` reads it off a whole run. -/
namespace TickerBoard

namespace Desk

/-! ### The recomputes that are due to a slot -/

/-- The monitors of the recomputes of a symbol and an epoch. -/
def dueTo (symbol : String) (epoch : Nat) (rs : List Recompute) : List (Monitor Float) :=
  (rs.filter fun r => r.symbol = symbol ∧ r.epoch = epoch).map (·.monitor)

theorem dueTo_append (symbol : String) (epoch : Nat) (a b : List Recompute) :
    dueTo symbol epoch (a ++ b) = dueTo symbol epoch a ++ dueTo symbol epoch b := by
  simp [dueTo, List.filter_append]

theorem dueTo_singleton (symbol : String) (epoch : Nat) (r : Recompute) :
    dueTo symbol epoch [r] = if r.symbol = symbol ∧ r.epoch = epoch then [r.monitor] else [] := by
  by_cases h : r.symbol = symbol ∧ r.epoch = epoch <;> simp [dueTo, h]

theorem due_begin (d : Desk) (k symbol : String) (s : Slot) (epoch : Nat) :
    dueTo symbol epoch (d.begin k s).outstanding = dueTo symbol epoch d.outstanding ++
      if s.inFlight = true ∧ k = symbol ∧ s.epoch = epoch then [s.monitor] else [] := by
  cases under : s.inFlight with
  | false => simp [begin, under]
  | true => simp [begin, under, dueTo_append, dueTo_singleton]

theorem outstanding_split {d : Desk} {place : Nat} {r : Recompute}
    (h : d.outstanding[place]? = some r) :
    ∃ before after, d.outstanding = before ++ [r] ++ after ∧
      d.outstanding.eraseIdx place = before ++ after := by
  obtain ⟨bound, at_place⟩ := List.getElem?_eq_some_iff.mp h
  refine ⟨d.outstanding.take place, d.outstanding.drop (place + 1), ?_,
    List.eraseIdx_eq_take_drop_succ ..⟩
  rw [List.append_assoc, List.singleton_append, ← at_place, List.getElem_cons_drop,
    List.take_append_drop]

/-- The desk without the recompute at a place of its list. -/
def without (d : Desk) (place : Nat) : Desk :=
  { d with outstanding := d.outstanding.eraseIdx place }

/-- A slot that the recompute does not belong to does not miss it. -/
theorem dueTo_without {d : Desk} {place : Nat} {r : Recompute} {symbol : String} {epoch : Nat}
    (at_place : d.outstanding[place]? = some r) (ne : ¬(r.symbol = symbol ∧ r.epoch = epoch)) :
    dueTo symbol epoch (d.without place).outstanding = dueTo symbol epoch d.outstanding := by
  obtain ⟨before, after, all, less⟩ := outstanding_split at_place
  rw [without, less, all, dueTo_append, dueTo_append, dueTo_append, dueTo_singleton, if_neg ne,
    List.append_nil]

/-- The recompute of a slot carries the slot's monitor, and there is no other. -/
theorem due_without {d : Desk} {place : Nat} {r : Recompute} {s : Slot}
    (at_place : d.outstanding[place]? = some r) (epoch : s.epoch = r.epoch)
    (due : dueTo r.symbol s.epoch d.outstanding = if s.inFlight then [s.monitor] else []) :
    s.inFlight = true ∧ s.monitor = r.monitor ∧
      dueTo r.symbol s.epoch (d.without place).outstanding = [] := by
  obtain ⟨before, after, all, less⟩ := outstanding_split at_place
  rw [all, dueTo_append, dueTo_append, dueTo_singleton, if_pos ⟨rfl, epoch.symm⟩] at due
  rw [without, less, dueTo_append]
  cases under : s.inFlight with
  | false => simp [under] at due
  | true =>
    rw [under, if_pos rfl] at due
    -- a list of one has no room for recomputes before or after it
    cases front : dueTo r.symbol s.epoch before with
    | nil =>
      rw [front, List.nil_append, List.singleton_append, List.cons.injEq] at due
      exact ⟨rfl, due.1.symm, due.2⟩
    | cons x rest => simp [front] at due

/-! ### Steps of a slot -/

theorem analyse_busy {d : Desk} {b : Bar Float} {s : Slot} (found : d.slots.find? b.symbol = some s)
    (under : s.inFlight = true) :
    d.analyse b = { d with slots := d.slots.insert b.symbol (s.arrive b) } := by
  simp only [analyse, found, under, if_true]

theorem analyse_idle {d : Desk} {b : Bar Float} {s : Slot} (found : d.slots.find? b.symbol = some s)
    (under : s.inFlight = false) : d.analyse b = d.begin b.symbol (s.arrive b) := by
  simp only [analyse, found, under, Bool.false_eq_true, if_false]

theorem absent_analyse {d : Desk} {b : Bar Float} {symbol : String}
    (h : d.slots.find? symbol = none) : (d.analyse b).slots.find? symbol = none := by
  rw [find?_analyse, h]
  split <;> rfl

theorem complete_current {d : Desk} {symbol : String} {s : Slot}
    (found : d.slots.find? symbol = some s) (derived : Derived Float) :
    d.complete symbol s.epoch (some derived) =
      (d.begin symbol ({ s with monitor := (s.monitor.apply derived).1 }.feed s.backlog),
        outcome (s.monitor.apply derived).1 (s.monitor.apply derived).2) := by
  simp [complete, found]

theorem complete_stale {d : Desk} {symbol : String} {epoch : Nat}
    (stale : ∀ s, d.slots.find? symbol = some s → s.epoch ≠ epoch) (result : Option (Derived Float)) :
    d.complete symbol epoch result = (d, []) := by
  unfold complete
  split
  · rfl
  · rename_i s found
    rw [if_pos (stale s found)]

end Desk

section Follow
variable [Protractor]

namespace Slot

/-! ### One slot -/

/-- What a slot has come to whose monitor was `m` at first, and which has heard some bars
and offered some lists since. -/
structure Tracks (s : Slot) (m : Monitor Float) (heard : List (Bar Float))
    (offered : List (PatternUpdate Float)) : Prop where
  /-- At rest, the monitor has followed all bars, and nothing waits. -/
  idle : s.inFlight = false → s.backlog = [] ∧ m.follow heard = .ok (s.monitor, offered)
  /-- With a recompute under way, it will have followed all but the backlog when the
  result is put in. -/
  busy : s.inFlight = true → ∃ fed, heard = fed ++ s.backlog ∧
    ∀ d, s.monitor.derive? = some d →
      m.follow fed = .ok ((s.monitor.apply d).1, offered ++ (s.monitor.apply d).2)

theorem tracks_fresh (m : Monitor Float) (epoch : Nat) : (fresh m epoch).Tracks m [] [] :=
  ⟨fun _ => ⟨rfl, rfl⟩, fun h => Bool.noConfusion h⟩

/-- Feeding an idle monitor goes on where the following stands. -/
theorem tracks_feed {s : Slot} {m : Monitor Float} {fed : List (Bar Float)}
    {offered : List (PatternUpdate Float)} (h : m.follow fed = .ok (s.monitor, offered))
    (waiting : List (Bar Float)) : (s.feed waiting).Tracks m (fed ++ waiting) offered := by
  induction waiting generalizing fed with
  | nil => exact ⟨fun _ => ⟨rfl, by rw [List.append_nil]; exact h⟩, fun hb => Bool.noConfusion hb⟩
  | cons b rest ih =>
    cases accepted : s.monitor.accept b with
    | none =>
      have next := ih (Monitor.follow_concat_refused h accepted)
      simpa [feed, accepted] using next
    | some taken =>
      simp only [feed, accepted]
      refine ⟨fun hi => Bool.noConfusion hi, fun _ => ⟨fed ++ [b], by simp, fun d derived => ?_⟩⟩
      exact Monitor.follow_concat_taken h accepted derived

theorem tracks_arrive {s : Slot} {m : Monitor Float} {heard : List (Bar Float)}
    {offered : List (PatternUpdate Float)} (h : s.Tracks m heard offered) (b : Bar Float) :
    (s.arrive b).Tracks m (heard ++ [b]) offered := by
  cases under : s.inFlight with
  | false =>
    obtain ⟨nothing, followed⟩ := h.idle under
    rw [arrive_of_idle under nothing]
    exact tracks_feed followed [b]
  | true =>
    obtain ⟨fed, split, result⟩ := h.busy under
    simp only [arrive, under, if_true]
    refine ⟨fun hi => ?_, fun _ => ⟨fed, ?_, result⟩⟩
    · exact Bool.noConfusion (hi : true = false)
    · rw [split, List.append_assoc]

/-- Putting the result in brings the slot to the bars that wait. -/
theorem tracks_complete {s : Slot} {m : Monitor Float} {heard : List (Bar Float)}
    {offered : List (PatternUpdate Float)} {d : Derived Float} (h : s.Tracks m heard offered)
    (under : s.inFlight = true) (derived : s.monitor.derive? = some d) :
    ({ s with monitor := (s.monitor.apply d).1 }.feed s.backlog).Tracks m heard
      (offered ++ (s.monitor.apply d).2) := by
  obtain ⟨fed, split, result⟩ := h.busy under
  rw [split]
  exact tracks_feed (s := { s with monitor := (s.monitor.apply d).1 }) (result d derived) s.backlog

end Slot

namespace Desk

/-! ### The slot of a symbol -/

/-- The desk's slot of a symbol tracks what the symbol heard and offered, and the
recompute under way, if any, is the only one due to it. -/
structure Tracks (d : Desk) (symbol : String) (s : Slot) (m : Monitor Float)
    (heard : List (Bar Float)) (offered : List (PatternUpdate Float)) : Prop where
  slot : d.slots.find? symbol = some s
  due : dueTo symbol s.epoch d.outstanding = if s.inFlight then [s.monitor] else []
  tracks : s.Tracks m heard offered

/-- The step to `d'` with some effects, in which a symbol hears some bars, leaves the
symbol's slot in place and in track. -/
structure Keeps (symbol : String) (d d' : Desk) (bars : List (Bar Float)) (effects : List Effect) :
    Prop where
  absent : d.slots.find? symbol = none → d'.slots.find? symbol = none
  present : ∀ {s m heard out}, d.Tracks symbol s m heard out →
    ∃ s', s'.epoch = s.epoch ∧
      d'.Tracks symbol s' m (heard ++ bars) (out ++ offered symbol effects)

theorem Keeps.refl (symbol : String) (d : Desk) : Keeps symbol d d [] [] :=
  ⟨id, fun {s _ _ _} h => ⟨s, rfl, by simpa using h⟩⟩

theorem Keeps.trans {symbol : String} {a b c : Desk} {first second : List (Bar Float)}
    {fx gx : List Effect} (hab : Keeps symbol a b first fx) (hbc : Keeps symbol b c second gx) :
    Keeps symbol a c (first ++ second) (fx ++ gx) := by
  refine ⟨fun h => hbc.absent (hab.absent h), fun h => ?_⟩
  obtain ⟨s', epoch, h'⟩ := hab.present h
  obtain ⟨s'', epoch', h''⟩ := hbc.present h'
  exact ⟨s'', epoch'.trans epoch, by simpa using h''⟩

/-- Putting the slot of another symbol in place is not noticed. -/
theorem tracks_begin_other {d : Desk} {k symbol : String} {s : Slot} {m : Monitor Float}
    {heard : List (Bar Float)} {out : List (PatternUpdate Float)} (ne : k ≠ symbol) (put : Slot)
    (h : d.Tracks symbol s m heard out) : (d.begin k put).Tracks symbol s m heard out := by
  refine ⟨by simp [begin, ne, h.slot], ?_, h.tracks⟩
  rw [due_begin, h.due]
  simp [ne]

theorem tracks_begin_self {d : Desk} {symbol : String} {s : Slot} {m : Monitor Float}
    {heard : List (Bar Float)} {out : List (PatternUpdate Float)}
    (nothing : dueTo symbol s.epoch d.outstanding = []) (h : s.Tracks m heard out) :
    (d.begin symbol s).Tracks symbol s m heard out := by
  refine ⟨by simp [begin], ?_, h⟩
  rw [due_begin, nothing]
  simp

/-! ### Bars -/

/-- The slot of the bar's own symbol hears the bar. -/
theorem tracks_analyse_self {d : Desk} {b : Bar Float} {s : Slot} {m : Monitor Float}
    {heard : List (Bar Float)} {out : List (PatternUpdate Float)} (h : d.Tracks b.symbol s m heard out) :
    (d.analyse b).Tracks b.symbol (s.arrive b) m (heard ++ [b]) out := by
  have tracks := Slot.tracks_arrive h.tracks b
  cases under : s.inFlight with
  | true =>
    have still : (s.arrive b).inFlight = s.inFlight ∧ (s.arrive b).monitor = s.monitor := by
      simp [Slot.arrive, under]
    rw [analyse_busy h.slot under]
    refine ⟨by simp, ?_, tracks⟩
    rw [Slot.arrive_epoch, still.1, still.2]
    exact h.due
  | false =>
    rw [analyse_idle h.slot under]
    refine tracks_begin_self ?_ tracks
    rw [Slot.arrive_epoch, h.due, under]
    rfl

/-- The slots of other symbols do not. -/
theorem tracks_analyse_other {d : Desk} {b : Bar Float} {symbol : String} {s : Slot}
    {m : Monitor Float} {heard : List (Bar Float)} {out : List (PatternUpdate Float)}
    (ne : b.symbol ≠ symbol) (h : d.Tracks symbol s m heard out) :
    (d.analyse b).Tracks symbol s m heard out := by
  unfold analyse
  split
  · exact h
  · split
    · exact ⟨by simp [ne, h.slot], h.due, h.tracks⟩
    · exact tracks_begin_other ne _ h

theorem keeps_analyse (symbol : String) (d : Desk) (b : Bar Float) :
    Keeps symbol d (d.analyse b) (if b.symbol = symbol then [b] else []) [] := by
  refine ⟨absent_analyse, fun {s m heard out} h => ?_⟩
  rw [offered_nil, List.append_nil]
  by_cases e : b.symbol = symbol
  · subst e
    rw [if_pos rfl]
    exact ⟨s.arrive b, Slot.arrive_epoch s b, tracks_analyse_self h⟩
  · rw [if_neg e, List.append_nil]
    exact ⟨s, rfl, tracks_analyse_other e h⟩

theorem keeps_hear (symbol : String) (d : Desk) (p : ChartListener × Bar Float) :
    Keeps symbol d (d.hear p).1 (analysed symbol [p]) (d.hear p).2 := by
  obtain ⟨listener, b⟩ := p
  cases listener with
  | analytics =>
    have h := keeps_analyse symbol d b
    by_cases e : b.symbol = symbol <;> simpa [hear, analysed, e] using h
  | archive =>
    have silent : offered symbol (d.hear (.archive, b)).2 = [] := by
      simp only [hear]
      split <;> rfl
    refine ⟨id, fun {s _ _ _} h => ⟨s, rfl, ?_⟩⟩
    rw [silent]
    simpa [hear, analysed] using h

theorem keeps_hear_all (symbol : String) (d : Desk) (routed : List (ChartListener × Bar Float)) :
    Keeps symbol d (each hear d routed).1 (analysed symbol routed) (each hear d routed).2 := by
  induction routed generalizing d with
  | nil => exact .refl symbol d
  | cons p rest ih =>
    rw [analysed_cons]
    exact (keeps_hear symbol d p).trans (ih (d.hear p).1)

/-! ### Recomputes that come back -/

theorem tracks_without {d : Desk} {place : Nat} {r : Recompute} {symbol : String} {s : Slot}
    {m : Monitor Float} {heard : List (Bar Float)} {out : List (PatternUpdate Float)}
    (at_place : d.outstanding[place]? = some r) (ne : ¬(r.symbol = symbol ∧ r.epoch = s.epoch))
    (h : d.Tracks symbol s m heard out) : (d.without place).Tracks symbol s m heard out :=
  ⟨h.slot, by rw [dueTo_without at_place ne, h.due], h.tracks⟩

/-- A result for a slot that is gone is dropped. -/
theorem keeps_stale {d : Desk} {place : Nat} {r : Recompute} (symbol : String)
    (at_place : d.outstanding[place]? = some r)
    (stale : ∀ s, d.slots.find? r.symbol = some s → s.epoch ≠ r.epoch) :
    Keeps symbol d (d.without place) [] [] := by
  refine ⟨id, fun {s m heard out} h => ⟨s, rfl, ?_⟩⟩
  rw [offered_nil, List.append_nil, List.append_nil]
  refine tracks_without at_place (fun own => ?_) h
  exact stale s (own.1 ▸ h.slot) own.2.symm

/-- A result for a slot goes into its monitor, and the slot goes on with its backlog. -/
theorem keeps_current {d : Desk} (sound : d.Sound) {place : Nat} {r : Recompute} {slot : Slot}
    {derived : Derived Float} (symbol : String) (at_place : d.outstanding[place]? = some r)
    (found : d.slots.find? r.symbol = some slot) (epoch : slot.epoch = r.epoch)
    (hd : r.monitor.derive? = some derived) :
    Keeps symbol d
      ((d.without place).begin r.symbol
        ({ slot with monitor := (slot.monitor.apply derived).1 }.feed slot.backlog)) []
      (outcome (slot.monitor.apply derived).1 (slot.monitor.apply derived).2) := by
  have named := sound.named _ _ found
  by_cases e : r.symbol = symbol
  · subst e
    refine ⟨fun none => by simp [none] at found, fun {s m heard out} h => ?_⟩
    obtain rfl : slot = s := Option.some.inj (found.symm.trans h.slot)
    obtain ⟨under, same, nothing⟩ := due_without at_place epoch h.due
    have own := offered_outcome_self slot.monitor derived (slot.monitor.apply derived).1
    rw [named] at own
    refine ⟨_, ?_, tracks_begin_self ?_ ?_⟩
    · rw [Slot.feed_epoch]
    · rw [Slot.feed_epoch]
      exact nothing
    · rw [own, List.append_nil]
      exact Slot.tracks_complete h.tracks under (by rw [same, hd])
  · refine ⟨fun none => ?_, fun {s m heard out} h => ⟨s, rfl, ?_⟩⟩
    · simp [begin, without, e, none]
    · rw [offered_outcome_other (by rw [named]; exact e), List.append_nil, List.append_nil]
      exact tracks_begin_other e _ (tracks_without at_place (fun both => e both.1) h)

theorem keeps_finish {d : Desk} (sound : d.Sound) (symbol : String) {place : Nat} {succeeds : Bool}
    (h : (Event.finish place succeeds).Succeeds d) :
    Keeps symbol d (d.finish place succeeds).1 [] (d.finish place succeeds).2 := by
  cases at_place : d.outstanding[place]? with
  | none =>
    simp only [finish, at_place]
    exact .refl symbol d
  | some r =>
    obtain ⟨rfl, some_derived⟩ := h r at_place
    obtain ⟨derived, hd⟩ := Option.isSome_iff_exists.mp some_derived
    have handed : d.finish place true = (d.without place).complete r.symbol r.epoch (some derived) := by
      simp only [finish, at_place, if_true, hd]
      rfl
    rw [handed]
    by_cases current : ∃ slot, d.slots.find? r.symbol = some slot ∧ slot.epoch = r.epoch
    · obtain ⟨slot, found, epoch⟩ := current
      rw [← epoch, complete_current (d := d.without place) found]
      exact keeps_current sound symbol at_place found epoch hd
    · have stale : ∀ s, d.slots.find? r.symbol = some s → s.epoch ≠ r.epoch :=
        fun s found epoch => current ⟨s, found, epoch⟩
      rw [complete_stale (d := d.without place) stale]
      exact keeps_stale symbol at_place stale

/-! ### The other events -/

/-- A step that leaves slots and recomputes alone. -/
theorem Keeps.frame {symbol : String} {d d' : Desk} {effects : List Effect} (slots : d'.slots = d.slots)
    (outstanding : d'.outstanding = d.outstanding) (silent : offered symbol effects = []) :
    Keeps symbol d d' [] effects := by
  refine ⟨fun h => by rw [slots, h], fun {s m heard out} h => ⟨s, rfl, ?_⟩⟩
  rw [silent, List.append_nil, List.append_nil]
  exact ⟨by rw [slots, h.slot], by rw [outstanding, h.due], h.tracks⟩

/-- An installation that is carried out puts a fresh slot in place. -/
theorem handle_install {d : Desk} (sound : d.Sound) (symbol : String) (m : Monitor Float)
    (sub : Subscription) :
    (m.symbol = symbol ∧ (d.handle (.install m sub)).1.slots.find? symbol =
        some (.fresh m (d.lastEpoch + 1)) ∧
      (d.handle (.install m sub)).1.Tracks symbol (.fresh m (d.lastEpoch + 1)) m [] []) ∨
    Keeps symbol d (d.handle (.install m sub)).1 [] (d.handle (.install m sub)).2 := by
  cases entered : d.registry.insert m.symbol sub with
  | error r =>
    right
    simp only [handle, install, entered]
    exact .refl symbol d
  | ok registry =>
    by_cases e : m.symbol = symbol
    · left
      subst e
      simp only [handle, install, entered, Table.find?_insert, if_true, true_and]
      refine ⟨by simp, ?_, Slot.tracks_fresh m _⟩
      simp only [dueTo, Slot.fresh, Bool.false_eq_true, if_false, List.map_eq_nil_iff,
        List.filter_eq_nil_iff]
      intro r hr own
      have given : r.epoch = d.lastEpoch + 1 := (of_decide_eq_true own).2
      have := sound.outstanding r hr
      omega
    · right
      simp only [handle, install, entered]
      refine ⟨fun h => by simp [e, h], fun {s m' heard out} h => ⟨s, rfl, ?_⟩⟩
      rw [List.append_nil]
      exact ⟨by simp [e, h.slot], h.due, by simpa [offered] using h.tracks⟩

theorem handle_detach (d : Desk) (symbol name : String) (t : Teardown) :
    (d.handle (.detach name t)).1.slots.find? symbol = none ∨
      Keeps symbol d (d.handle (.detach name t)).1 [] (d.handle (.detach name t)).2 := by
  cases removed : t.chartsRemoved with
  | false => exact .inr (.frame (by simp [handle, detach, removed]) rfl rfl)
  | true =>
    by_cases e : name = symbol
    · left
      simp [handle, detach, removed, e]
    · right
      refine ⟨fun h => by simp [handle, detach, removed, e, h], fun {s m heard out} h => ⟨s, rfl, ?_⟩⟩
      rw [List.append_nil]
      exact ⟨by simp [handle, detach, removed, e, h.slot], h.due, by simpa [handle] using h.tracks⟩

/-- What an event does to the slot of a symbol: it puts a fresh one in place, leaves the
symbol without one, or keeps the slot in track. -/
theorem handle_slot {d : Desk} (sound : d.Sound) (symbol : String) (e : Event) (h : e.Succeeds d) :
    (∃ m sub, e = .install m sub ∧ m.symbol = symbol ∧
        (d.handle e).1.slots.find? symbol = some (.fresh m (d.lastEpoch + 1)) ∧
        (d.handle e).1.Tracks symbol (.fresh m (d.lastEpoch + 1)) m [] []) ∨
      (d.handle e).1.slots.find? symbol = none ∨
      Keeps symbol d (d.handle e).1 (d.heardIn symbol e) (d.handle e).2 := by
  cases e with
  | bars bars => exact .inr (.inr (keeps_hear_all symbol d _))
  | quotes quotes =>
    obtain ⟨⟨books, same⟩, silent⟩ := takeQuotes_frame d quotes
    have same : (d.handle (.quotes quotes)).1 = { d with books } := same
    exact .inr (.inr (.frame (by rw [same]) (by rw [same]) (silent symbol)))
  | install m sub =>
    rcases handle_install sound symbol m sub with ⟨own, found, tracks⟩ | keeps
    · exact .inl ⟨m, sub, rfl, own, found, tracks⟩
    · exact .inr (.inr keeps)
  | detach name t => exact .inr (handle_detach d symbol name t)
  | finish place succeeds => exact .inr (.inr (keeps_finish sound symbol h))

/-! ### Whole runs -/

/-- The installation of `m` between two parts of a run put the slot of its symbol in
place, where the slot has been ever since. -/
structure Since (symbol : String) (s : Slot) (before : List Event) (m : Monitor Float)
    (sub : Subscription) (after : List Event) : Prop where
  named : m.symbol = symbol
  installed : (empty.run (before ++ [.install m sub])).1.slots.find? symbol = some (.fresh m s.epoch)
  stayed : ∀ seen rest, after = seen ++ rest →
    ∃ s', (empty.run (before ++ .install m sub :: seen)).1.slots.find? symbol = some s' ∧
      s'.epoch = s.epoch

/-- Every slot of a run was installed once and has been in track since. -/
theorem tracks_since_install (events : List Event) (h : Successful empty events) (symbol : String)
    (s : Slot) (found : (empty.run events).1.slots.find? symbol = some s) :
    ∃ before m sub after, events = before ++ .install m sub :: after ∧
      Since symbol s before m sub after ∧
      (empty.run events).1.Tracks symbol s m
        (heard symbol (empty.run (before ++ [.install m sub])).1 after)
        (offered symbol ((empty.run (before ++ [.install m sub])).1.run after).2) := by
  induction events using List.reverseRecOn generalizing s with
  | nil => cases found
  | append_singleton events e ih =>
    obtain ⟨before_ok, succeeds⟩ := successful_concat.mp h
    have sound := sound_run sound_empty events
    have last : (empty.run (events ++ [e])).1 = ((empty.run events).1.handle e).1 := by
      rw [run_concat]
    rw [last] at found ⊢
    rcases handle_slot sound symbol e succeeds with ⟨m, sub, rfl, named, put, tracks⟩ | none | keeps
    · obtain rfl := Option.some.inj (found.symm.trans put)
      refine ⟨events, m, sub, [], rfl, ⟨named, by rw [last, put]; rfl, fun seen rest split => ?_⟩, tracks⟩
      obtain ⟨rfl, -⟩ := List.append_eq_nil_iff.mp split.symm
      exact ⟨_, by rw [last, put], rfl⟩
    · rw [none] at found
      cases found
    · cases earlier : (empty.run events).1.slots.find? symbol with
      | none =>
        rw [keeps.absent earlier] at found
        cases found
      | some s₀ =>
        obtain ⟨before, m, sub, after, rfl, since, tracks⟩ := ih before_ok s₀ earlier
        obtain ⟨s', epoch, tracks'⟩ := keeps.present tracks
        obtain rfl := Option.some.inj (found.symm.trans tracks'.slot)
        have joined : ∀ later, (empty.run (before ++ .install m sub :: later)).1 =
            ((empty.run (before ++ [.install m sub])).1.run later).1 := by
          intro later
          rw [List.append_cons, run, each_append]
          rfl
        refine ⟨before, m, sub, after ++ [e], by simp, ⟨since.named, ?_, fun seen rest split => ?_⟩, ?_⟩
        · rw [since.installed, epoch]
        · rcases List.eq_nil_or_concat rest with rfl | ⟨rest', x, rfl⟩
          · rw [List.append_nil] at split
            refine ⟨s, ?_, rfl⟩
            rw [← split, ← List.cons_append, ← List.append_assoc, last, tracks'.slot]
          · rw [List.concat_eq_append, ← List.append_assoc] at split
            obtain ⟨s'', found'', epoch''⟩ := since.stayed seen rest' (List.append_inj' split rfl).1
            exact ⟨s'', found'', epoch''.trans epoch.symm⟩
        · rw [heard_concat, run_concat _ after, offered_append, ← joined after]
          exact tracks'

/-- **A desk that hands its recomputes out does what its monitors would do alone.** Take a
run of any batches, installations and teardowns, in which recomputes come back at any
time, in any order and also for slots that are gone, each with its result. Every slot
there was installed at some point of the run and has stayed since. At rest, its monitor
and the lists offered for storing are those of the installed monitor that follows, one
after the other, all bars that were routed to it since. With a recompute under way, they
will be those of all these bars but the backlog, once the result is put in. -/
theorem follows_since_install (events : List Event) (h : Successful empty events) (symbol : String)
    (s : Slot) (found : (empty.run events).1.slots.find? symbol = some s) :
    ∃ before m sub after, events = before ++ .install m sub :: after ∧
      Since symbol s before m sub after ∧
      let start := (empty.run (before ++ [.install m sub])).1
      let bars := heard symbol start after
      let lists := offered symbol (start.run after).2
      (s.inFlight = false → s.backlog = [] ∧ m.follow bars = .ok (s.monitor, lists)) ∧
      (s.inFlight = true →
        ⟨symbol, s.epoch, s.monitor⟩ ∈ (empty.run events).1.outstanding ∧
        ∃ fed, bars = fed ++ s.backlog ∧ ∀ d, s.monitor.derive? = some d →
          m.follow fed = .ok ((s.monitor.apply d).1, lists ++ (s.monitor.apply d).2)) := by
  obtain ⟨before, m, sub, after, split, since, tracked⟩ := tracks_since_install events h symbol s found
  refine ⟨before, m, sub, after, split, since, tracked.tracks.idle, fun under => ⟨?_, ?_⟩⟩
  · have due := tracked.due
    rw [under, if_pos rfl] at due
    have own : s.monitor ∈ dueTo symbol s.epoch (empty.run events).1.outstanding := by
      rw [due]
      exact List.mem_singleton.mpr rfl
    obtain ⟨r, hr, same⟩ := List.mem_map.mp own
    obtain ⟨listed, matching⟩ := List.mem_filter.mp hr
    obtain ⟨name, epoch⟩ := of_decide_eq_true matching
    rw [← same, ← name, ← epoch]
    exact listed
  · exact tracked.tracks.busy under

/-! ### A monitor without charts -/

theorem derives_without_charts {m : Monitor Float} (charts : m.charts = []) {window : Instant}
    (dated : m.rules.clock.daysAgo? m.lastUpdated m.rules.historyDays = some window) :
    ∃ levels range, m.derive? = some ⟨[], [], levels, range⟩ := by
  simp [Monitor.derive?, charts, Monitor.updateCharts?, Monitor.levels?, dated]

end Desk

end Follow

namespace Desk

/-- A bar at a minute of the epoch's first day. -/
def plainBar (minute : Int) : Bar Float := ⟨"XYZ", ⟨minute * 60000⟩, 1, 1, 1, 1, 10⟩

def plainMonitor : Monitor Float :=
  ⟨"XYZ", ⟨[], ⟨14, .standard, ⟨0⟩⟩, 60, .standard, 7, 14⟩, [], plainBar 0, [], [], none⟩

/-! ### A run in which a bar waits -/

section Waiting
open Candle (pricedBar)
open Monitor (wave waveSeed ends)

attribute [local instance] Detection.shallow

/-- One batch of five bars goes to the monitor of a wave, the second of which is stale; two of
the others come back. -/
def waitingRun : List Event :=
  [.install waveSeed.1 .full,
    .bars [pricedBar 40 95, pricedBar 40 95, pricedBar 45 100, pricedBar 50 96, pricedBar 55 100],
    .finish 0 true, .finish 0 true]

/-- With the first part of the run done, the recompute that comes back has a result. -/
theorem waitingRun_derives : ∀ n ∈ [2, 3],
    (empty.run (waitingRun.take n)).1.outstanding[0]?.map (·.monitor.derive?.isSome) = some true := by
  decide +kernel

theorem waitingRun_successful : Successful empty waitingRun := by
  have succeeds : ∀ n ∈ [2, 3], (Event.finish 0 true).Succeeds (empty.run (waitingRun.take n)).1 := by
    intro n hn r hr
    have derives := waitingRun_derives n hn
    rw [hr] at derives
    exact ⟨rfl, Option.some.inj derives⟩
  have received : Successful empty (waitingRun.take 2) := ⟨trivial, trivial, trivial⟩
  have first : Successful empty (waitingRun.take 2 ++ [.finish 0 true]) :=
    successful_concat.mpr ⟨received, succeeds 2 (by decide)⟩
  exact successful_concat.mpr ⟨first, succeeds 3 (by decide)⟩

/-- The first bar is in, the stale one was refused, and the third has brought a divergence, which
took the place of an older one; the fourth is under way, the last waits. -/
theorem follows_since_install_waiting :
    Successful empty waitingRun ∧ ∃ s, (empty.run waitingRun).1.slots.find? "XYZ" = some s ∧
      s.inFlight = true ∧ s.backlog = [pricedBar 55 100] ∧
      s.monitor.charts.map (ends ·.divergences) = [[35]] ∧
      ∃ before m sub after, waitingRun = before ++ .install m sub :: after ∧
        Since "XYZ" s before m sub after ∧
        let lists := offered "XYZ" ((empty.run (before ++ [.install m sub])).1.run after).2
        lists.map (ends ·.divergences) = [[35]] ∧
        ∃ fed, heard "XYZ" (empty.run (before ++ [.install m sub])).1 after = fed ++ [pricedBar 55 100] ∧
          ∀ d, s.monitor.derive? = some d →
            m.follow fed = .ok ((s.monitor.apply d).1, lists ++ (s.monitor.apply d).2) := by
  have slot : ((empty.run waitingRun).1.slots.find? "XYZ").map (fun s =>
      (s.inFlight, s.backlog, s.monitor.charts.map (ends ·.divergences))) =
      some (true, [pricedBar 55 100], [[35]]) := by
    decide +kernel
  have lists : (offered "XYZ" ((empty.run (waitingRun.take 1)).1.run (waitingRun.drop 1)).2).map
      (ends ·.divergences) = [[35]] := by
    decide +kernel
  obtain ⟨s, found, state⟩ := Option.map_eq_some_iff.mp slot
  obtain ⟨under, state⟩ := Prod.mk.inj state
  obtain ⟨waits, shown⟩ := Prod.mk.inj state
  refine ⟨waitingRun_successful, s, found, under, waits, shown, ?_⟩
  obtain ⟨before, m, sub, after, split, since, -, busy⟩ :=
    follows_since_install waitingRun waitingRun_successful "XYZ" s found
  obtain ⟨-, fed, heard_split, result⟩ := busy under
  rw [waits] at heard_split
  refine ⟨before, m, sub, after, split, since, ?_, fed, heard_split, result⟩
  -- the monitor was installed by the first event, the only one that can have done it
  cases before with
  | nil =>
    obtain ⟨first, rfl⟩ := List.cons.inj split
    rw [List.nil_append, ← first]
    exact lists
  | cons e rest =>
    have later : .install m sub ∈ waitingRun.tail := by
      rw [split]
      exact List.mem_append_right rest List.mem_cons_self
    simp [waitingRun] at later

end Waiting

end Desk
end TickerBoard

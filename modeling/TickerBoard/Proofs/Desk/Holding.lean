import TickerBoard.Proofs.Desk.Run
import TickerBoard.Proofs.Storage.Series

/-! What monitors hold and what is archived.

Of the bars that a symbol hears, its monitor takes those that were traded and
are newer than all it has: `Monitor.held` is the history that comes of it. When
recomputes come back, in which order, and whether they bring a result makes no
difference to it (`holds_finish`). The archive is asked about every bar by
itself: each traded bar of a subscribed symbol goes to the store, whether the
monitor takes it or not (`takeBars_full`). -/
namespace TickerBoard

namespace Monitor
variable {α : Type}

/-! ### One monitor -/

/-- The monitor with a bar, if it takes it, and nothing derived. -/
def hold (m : Monitor α) (b : Bar α) : Monitor α := (m.accept b).getD m

/-- The history of a monitor that was given some bars. -/
def held (m : Monitor α) (bars : List (Bar α)) : List (Bar α) := (bars.foldl hold m).history

theorem history_hold (m : Monitor α) (b : Bar α) :
    (m.hold b).history =
      if b.isTraded = true ∧ m.latest.time.ms < b.time.ms then m.history ++ [b] else m.history := by
  simp only [hold, accept, Bool.and_eq_true, decide_eq_true_eq]
  split <;> rfl

/-- Which bars a monitor takes depends on its history only. -/
theorem held_concat {m now : Monitor α} {bars : List (Bar α)} (h : now.history = m.held bars) (b : Bar α) :
    m.held (bars ++ [b]) = (now.hold b).history := by
  have last : m.held (bars ++ [b]) = ((bars.foldl hold m).hold b).history := by
    rw [held, List.foldl_append]
    rfl
  have latest : now.latest = (bars.foldl hold m).latest :=
    List.singleton_inj.mp (List.append_inj' h rfl).2
  rw [last, history_hold, history_hold, latest, h]
  rfl

theorem inTurn_held {m : Monitor α} (h : InTurn m.history) (bars : List (Bar α)) : InTurn (m.held bars) := by
  induction bars using List.reverseRecOn with
  | nil => exact h
  | append_singleton bars b ih =>
    rw [held_concat rfl, history_hold]
    split
    · rename_i taken
      refine inTurn_concat.mpr ⟨ih, taken.1, fun a ha => ?_⟩
      rcases List.mem_append.mp ha with earlier | latest
      · have := (List.pairwise_append.mp ih.ascending).2.2 a earlier _ (List.mem_singleton.mpr rfl)
        exact Int.lt_trans this taken.2
      · rw [List.mem_singleton.mp latest]
        exact taken.2
    · exact ih

/-- What a monitor holds is what it had and some of the traded bars it was given. -/
theorem held_split (m : Monitor α) (bars : List (Bar α)) :
    ∃ taken, m.held bars = m.history ++ taken ∧ ∀ b ∈ taken, b ∈ bars.filter Bar.isTraded := by
  induction bars using List.reverseRecOn with
  | nil => exact ⟨[], (List.append_nil _).symm, nofun⟩
  | append_singleton bars b ih =>
    obtain ⟨taken, split, given⟩ := ih
    have still : ∀ c ∈ taken, c ∈ (bars ++ [b]).filter Bar.isTraded := fun c hc => by
      rw [List.filter_append]
      exact List.mem_append_left _ (given c hc)
    rw [held_concat rfl, history_hold]
    split
    · rename_i accepted
      refine ⟨taken ++ [b], ?_, fun c hc => ?_⟩
      · show m.held bars ++ [b] = _
        rw [split, List.append_assoc]
      · rcases List.mem_append.mp hc with old | new
        · exact still c old
        · rw [List.mem_singleton.mp new]
          exact List.mem_filter.mpr ⟨by simp, accepted.1⟩
    · exact ⟨taken, split, still⟩

end Monitor

namespace Slot

/-! ### One slot -/

/-- What a slot holds whose monitor was `m` at first and which has heard some bars since:
the bars that do not wait were given to the monitor, and at rest none waits. -/
structure Holds (s : Slot) (m : Monitor Float) (heard : List (Bar Float)) : Prop where
  idle : s.inFlight = false → s.backlog = []
  given : ∃ given, heard = given ++ s.backlog ∧ s.monitor.history = m.held given

theorem holds_feed {s : Slot} {m : Monitor Float} {given : List (Bar Float)}
    (h : s.monitor.history = m.held given) (waiting : List (Bar Float)) :
    (s.feed waiting).Holds m (given ++ waiting) := by
  induction waiting generalizing given with
  | nil => exact ⟨fun _ => rfl, given, rfl, h⟩
  | cons b rest ih =>
    have next := Monitor.held_concat h b
    rw [List.append_cons]
    cases accepted : s.monitor.accept b with
    | none =>
      rw [Monitor.hold, accepted] at next
      simpa [feed, accepted] using ih next.symm
    | some taken =>
      rw [Monitor.hold, accepted] at next
      simp only [feed, accepted]
      exact ⟨fun idle => Bool.noConfusion idle, given ++ [b], rfl, next.symm⟩

theorem holds_arrive {s : Slot} {m : Monitor Float} {heard : List (Bar Float)} (h : s.Holds m heard)
    (b : Bar Float) : (s.arrive b).Holds m (heard ++ [b]) := by
  obtain ⟨given, split, history⟩ := h.given
  cases under : s.inFlight with
  | true =>
    simp only [arrive, under, if_true]
    exact ⟨fun idle => Bool.noConfusion (idle : true = false), given, by rw [split, List.append_assoc], history⟩
  | false =>
    have nothing := h.idle under
    rw [nothing, List.append_nil] at split
    rw [arrive_of_idle under nothing, split]
    exact holds_feed history [b]

end Slot

namespace Desk

/-! ### The slot of a symbol -/

/-- The slot of a symbol is there and holds what it heard. -/
def Holds (d : Desk) (symbol : String) (m : Monitor Float) (heard : List (Bar Float)) : Prop :=
  ∃ s, d.slots.find? symbol = some s ∧ s.Holds m heard

variable {d : Desk} {symbol : String} {m : Monitor Float} {heard : List (Bar Float)}

theorem holds_hear (h : d.Holds symbol m heard) (p : ChartListener × Bar Float) :
    (d.hear p).1.Holds symbol m (heard ++ analysed symbol [p]) := by
  obtain ⟨listener, b⟩ := p
  obtain ⟨s, found, holds⟩ := h
  cases listener with
  | archive => exact ⟨s, found, by simpa [analysed] using holds⟩
  | analytics =>
    have slot := find?_analyse d b symbol
    by_cases own : b.symbol = symbol
    · rw [if_pos own, found] at slot
      exact ⟨s.arrive b, slot, by simpa [analysed, own] using Slot.holds_arrive holds b⟩
    · rw [if_neg own, found] at slot
      exact ⟨s, slot, by simpa [analysed, own] using holds⟩

theorem holds_hear_all (h : d.Holds symbol m heard) (routed : List (ChartListener × Bar Float)) :
    (each hear d routed).1.Holds symbol m (heard ++ analysed symbol routed) := by
  induction routed generalizing d heard with
  | nil => simpa [each, analysed] using h
  | cons p rest ih =>
    rw [analysed_cons, ← List.append_assoc]
    exact ih (holds_hear h p)

theorem holds_begin (h : d.Holds symbol m heard) {name : String} {s s' : Slot}
    (found : d.slots.find? name = some s) (same : s'.monitor.history = s.monitor.history) :
    (d.begin name (s'.feed s.backlog)).Holds symbol m heard := by
  obtain ⟨t, at_symbol, holds⟩ := h
  by_cases own : name = symbol
  · subst own
    obtain rfl := Option.some.inj (found.symm.trans at_symbol)
    obtain ⟨given, split, history⟩ := holds.given
    rw [split]
    exact ⟨_, by simp [begin], Slot.holds_feed (same.trans history) s.backlog⟩
  · exact ⟨t, by simp [begin, own, at_symbol], holds⟩

/-- Whatever a recompute brings, the histories stay. -/
theorem holds_complete (h : d.Holds symbol m heard) (name : String) (epoch : Nat)
    (result : Option (Derived Float)) : (d.complete name epoch result).1.Holds symbol m heard := by
  unfold complete
  split
  · exact h
  · rename_i s found
    split
    · exact h
    · split
      · exact holds_begin h found rfl
      · rename_i derived
        have same : ({ s with monitor := (s.monitor.apply derived).1 } : Slot).monitor.history = s.monitor.history :=
          Monitor.apply_history s.monitor derived
        exact holds_begin h found same

theorem holds_finish (h : d.Holds symbol m heard) (place : Nat) (succeeds : Bool) :
    (d.finish place succeeds).1.Holds symbol m heard := by
  unfold finish
  split
  · exact h
  · exact holds_complete (d := { d with outstanding := d.outstanding.eraseIdx place }) h _ _ _

/-! ### Routing and the archive -/

/-- What is routed to a listener of a symbol of which everyone listens: all its bars. -/
theorem routed_full {r : Registry} (full : r.find? symbol = some .full) (listener : ChartListener)
    (bars : List (Bar Float)) :
    ((r.routeBars bars).filter fun p => p.1 = listener ∧ p.2.symbol = symbol).map (·.2) =
      bars.filter (·.symbol = symbol) := by
  induction bars with
  | nil => rfl
  | cons b rest ih =>
    rw [Registry.routeBars, List.flatMap_cons, List.filter_append, List.map_append]
    rw [Registry.routeBars] at ih
    rw [ih]
    by_cases own : b.symbol = symbol
    · cases listener <;> simp [own, full, Subscription.full]
    · cases r.find? b.symbol <;> simp [own]

theorem archived_hear (d : Desk) (p : ChartListener × Bar Float) (symbol : String) :
    archived symbol (stored (d.hear p).2) =
      (([p].filter fun p => p.1 = .archive ∧ p.2.symbol = symbol).map (·.2)).filter Bar.isTraded := by
  obtain ⟨listener, b⟩ := p
  cases listener with
  | analytics => rfl
  | archive =>
    by_cases traded : b.isTraded = true <;> by_cases own : b.symbol = symbol <;>
      simp [hear, stored, archived, traded, own]

theorem archived_hear_all (d : Desk) (routed : List (ChartListener × Bar Float)) (symbol : String) :
    archived symbol (stored (each hear d routed).2) =
      ((routed.filter fun p => p.1 = .archive ∧ p.2.symbol = symbol).map (·.2)).filter Bar.isTraded := by
  induction routed generalizing d with
  | nil => rfl
  | cons p rest ih =>
    rw [each_cons, stored_append, archived_append, ih, archived_hear, ← List.filter_append, ← List.map_append,
      ← List.filter_append, List.singleton_append]

theorem registry_hear_all (d : Desk) (routed : List (ChartListener × Bar Float)) :
    (each hear d routed).1.registry = d.registry := by
  induction routed generalizing d with
  | nil => rfl
  | cons p rest ih =>
    rw [each_cons]
    refine (ih _).trans ?_
    obtain ⟨listener, b⟩ := p
    cases listener with
    | archive => rfl
    | analytics =>
      simp only [hear, analyse]
      split
      · rfl
      · split <;> rfl

/-- Every traded bar of a subscribed symbol is archived, taken or not. -/
theorem takeBars_full (full : d.registry.find? symbol = some .full) (h : d.Holds symbol m heard)
    (bars : List (Bar Float)) :
    (d.takeBars bars).1.registry = d.registry ∧
      (d.takeBars bars).1.Holds symbol m (heard ++ bars.filter (·.symbol = symbol)) ∧
      archived symbol (stored (d.takeBars bars).2) = (bars.filter (·.symbol = symbol)).filter Bar.isTraded := by
  have analytics : analysed symbol (d.registry.routeBars bars) = bars.filter (·.symbol = symbol) :=
    routed_full full .analytics bars
  refine ⟨registry_hear_all d _, ?_, ?_⟩
  · rw [← analytics]
    exact holds_hear_all h _
  · rw [takeBars, archived_hear_all, routed_full full]

theorem archived_outcome (shown : Monitor Float) (us : List (PatternUpdate Float)) (symbol : String) :
    archived symbol (stored (outcome shown us)) = [] := by
  induction us with
  | nil => rfl
  | cons u rest ih => exact ih

theorem complete_frame (d : Desk) (name : String) (epoch : Nat) (result : Option (Derived Float)) (symbol : String) :
    (d.complete name epoch result).1.registry = d.registry ∧
      archived symbol (stored (d.complete name epoch result).2) = [] := by
  unfold complete
  split
  · exact ⟨rfl, rfl⟩
  · split
    · exact ⟨rfl, rfl⟩
    · split
      · exact ⟨rfl, rfl⟩
      · exact ⟨rfl, archived_outcome _ _ symbol⟩

/-- A recompute that comes back archives nothing. -/
theorem finish_frame (d : Desk) (place : Nat) (succeeds : Bool) (symbol : String) :
    (d.finish place succeeds).1.registry = d.registry ∧
      archived symbol (stored (d.finish place succeeds).2) = [] := by
  unfold finish
  split
  · exact ⟨rfl, rfl⟩
  · exact complete_frame { d with outstanding := d.outstanding.eraseIdx place } _ _ _ symbol

end Desk
end TickerBoard

import TickerBoard.Desk
import TickerBoard.Proofs.Monitor.Follow

/-! Runs of a desk.

A run is any list of events. `heard` is what it routes to the analytics listener
of a symbol, `stored` what it wants stored, and `offered` the lists of one symbol
among that. A desk is `Sound` if its slots stand under the symbols of their
monitors and the epochs it will give are new; every run keeps that
(`sound_run`). -/
namespace TickerBoard

/-! ### What a slot keeps -/

namespace Slot

@[simp] theorem feed_epoch (s : Slot) (bars : List (Bar Float)) : (s.feed bars).epoch = s.epoch := by
  induction bars with
  | nil => rfl
  | cons b rest ih =>
    simp only [feed]
    split
    · rfl
    · exact ih

@[simp] theorem feed_symbol (s : Slot) (bars : List (Bar Float)) :
    (s.feed bars).monitor.symbol = s.monitor.symbol := by
  induction bars with
  | nil => rfl
  | cons b rest ih =>
    simp only [feed]
    split
    · rename_i taken h
      exact Monitor.symbol_accept h
    · exact ih

/-- At rest, a slot is fed with the bar that arrives. -/
theorem arrive_of_idle {s : Slot} (idle : s.inFlight = false) (nothing : s.backlog = []) (b : Bar Float) :
    s.arrive b = s.feed [b] := by
  obtain ⟨monitor, epoch, inFlight, backlog⟩ := s
  obtain rfl : inFlight = false := idle
  obtain rfl : backlog = [] := nothing
  simp only [arrive, feed, Bool.false_eq_true, if_false]

@[simp] theorem arrive_epoch (s : Slot) (b : Bar Float) : (s.arrive b).epoch = s.epoch := by
  unfold arrive
  split
  · rfl
  · split <;> rfl

@[simp] theorem arrive_symbol (s : Slot) (b : Bar Float) :
    (s.arrive b).monitor.symbol = s.monitor.symbol := by
  unfold arrive
  split
  · rfl
  · split
    · rename_i taken
      exact Monitor.symbol_accept taken
    · rfl

end Slot

namespace Desk

/-! ### Runs, and what a symbol hears and offers in them -/

def run [Protractor] (d : Desk) (events : List Event) : Desk × List Effect := each handle d events

theorem each_cons {α : Type} (step : Desk → α → Desk × List Effect) (d : Desk) (a : α) (rest : List α) :
    each step d (a :: rest) =
      ((each step (step d a).1 rest).1, (step d a).2 ++ (each step (step d a).1 rest).2) := rfl

theorem each_append {α : Type} (step : Desk → α → Desk × List Effect) (d : Desk) (a b : List α) :
    each step d (a ++ b) =
      ((each step (each step d a).1 b).1, (each step d a).2 ++ (each step (each step d a).1 b).2) := by
  induction a generalizing d with
  | nil => rfl
  | cons x rest ih => rw [List.cons_append, each_cons, ih, each_cons, List.append_assoc]

theorem run_concat [Protractor] (d : Desk) (events : List Event) (e : Event) :
    d.run (events ++ [e]) =
      (((d.run events).1.handle e).1, (d.run events).2 ++ ((d.run events).1.handle e).2) := by
  rw [run, each_append]
  show (_, _ ++ (_ ++ [])) = _
  rw [List.append_nil]
  rfl

/-- The bars that the analytics listener of a symbol is handed. -/
def analysed (symbol : String) (routed : List (ChartListener × Bar Float)) : List (Bar Float) :=
  (routed.filter fun p => p.1 = .analytics ∧ p.2.symbol = symbol).map (·.2)

theorem analysed_cons (symbol : String) (p : ChartListener × Bar Float) (rest : List (ChartListener × Bar Float)) :
    analysed symbol (p :: rest) = analysed symbol [p] ++ analysed symbol rest := by
  simp only [analysed, ← List.map_append, ← List.filter_append, List.singleton_append]

/-- The bars that an event routes to the analytics listener of a symbol. -/
def heardIn (d : Desk) (symbol : String) : Event → List (Bar Float)
  | .bars bars => analysed symbol (d.registry.routeBars bars)
  | _ => []

/-- The bars that a run routes to the analytics listener of a symbol, in turn. -/
def heard [Protractor] (symbol : String) : Desk → List Event → List (Bar Float)
  | _, [] => []
  | d, e :: rest => d.heardIn symbol e ++ heard symbol (d.handle e).1 rest

/-- The lists of a symbol among the effects. -/
def offered (symbol : String) (effects : List Effect) : List (PatternUpdate Float) :=
  effects.filterMap fun
    | .store (.patterns u) => if u.symbol = symbol then some u else none
    | _ => none

/-- The jobs among some effects, in turn. -/
def stored (effects : List Effect) : List WriteJob :=
  effects.filterMap fun
    | .store job => some job
    | .publish _ => none

@[simp] theorem stored_append (a b : List Effect) : stored (a ++ b) = stored a ++ stored b :=
  List.filterMap_append

/-- The event is no recompute that comes back without a result. -/
def Event.Succeeds [Protractor] (d : Desk) : Event → Prop
  | .finish place succeeds =>
    ∀ r, d.outstanding[place]? = some r → succeeds = true ∧ r.monitor.derive?.isSome = true
  | _ => True

/-- No recompute of the run comes back without a result. -/
def Successful [Protractor] : Desk → List Event → Prop
  | _, [] => True
  | d, e :: rest => e.Succeeds d ∧ Successful (d.handle e).1 rest

theorem heard_concat [Protractor] (symbol : String) (d : Desk) (events : List Event) (e : Event) :
    heard symbol d (events ++ [e]) = heard symbol d events ++ (d.run events).1.heardIn symbol e := by
  induction events generalizing d with
  | nil => simp [heard, run, each]
  | cons x rest ih =>
    rw [List.cons_append, heard, ih, heard, List.append_assoc]
    rfl

theorem successful_concat [Protractor] {d : Desk} {events : List Event} {e : Event} :
    Successful d (events ++ [e]) ↔ Successful d events ∧ e.Succeeds (d.run events).1 := by
  induction events generalizing d with
  | nil => simp [Successful, run, each]
  | cons x rest ih =>
    rw [List.cons_append, Successful, ih, Successful, and_assoc]
    rfl

@[simp] theorem offered_append (symbol : String) (a b : List Effect) :
    offered symbol (a ++ b) = offered symbol a ++ offered symbol b :=
  List.filterMap_append

@[simp] theorem offered_nil (symbol : String) : offered symbol [] = [] := rfl

theorem offered_outcome_self (m : Monitor Float) (d : Derived Float) (shown : Monitor Float) :
    offered m.symbol (outcome shown (m.apply d).2) = (m.apply d).2 := by
  have all : ∀ us : List (PatternUpdate Float), (∀ u ∈ us, u.symbol = m.symbol) →
      offered m.symbol (us.map fun u => Effect.store (.patterns u)) = us := by
    intro us h
    induction us with
    | nil => rfl
    | cons u rest ih =>
      have hu : u.symbol = m.symbol := h u (List.mem_cons_self ..)
      have := ih fun v hv => h v (List.mem_cons_of_mem _ hv)
      simp only [offered, List.map_cons, List.filterMap_cons, hu, if_true] at this ⊢
      rw [this]
  rw [outcome, offered_append, all _ fun u hu => Monitor.symbol_of_mem_apply hu]
  exact List.append_nil _

theorem offered_outcome_other {symbol : String} {m : Monitor Float} (h : m.symbol ≠ symbol)
    (d : Derived Float) (shown : Monitor Float) :
    offered symbol (outcome shown (m.apply d).2) = [] := by
  simp only [offered, outcome, List.filterMap_append, List.filterMap_map, List.append_eq_nil_iff,
    List.filterMap_eq_nil_iff]
  refine ⟨fun u hu => ?_, by simp⟩
  have := Monitor.symbol_of_mem_apply hu
  simp [this, h]

/-! ### Bars -/

/-- Only the slot of the bar's own symbol notices the bar. -/
theorem find?_analyse (d : Desk) (b : Bar Float) (symbol : String) :
    (d.analyse b).slots.find? symbol =
      if b.symbol = symbol then (d.slots.find? symbol).map (·.arrive b) else d.slots.find? symbol := by
  by_cases own : b.symbol = symbol
  · subst own
    unfold analyse
    cases found : d.slots.find? b.symbol with
    | none => simp [found]
    | some slot =>
      dsimp only
      split <;> simp [begin]
  · unfold analyse
    cases found : d.slots.find? b.symbol with
    | none => simp [own]
    | some slot =>
      dsimp only
      split <;> simp [begin, own]

/-! ### Quotes -/

theorem takeQuote_frame (d : Desk) (q : Quote) :
    (∃ books, (d.takeQuote q).1 = { d with books }) ∧ ∀ symbol, offered symbol (d.takeQuote q).2 = [] := by
  unfold takeQuote
  split <;> exact ⟨⟨_, rfl⟩, fun _ => rfl⟩

/-- Quotes reach the books only. -/
theorem takeQuotes_frame (d : Desk) (quotes : List Quote) :
    (∃ books, (d.takeQuotes quotes).1 = { d with books }) ∧
      ∀ symbol, offered symbol (d.takeQuotes quotes).2 = [] := by
  unfold takeQuotes
  generalize d.registry.routeQuotes quotes = routed
  induction routed generalizing d with
  | nil => exact ⟨⟨d.books, rfl⟩, fun _ => rfl⟩
  | cons q rest ih =>
    obtain ⟨⟨books, first⟩, silent⟩ := takeQuote_frame d q
    obtain ⟨⟨books', others⟩, silent'⟩ := ih (d.takeQuote q).1
    rw [each_cons]
    refine ⟨⟨books', by rw [others, first]⟩, fun symbol => ?_⟩
    rw [offered_append, silent, silent', List.append_nil]

/-- Quotes change nothing but the books. -/
theorem handle_quotes [Protractor] (d : Desk) (quotes : List Quote) :
    ∃ books, (d.handle (.quotes quotes)).1 = { d with books } :=
  (takeQuotes_frame d quotes).1

/-! ### Sound desks -/

/-- Every slot has a monitor of its symbol, and no slot and no recompute an epoch that is
still to be given. -/
structure Sound (d : Desk) : Prop where
  named : ∀ symbol s, d.slots.find? symbol = some s → s.monitor.symbol = symbol
  slots : ∀ symbol s, d.slots.find? symbol = some s → s.epoch ≤ d.lastEpoch
  outstanding : ∀ r ∈ d.outstanding, r.epoch ≤ d.lastEpoch

theorem sound_empty : Sound empty :=
  ⟨fun _ _ h => by simp [empty] at h, fun _ _ h => by simp [empty] at h, fun _ h => by simp [empty] at h⟩

theorem sound_put {d : Desk} (sound : d.Sound) {symbol : String} {s : Slot}
    (named : s.monitor.symbol = symbol) (epoch : s.epoch ≤ d.lastEpoch) :
    Sound { d with slots := d.slots.insert symbol s } := by
  refine ⟨fun k t h => ?_, fun k t h => ?_, sound.outstanding⟩ <;>
    simp only [Table.find?_insert] at h <;> split at h
  · rename_i same
    cases h
    exact named.trans same
  · exact sound.named k t h
  · cases h
    exact epoch
  · exact sound.slots k t h

theorem sound_begin {d : Desk} (sound : d.Sound) {symbol : String} {s : Slot}
    (named : s.monitor.symbol = symbol) (epoch : s.epoch ≤ d.lastEpoch) :
    Sound (d.begin symbol s) := by
  have put := sound_put sound named epoch
  refine ⟨put.named, put.slots, fun r hr => ?_⟩
  simp only [begin] at hr
  split at hr
  · rcases List.mem_append.mp hr with old | new
    · exact sound.outstanding r old
    · obtain rfl := List.mem_singleton.mp new
      exact epoch
  · exact sound.outstanding r hr

theorem sound_hear {d : Desk} (sound : d.Sound) (p : ChartListener × Bar Float) :
    Sound (d.hear p).1 := by
  obtain ⟨listener, b⟩ := p
  cases listener with
  | archive => exact sound
  | analytics =>
    simp only [hear, analyse]
    split
    · exact sound
    · rename_i slot found
      have named : (slot.arrive b).monitor.symbol = b.symbol := by
        rw [Slot.arrive_symbol, sound.named _ _ found]
      have epoch : (slot.arrive b).epoch ≤ d.lastEpoch := by
        rw [Slot.arrive_epoch]
        exact sound.slots _ _ found
      split
      · exact sound_put sound named epoch
      · exact sound_begin sound named epoch

theorem sound_hear_all {d : Desk} (sound : d.Sound) (routed : List (ChartListener × Bar Float)) :
    Sound (each hear d routed).1 := by
  induction routed generalizing d with
  | nil => exact sound
  | cons p rest ih => exact ih (sound_hear sound p)

theorem sound_complete {d : Desk} (sound : d.Sound) (symbol : String) (epoch : Nat)
    (result : Option (Derived Float)) : Sound (d.complete symbol epoch result).1 := by
  unfold complete
  split
  · exact sound
  · rename_i slot found
    split
    · exact sound
    · have named := sound.named _ _ found
      have bound := sound.slots _ _ found
      split
      · exact sound_begin sound (by rw [Slot.feed_symbol, named]) (by rw [Slot.feed_epoch]; exact bound)
      · exact sound_begin sound (by rw [Slot.feed_symbol]; exact named)
          (by rw [Slot.feed_epoch]; exact bound)

theorem sound_install {d : Desk} (sound : d.Sound) (m : Monitor Float) (sub : Subscription) :
    Sound (d.install m sub).1 := by
  unfold install
  split
  · exact sound
  · have later : Sound { d with lastEpoch := d.lastEpoch + 1 } :=
      ⟨sound.named, fun k s h => Nat.le_succ_of_le (sound.slots k s h),
        fun r h => Nat.le_succ_of_le (sound.outstanding r h)⟩
    have put := sound_put (s := .fresh m (d.lastEpoch + 1)) later rfl (Nat.le_refl _)
    exact ⟨put.named, put.slots, put.outstanding⟩

theorem sound_detach {d : Desk} (sound : d.Sound) (symbol : String) (t : Teardown) :
    Sound (d.detach symbol t) := by
  have left : ∀ k s, (d.detach symbol t).slots.find? k = some s → d.slots.find? k = some s := by
    intro k s h
    simp only [detach] at h
    split at h
    · rw [Table.find?_erase] at h
      split at h
      · cases h
      · exact h
    · exact h
  exact ⟨fun k s h => sound.named k s (left k s h), fun k s h => sound.slots k s (left k s h),
    sound.outstanding⟩

theorem sound_handle [Protractor] {d : Desk} (sound : d.Sound) (e : Event) : Sound (d.handle e).1 := by
  cases e with
  | bars bars => exact sound_hear_all sound _
  | quotes quotes =>
    obtain ⟨books, same⟩ := handle_quotes d quotes
    rw [same]
    exact ⟨sound.named, sound.slots, sound.outstanding⟩
  | install m sub => exact sound_install sound m sub
  | detach symbol t => exact sound_detach sound symbol t
  | finish place succeeds =>
    simp only [handle, finish]
    split
    · exact sound
    · refine sound_complete ?_ _ _ _
      exact ⟨sound.named, sound.slots, fun r h => sound.outstanding r (List.mem_of_mem_eraseIdx h)⟩

theorem sound_run [Protractor] {d : Desk} (sound : d.Sound) (events : List Event) : Sound (d.run events).1 := by
  induction events generalizing d with
  | nil => exact sound
  | cons e rest ih => exact ih (sound_handle sound e)

end Desk
end TickerBoard

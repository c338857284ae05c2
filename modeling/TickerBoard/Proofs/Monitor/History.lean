import TickerBoard.Proofs.Monitor.Derivation

/-! The history of a monitor, in whatever order its jobs are done.

A bar is offered either for a job that is done later or to be derived at once,
and jobs that are outstanding are done in any order (`Workbench.move`). Only
what is offered counts for the history: it grows by the bars that are traded and
newer than all it has (`taken`), one move at a time (`Workbench.history_move`)
and so over every run. What a move can come to is said once (`Workbench.moved`).
What a monitor is seeded with and what it takes later make the one history of
`history_canonical`. -/
namespace TickerBoard
namespace Monitor
variable {α : Type}

/-! ### What a history takes -/

/-- A history takes a bar that is traded and newer than all it has. -/
def Takes (history : List (Bar α)) (b : Bar α) : Prop :=
  b.isTraded = true ∧ ∀ a ∈ history, a.time.ms < b.time.ms

instance (history : List (Bar α)) (b : Bar α) : Decidable (Takes history b) :=
  inferInstanceAs (Decidable (_ ∧ _))

/-- The bars of those offered that a history takes, growing with each. -/
def taken (history : List (Bar α)) : List (Bar α) → List (Bar α)
  | [] => []
  | b :: rest => if Takes history b then b :: taken (history ++ [b]) rest else taken history rest

theorem taken_append (history first second : List (Bar α)) :
    taken history (first ++ second) = taken history first ++ taken (history ++ taken history first) second := by
  induction first generalizing history with
  | nil => rw [taken, List.append_nil, List.nil_append, List.nil_append]
  | cons b rest ih =>
    rw [List.cons_append, taken, taken]
    split
    · rw [ih, List.cons_append, List.append_assoc, List.singleton_append]
    · rw [ih]

variable {m : Monitor α} {b : Bar α}

/-- In turn, a monitor accepts what its history takes. -/
theorem accept_of_takes (turn : InTurn m.history) (h : Takes m.history b) :
    m.accept b = some { m with earlier := m.history, latest := b } :=
  accept_of_inTurn (inTurn_concat.mpr ⟨turn, h⟩)

theorem accept_of_not_takes (turn : InTurn m.history) (h : ¬ Takes m.history b) : m.accept b = none := by
  cases accepted : m.accept b with
  | none => rfl
  | some next =>
    obtain ⟨grown, turn'⟩ := inTurn_accept turn accepted
    rw [grown] at turn'
    exact absurd (inTurn_concat.mp turn').2 h

/-! ### Moves -/

/-- What is done to a monitor and its outstanding jobs. -/
inductive Move (α : Type)
  /-- A bar is offered for a job. -/
  | accept (b : Bar α)
  /-- A bar is offered and derived at once. -/
  | observe (b : Bar α)
  /-- The outstanding job at a place is done and its result put in. -/
  | finish (place : Nat)

/-- The bar that is offered. -/
def Move.offered : Move α → Option (Bar α)
  | .accept b | .observe b => some b
  | .finish _ => none

/-- A monitor with its outstanding jobs, each the monitor as it was when it took a bar. -/
structure Workbench (α : Type) where
  monitor : Monitor α
  jobs : List (Monitor α)

namespace Workbench
variable [Angular α]

/-- A bar that was taken stays where its dates leave the calendar, and nothing is put in. -/
def move (w : Workbench α) : Move α → Workbench α
  | .accept b =>
    match w.monitor.accept b with
    | some next => ⟨next, w.jobs ++ [next]⟩
    | none => w
  | .observe b =>
    match w.monitor.observe b with
    | .ok (some (next, _)) => { w with monitor := next }
    | .ok none => w
    | .error _ => { w with monitor := (w.monitor.accept b).getD w.monitor }
  | .finish place =>
    match w.jobs[place]? with
    | some job => ⟨(job.derive?.map fun d => (w.monitor.apply d).1).getD w.monitor, w.jobs.eraseIdx place⟩
    | none => w

def run (w : Workbench α) (moves : List (Move α)) : Workbench α := moves.foldl move w

variable {w : Workbench α}

/-- A bar that the history does not take is refused and changes nothing at all. -/
theorem refused (turn : InTurn w.monitor.history) (h : ¬ Takes w.monitor.history b) :
    w.monitor.observe b = .ok none ∧ w.move (.accept b) = w ∧ w.move (.observe b) = w := by
  have rejected := accept_of_not_takes turn h
  have unobserved := observe_refused rejected
  exact ⟨unobserved, by rw [move, rejected], by rw [move, unobserved]⟩

/-- All that a move can come to. -/
inductive Moved (w : Workbench α) : Move α → Workbench α → Prop
  | unchanged {k} (refused : ∀ b ∈ k.offered, w.monitor.accept b = none) : Moved w k w
  | queued {b next} (accepted : w.monitor.accept b = some next) : Moved w (.accept b) ⟨next, w.jobs ++ [next]⟩
  | derived {b next d} (accepted : w.monitor.accept b = some next) (derived : next.derive? = some d) :
      Moved w (.observe b) ⟨(next.apply d).1, w.jobs⟩
  | undated {b next} (accepted : w.monitor.accept b = some next) : Moved w (.observe b) ⟨next, w.jobs⟩
  | finished {place job d} (found : w.jobs[place]? = some job) (derived : job.derive? = some d) :
      Moved w (.finish place) ⟨(w.monitor.apply d).1, w.jobs.eraseIdx place⟩
  | dropped {place} : Moved w (.finish place) ⟨w.monitor, w.jobs.eraseIdx place⟩

theorem moved (w : Workbench α) (k : Move α) : w.Moved k (w.move k) := by
  cases k with
  | accept b =>
    cases accepted : w.monitor.accept b with
    | none =>
      rw [move, accepted]
      exact .unchanged (by simpa [Move.offered] using accepted)
    | some next =>
      rw [move, accepted]
      exact .queued accepted
  | observe b =>
    cases accepted : w.monitor.accept b with
    | none =>
      rw [move, observe_refused accepted]
      exact .unchanged (by simpa [Move.offered] using accepted)
    | some next =>
      rw [move, observe_taken accepted]
      cases derived : next.derive? with
      | none =>
        simp only [Failure.inCalendar, Except.map, accepted, Option.getD_some]
        exact .undated accepted
      | some d => exact .derived accepted derived
  | finish place =>
    rw [move]
    cases found : w.jobs[place]? with
    | none => exact .unchanged (by simp [Move.offered])
    | some job =>
      dsimp only
      cases derived : job.derive? with
      | none => exact .dropped
      | some d => exact .finished found derived

/-- A move leaves the history in turn, with what it takes of the bar that is offered. -/
theorem history_move (turn : InTurn w.monitor.history) (k : Move α) :
    (w.move k).monitor.history = w.monitor.history ++ taken w.monitor.history k.offered.toList ∧
      InTurn (w.move k).monitor.history := by
  have grows {b next} (accepted : w.monitor.accept b = some next) :
      next.history = w.monitor.history ++ taken w.monitor.history [b] ∧ InTurn next.history := by
    obtain ⟨grown, turn'⟩ := inTurn_accept turn accepted
    have takes : Takes w.monitor.history b := (inTurn_concat.mp (grown ▸ turn')).2
    exact ⟨by simp [taken, takes, grown], turn'⟩
  have stays {bars} (none : taken w.monitor.history bars = []) :
      w.monitor.history = w.monitor.history ++ taken w.monitor.history bars ∧ InTurn w.monitor.history :=
    ⟨by rw [none, List.append_nil], turn⟩
  have step := w.moved k
  generalize w.move k = after at step ⊢
  cases step with
  | unchanged refused =>
    refine stays ?_
    cases offers : k.offered with
    | none => rfl
    | some b =>
      have idle : ¬ Takes w.monitor.history b := fun takes =>
        absurd (refused b offers) (by rw [accept_of_takes turn takes]; exact Option.some_ne_none _)
      simp [taken, idle]
  | queued accepted => exact grows accepted
  | derived accepted derived =>
    have own := grows accepted
    exact own
  | undated accepted => exact grows accepted
  | finished found derived => exact stays rfl
  | dropped => exact stays rfl

theorem history_run (turn : InTurn w.monitor.history) (moves : List (Move α)) :
    (w.run moves).monitor.history =
        w.monitor.history ++ taken w.monitor.history (moves.filterMap Move.offered) ∧
      InTurn (w.run moves).monitor.history := by
  induction moves generalizing w with
  | nil => exact ⟨(List.append_nil _).symm, turn⟩
  | cons k rest ih =>
    obtain ⟨grown, turn'⟩ := history_move turn k
    obtain ⟨later, inTurn⟩ := ih turn'
    have offers : (k :: rest).filterMap Move.offered = k.offered.toList ++ rest.filterMap Move.offered := by
      cases offered : k.offered <;> simp [offered]
    refine ⟨?_, inTurn⟩
    rw [offers, taken_append, ← List.append_assoc, ← grown]
    exact later

/-- What taking a bar and putting a derived part in both keep holds of the monitor and of every
outstanding job, whatever is done. -/
theorem forall_move {P : Monitor α → Prop} (accept : ∀ m b next, P m → m.accept b = some next → P next)
    (apply : ∀ m d, P m → P (m.apply d).1) (held : ∀ m ∈ w.monitor :: w.jobs, P m) (k : Move α) :
    ∀ m ∈ (w.move k).monitor :: (w.move k).jobs, P m := by
  obtain ⟨monitor, jobs⟩ := List.forall_mem_cons.mp held
  have others (place : Nat) : ∀ m ∈ w.jobs.eraseIdx place, P m :=
    fun m hm => jobs m ((List.eraseIdx_sublist ..).subset hm)
  have step := w.moved k
  generalize w.move k = after at step ⊢
  refine List.forall_mem_cons.mpr ?_
  cases step with
  | unchanged refused => exact ⟨monitor, jobs⟩
  | @queued b next accepted =>
    have own := accept _ b next monitor accepted
    exact ⟨own, List.forall_mem_append.mpr ⟨jobs, List.forall_mem_singleton.mpr own⟩⟩
  | @derived b next d accepted derived => exact ⟨apply next d (accept _ b next monitor accepted), jobs⟩
  | @undated b next accepted => exact ⟨accept _ b next monitor accepted, jobs⟩
  | @finished place job d found derived => exact ⟨apply _ d monitor, others place⟩
  | dropped => exact ⟨monitor, others _⟩

theorem forall_run {P : Monitor α → Prop} (accept : ∀ m b next, P m → m.accept b = some next → P next)
    (apply : ∀ m d, P m → P (m.apply d).1) (held : ∀ m ∈ w.monitor :: w.jobs, P m) (moves : List (Move α)) :
    ∀ m ∈ (w.run moves).monitor :: (w.run moves).jobs, P m := by
  induction moves generalizing w with
  | nil => exact held
  | cons k rest ih => exact ih (forall_move accept apply held k)

end Workbench

/-! ### From the seed on -/

section Seed
variable [Angular α] {rules : AnalysisRules α} {symbol : String} {bars : List (Bar α)}
  {stored : Table String (List (Divergence α))}

/-- With a usable bar, nothing but the calendar keeps a monitor from being seeded. -/
theorem seed_eq_error {f : Failure} (nonempty : usable bars ≠ []) (h : seed rules symbol bars stored = .error f) :
    f = .outsideCalendar ∧ ∃ b ∈ usable bars, ¬ Dated rules b := by
  refine ⟨?_, ?_⟩
  · cases found : (usable bars).reverse with
    | nil => exact absurd (List.reverse_eq_nil_iff.mp found) nonempty
    | cons latest earlier =>
      simp only [seed, found] at h
      cases derived : (⟨symbol, rules, earlier.reverse, latest, startCharts rules.charts stored, [], none⟩ :
          Monitor α).derive? with
      | none =>
        rw [derived] at h
        exact (Except.error.inj h).symm
      | some d =>
        rw [derived] at h
        cases h
  · by_contra none
    have dated : ∀ b ∈ usable bars, Dated rules b := fun b hb => by_contra fun undated => none ⟨b, hb, undated⟩
    obtain ⟨m, us, seeded⟩ := exists_seed (derivation_of_dated nonempty dated) symbol stored
    rw [seeded] at h
    cases h

/-- **The history of a monitor is canonical.** Of bars in any order, one of them traded, a
monitor is seeded, unless the calendar lacks the days of a traded one. Its history is the list
by time of the first listed of the traded bars of each time. Whatever is offered and whichever
jobs are done after that, the history is not empty, in turn, and that one with all it took of
the bars that were offered, in their order; a bar that it does not take is refused and changes
neither the monitor nor its jobs. -/
theorem history_canonical (rules : AnalysisRules α) (symbol : String) {bars : List (Bar α)}
    (traded : ∃ b ∈ bars, b.isTraded = true) (stored : Table String (List (Divergence α))) :
    (seed rules symbol bars stored = .error .outsideCalendar ∧
      ∃ b ∈ bars, b.isTraded = true ∧ ¬ Dated rules b) ∨
    ∃ m us, seed rules symbol bars stored = .ok (m, us) ∧
      (∀ history, FirstTraded bars history ↔ history = m.history) ∧
      ∀ moves : List (Move α), let w := Workbench.run ⟨m, []⟩ moves
        w.monitor.history ≠ [] ∧ InTurn w.monitor.history ∧
        w.monitor.history = m.history ++ taken m.history (moves.filterMap Move.offered) ∧
        ∀ b, ¬ Takes w.monitor.history b →
          w.monitor.accept b = none ∧ w.monitor.observe b = .ok none ∧
          w.move (.accept b) = w ∧ w.move (.observe b) = w := by
  have nonempty := usable_ne_nil traded
  cases seeded : seed rules symbol bars stored with
  | error f =>
    obtain ⟨rfl, b, hb, undated⟩ := seed_eq_error nonempty seeded
    exact .inl ⟨rfl, b, mem_of_mem_usable hb, (inTurn_usable bars).traded b hb, undated⟩
  | ok r =>
    obtain ⟨m, us⟩ := r
    obtain ⟨-, own⟩ := upToDate_seed seeded
    have turn : InTurn m.history := own ▸ inTurn_usable bars
    refine .inr ⟨m, us, rfl, fun history => by rw [own]; exact firstTraded_iff, fun moves => ?_⟩
    obtain ⟨grown, inTurn⟩ := Workbench.history_run (w := ⟨m, []⟩) turn moves
    refine ⟨List.append_ne_nil_of_right_ne_nil _ (List.cons_ne_nil _ _), inTurn, grown, fun b h => ?_⟩
    exact ⟨accept_of_not_takes inTurn h, Workbench.refused inTurn h⟩

end Seed

/-! ### Two bars out of turn, and more -/

/-- Two bars are taken before the job of the first is done, and one comes too late. -/
def flatMoves : List (Move Float) := [.accept (flatBar 10), .observe (flatBar 15), .finish 0, .accept (flatBar 12)]

theorem history_canonical_flat :
    (∃ b ∈ [flatBar 5, flatBar 0], b.isTraded = true) ∧
      ∃ m us, seed sessionRules "XYZ" [flatBar 5, flatBar 0] .empty = .ok (m, us) ∧
        (Workbench.run ⟨m, []⟩ flatMoves).monitor.history = [flatBar 0, flatBar 5, flatBar 10, flatBar 15] := by
  have traded : ∃ b ∈ [flatBar 5, flatBar 0], b.isTraded = true := ⟨flatBar 0, by simp, rfl⟩
  refine ⟨traded, ?_⟩
  obtain ⟨-, b, hb, -, undated⟩ | ⟨m, us, seeded, first, course⟩ :=
    history_canonical sessionRules "XYZ" traded .empty
  · exact absurd (dated_flatBar b (by simpa [or_comm] using hb)) undated
  · have own : FirstTraded [flatBar 5, flatBar 0] [flatBar 0, flatBar 5] := by
      refine ⟨by decide, fun b => ⟨fun hb => ?_, fun h => ?_⟩⟩
      · simp only [List.mem_cons, List.not_mem_nil, or_false] at hb
        rcases hb with rfl | rfl <;> rfl
      · simpa [or_comm] using List.mem_of_find?_eq_some h
    obtain ⟨-, -, grown, -⟩ := course flatMoves
    refine ⟨m, us, seeded, ?_⟩
    rw [grown, ← (first _).mp own]
    decide +kernel

end Monitor
end TickerBoard

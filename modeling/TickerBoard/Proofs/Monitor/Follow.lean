import Mathlib.Data.List.Induction
import TickerBoard.Monitor
import TickerBoard.Proofs.Chart.Candles

/-! A monitor that follows its bars one after the other.

`follow` is the plain reading of a monitor: every bar is observed as it comes,
and what is to be stored adds up. However a board hands out the work, this is
what it has to come to. Two facts say how one more bar extends a following
(`follow_concat_refused`, `follow_concat_taken`), that there is no third is
`follow_concat_cases`, and `follow_induction` is the one induction over what was
followed: a property of monitor and updates that every taken bar keeps holds
after all of them. -/
namespace TickerBoard.Monitor
variable {α : Type}

/-! ### What a step does to each part -/

theorem accept_eq_some {m taken : Monitor α} {b : Bar α} :
    m.accept b = some taken ↔
      (b.isTraded = true ∧ m.latest.time.ms < b.time.ms) ∧
        taken = { m with earlier := m.history, latest := b } := by
  simp only [accept, Bool.and_eq_true, decide_eq_true_eq]
  split
  · rename_i h
    simp [h, eq_comm]
  · rename_i h
    simp [h]

/-- A bar that is taken comes in turn. -/
theorem inTurn_accept {m taken : Monitor α} {b : Bar α} (turn : InTurn m.history)
    (accepted : m.accept b = some taken) : taken.history = m.history ++ [b] ∧ InTurn taken.history := by
  obtain ⟨⟨traded, newer⟩, rfl⟩ := accept_eq_some.mp accepted
  refine ⟨rfl, inTurn_concat.mpr ⟨turn, traded, fun a ha => ?_⟩⟩
  rcases List.mem_append.mp ha with old | latest
  · exact Int.lt_trans ((inTurn_concat.mp turn).2.2 a old) newer
  · rw [List.mem_singleton.mp latest]
    exact newer

theorem history_accept {m taken : Monitor α} {b : Bar α} (h : m.accept b = some taken) :
    taken.history = m.history ++ [b] := by
  rw [(accept_eq_some.mp h).2]
  rfl

theorem symbol_accept {m taken : Monitor α} {b : Bar α} (h : m.accept b = some taken) :
    taken.symbol = m.symbol := by
  rw [(accept_eq_some.mp h).2]

theorem rules_accept {m taken : Monitor α} {b : Bar α} (h : m.accept b = some taken) :
    taken.rules = m.rules := by
  rw [(accept_eq_some.mp h).2]

@[simp] theorem apply_symbol (m : Monitor α) (d : Derived α) : (m.apply d).1.symbol = m.symbol := rfl

@[simp] theorem apply_rules (m : Monitor α) (d : Derived α) : (m.apply d).1.rules = m.rules := rfl

@[simp] theorem apply_history (m : Monitor α) (d : Derived α) : (m.apply d).1.history = m.history := rfl

@[simp] theorem apply_charts (m : Monitor α) (d : Derived α) : (m.apply d).1.charts = d.charts := rfl

/-- Every list that is to be stored is one of the monitor's own symbol. -/
theorem symbol_of_mem_apply {m : Monitor α} {d : Derived α} {u : PatternUpdate α}
    (h : u ∈ (m.apply d).2) : u.symbol = m.symbol := by
  simp only [apply, List.mem_filterMap, Option.map_eq_some_iff] at h
  obtain ⟨_, _, _, _, rfl⟩ := h
  rfl

/-! ### Following bars -/

section Follow
variable [Angular α]

/-- Observes bars one after the other and answers all lists that are to be stored. -/
def follow (m : Monitor α) : List (Bar α) → Except Failure (Monitor α × List (PatternUpdate α))
  | [] => .ok (m, [])
  | b :: rest => do
    let taken ← m.observe b
    let (m, first) := taken.getD (m, [])
    let (m, others) ← m.follow rest
    pure (m, first ++ others)

theorem observe_refused {m : Monitor α} {b : Bar α} (h : m.accept b = none) :
    m.observe b = .ok none := by
  simp only [observe, h]

theorem observe_taken {m taken : Monitor α} {b : Bar α} (h : m.accept b = some taken) :
    m.observe b = (Failure.inCalendar taken.derive?).map fun d => some (taken.apply d) := by
  simp only [observe, h]

/-- What a bar that was taken came to. -/
theorem observe_eq_some {m : Monitor α} {b : Bar α} {r : Monitor α × List (PatternUpdate α)}
    (h : m.observe b = .ok (some r)) :
    ∃ taken d, m.accept b = some taken ∧ taken.derive? = some d ∧ taken.apply d = r := by
  cases accepted : m.accept b with
  | none =>
    rw [observe_refused accepted] at h
    cases h
  | some taken =>
    rw [observe_taken accepted] at h
    cases derived : taken.derive? with
    | none =>
      rw [derived] at h
      cases h
    | some d =>
      rw [derived] at h
      exact ⟨taken, d, rfl, derived, Option.some.inj (Except.ok.inj h)⟩

theorem follow_append (m : Monitor α) (a b : List (Bar α)) :
    m.follow (a ++ b) = (do
      let (m, first) ← m.follow a
      let (m, others) ← m.follow b
      pure (m, first ++ others)) := by
  induction a generalizing m with
  | nil => cases h : m.follow b <;> simp [follow, h, bind, Except.bind, pure, Except.pure]
  | cons x rest ih =>
    simp only [List.cons_append, follow, ih]
    cases m.observe x with
    | error e => rfl
    | ok taken =>
      simp only [bind, Except.bind, pure, Except.pure]
      cases (taken.getD (m, [])).1.follow rest with
      | error e => rfl
      | ok r =>
        dsimp only
        cases r.1.follow b with
        | error e => rfl
        | ok r' => simp

theorem follow_concat_refused {m now : Monitor α} {bars : List (Bar α)} {us : List (PatternUpdate α)}
    {b : Bar α} (h : m.follow bars = .ok (now, us)) (refused : now.accept b = none) :
    m.follow (bars ++ [b]) = .ok (now, us) := by
  rw [follow_append, h]
  simp [follow, observe_refused refused, bind, Except.bind, pure, Except.pure]

theorem follow_concat_taken {m now taken : Monitor α} {bars : List (Bar α)}
    {us : List (PatternUpdate α)} {b : Bar α} {d : Derived α} (h : m.follow bars = .ok (now, us))
    (accepted : now.accept b = some taken) (derived : taken.derive? = some d) :
    m.follow (bars ++ [b]) = .ok ((taken.apply d).1, us ++ (taken.apply d).2) := by
  rw [follow_append, h]
  simp [follow, observe_taken accepted, derived, Failure.inCalendar, Except.map, bind, Except.bind,
    pure, Except.pure]

/-- The last bar that was followed was refused, or was taken and derived. -/
theorem follow_concat_cases {m now : Monitor α} {bars : List (Bar α)} {b : Bar α} {us : List (PatternUpdate α)}
    (h : m.follow (bars ++ [b]) = .ok (now, us)) :
    ∃ mid us', m.follow bars = .ok (mid, us') ∧
      ((mid.accept b = none ∧ now = mid ∧ us = us') ∨
        ∃ taken d, mid.accept b = some taken ∧ taken.derive? = some d ∧ now = (taken.apply d).1 ∧
          us = us' ++ (taken.apply d).2) := by
  rw [follow_append] at h
  cases before : m.follow bars with
  | error e => simp [before, bind, Except.bind] at h
  | ok r =>
    obtain ⟨mid, us'⟩ := r
    refine ⟨mid, us', rfl, ?_⟩
    cases accepted : mid.accept b with
    | none =>
      simp only [before, follow, observe_refused accepted, bind, Except.bind, pure, Except.pure,
        Option.getD_none, List.append_nil, Except.ok.injEq, Prod.mk.injEq] at h
      exact .inl ⟨rfl, h.1.symm, h.2.symm⟩
    | some taken =>
      cases derived : taken.derive? with
      | none =>
        simp [before, follow, observe_taken accepted, derived, Failure.inCalendar, Except.map, bind,
          Except.bind] at h
      | some d =>
        simp only [before, follow, observe_taken accepted, derived, Failure.inCalendar, Except.map,
          bind, Except.bind, pure, Except.pure, Option.getD_some, List.append_nil, Except.ok.injEq,
          Prod.mk.injEq] at h
        exact .inr ⟨taken, d, rfl, derived, h.1.symm, h.2.symm⟩

/-- What every taken bar keeps holds of whatever was followed. -/
theorem follow_induction {P : Monitor α → List (PatternUpdate α) → Prop} {m now : Monitor α}
    {bars : List (Bar α)} {us : List (PatternUpdate α)} (start : P m [])
    (step : ∀ m us b taken d, b ∈ bars → P m us → m.accept b = some taken → taken.derive? = some d →
      P (taken.apply d).1 (us ++ (taken.apply d).2))
    (h : m.follow bars = .ok (now, us)) : P now us := by
  induction bars using List.reverseRecOn generalizing now us with
  | nil =>
    cases h
    exact start
  | append_singleton bars b ih =>
    have earlier : ∀ {now us}, m.follow bars = .ok (now, us) → P now us :=
      ih fun m us b taken d hb => step m us b taken d (List.mem_append_left _ hb)
    obtain ⟨mid, us', before, ⟨-, rfl, rfl⟩ | ⟨taken, d, accepted, derived, rfl, rfl⟩⟩ := follow_concat_cases h
    · exact earlier before
    · exact step mid us' b taken d (by simp) (earlier before) accepted derived

/-- The history only grows. -/
theorem history_follow {m now : Monitor α} {bars : List (Bar α)} {us : List (PatternUpdate α)}
    (h : m.follow bars = .ok (now, us)) : m.history <+: now.history := by
  refine follow_induction (P := fun now _ => m.history <+: now.history) List.prefix_rfl ?_ h
  intro now us b taken d _ before accepted _
  show m.history <+: taken.history
  rw [history_accept accepted]
  exact before.trans (List.prefix_append _ _)

end Follow
end TickerBoard.Monitor

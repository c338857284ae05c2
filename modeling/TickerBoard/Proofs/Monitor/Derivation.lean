import TickerBoard.Proofs.Monitor.Redetection

/-! What a monitor holds hangs on its rules and its history alone.

What is computed from a history, the divergences left aside, is its derivation
(`derivation?`). Deriving a monitor comes to that and fails nowhere else
(`derivation_apply`, `derive_of_derivation`), so a monitor takes nothing but its
bars from one update to the next: whether they were seeded at once or followed
one by one, and whatever lists were stored, what it holds in the end is the same
(`derivation_of_history`). -/
namespace TickerBoard

/-- What is computed from a history, and the time that it is of. -/
structure Derivation (α : Type) where
  /-- The candles of the charts, with their labels. -/
  series : List (String × List (Candle α))
  levels : List (PriceLevel α)
  averageRange : Option α
  lastUpdated : Instant
deriving Repr, DecidableEq

namespace Monitor
variable {α : Type}

/-- What a monitor holds besides the divergences. -/
def derivation (m : Monitor α) : Derivation α :=
  ⟨m.charts.map fun c => (c.label, c.series), m.levels, m.averageRange, m.lastUpdated⟩

theorem getLast?_history (m : Monitor α) : m.history.getLast? = some m.latest :=
  List.getLast?_concat

/-- The monitor takes a bar that comes in turn. -/
theorem accept_of_inTurn {m : Monitor α} {b : Bar α} (turn : InTurn (m.history ++ [b])) :
    m.accept b = some { m with earlier := m.history, latest := b } := by
  obtain ⟨-, traded, newer⟩ := inTurn_concat.mp turn
  exact accept_eq_some.mpr ⟨⟨traded, newer m.latest (by simp [history])⟩, rfl⟩

section Derive
variable [Angular α] {rules : AnalysisRules α} {m : Monitor α}

/-! ### The derivation of a history -/

/-- The candles that the charts show of a history, with their labels. -/
def allSeries? (rules : AnalysisRules α) (history : List (Bar α)) : Option (List (String × List (Candle α))) :=
  rules.charts.mapM fun settings =>
    (Chart.seriesOf? rules.chartRules settings history).map fun series => (settings.label, series)

/-- The derivation of a history that is not empty. -/
def derivation? (rules : AnalysisRules α) (history : List (Bar α)) : Option (Derivation α) := do
  let last ← history.getLast?
  let series ← allSeries? rules history
  let levels ← levels? rules last.time history
  let averageRange := series.getLast?.bind fun (_, series) =>
    PriceRange.averageTrueRange (series.map Candle.range) rules.rangePeriod
  pure ⟨series, levels, averageRange, last.time⟩

theorem isSome_mapM {β γ : Type} {f : β → Option γ} {l : List β} :
    (l.mapM f).isSome = true ↔ ∀ x ∈ l, (f x).isSome = true := by
  induction l with
  | nil => simp
  | cons x rest ih =>
    rw [List.mapM_cons, List.forall_mem_cons, ← ih]
    cases f x <;> cases rest.mapM f <;> simp

/-- There is one if the candles of every chart have their days and the levels have their start. -/
theorem derivation_isSome {history : List (Bar α)} {last : Bar α} (h : history.getLast? = some last) :
    (derivation? rules history).isSome = true ↔
      (∀ settings ∈ rules.charts, (Chart.seriesOf? rules.chartRules settings history).isSome = true) ∧
        (levels? rules last.time history).isSome = true := by
  have series : (allSeries? rules history).isSome = true ↔
      ∀ settings ∈ rules.charts, (Chart.seriesOf? rules.chartRules settings history).isSome = true := by
    simp only [allSeries?, isSome_mapM, Option.isSome_map]
  rw [← series, derivation?, h, Option.bind_eq_bind, Option.bind_some]
  cases allSeries? rules history with
  | none => simp
  | some series => cases levels? rules last.time history <;> simp

/-- With the derived part put in, a monitor holds the derivation of its history. -/
theorem derivation_apply {d : Derived α} (settings : m.charts.map (·.settings) = m.rules.charts)
    (derived : m.derive? = some d) : derivation? m.rules m.history = some (m.apply d).1.derivation := by
  obtain ⟨updated, leveled, ranged⟩ := derive_eq_some derived
  have series : allSeries? m.rules m.history = some (d.charts.map fun c => (c.label, c.series)) := by
    rw [allSeries?, ← settings]
    exact series_updateCharts updated
  have last : m.latest.time = m.lastUpdated := rfl
  rw [derivation?, getLast?_history, Option.bind_eq_bind, Option.bind_some, series, Option.bind_eq_bind,
    Option.bind_some, last, leveled, Option.bind_eq_bind, Option.bind_some]
  simp only [derivation, apply, lastUpdated, ranged, averageRange?, List.getLast?_map, Option.pure_def,
    Option.some.injEq, Derivation.mk.injEq, true_and, and_true]
  cases d.charts.getLast? <;> rfl

/-- Where there is a derivation of its history, a monitor can be derived. -/
theorem derive_of_derivation (settings : m.charts.map (·.settings) = m.rules.charts)
    (h : (derivation? m.rules m.history).isSome = true) : ∃ d, m.derive? = some d := by
  obtain ⟨series, levels⟩ := (derivation_isSome (getLast?_history m)).mp h
  obtain ⟨levels, leveled⟩ := Option.isSome_iff_exists.mp levels
  refine derive_of_reads (fun c hc => ?_) leveled
  have own : c.settings ∈ m.rules.charts := settings ▸ List.mem_map_of_mem hc
  obtain ⟨series, shown⟩ := Option.isSome_iff_exists.mp (series c.settings own)
  obtain ⟨found, reads⟩ := Chart.exists_reads shown m.symbol
  exact ⟨series, found, reads⟩

/-! ### Bars whose days the calendar has -/

/-- The calendar has the days that are looked up for a bar: that of the start of the candle of
each chart that it may be the first in, and the one that levels are found from. -/
structure Dated (rules : AnalysisRules α) (b : Bar α) : Prop where
  candles : ∀ settings ∈ rules.charts, (rules.clock.day?
    (Candle.ofBar (Candle.intervalStart (Candle.width settings.minutes) b.time) b).start).isSome = true
  window : (rules.clock.daysAgo? b.time rules.historyDays).isSome = true

theorem derivation_of_dated {history : List (Bar α)} (nonempty : history ≠ [])
    (dated : ∀ b ∈ history, Dated rules b) : (derivation? rules history).isSome = true := by
  have last := List.getLast?_eq_some_getLast nonempty
  refine (derivation_isSome last).mpr ⟨fun settings hs => Chart.seriesOf_isSome fun t ht => ?_, ?_⟩
  · obtain ⟨c, hc, rfl⟩ := List.mem_map.mp ht
    exact Candle.resample_induction (P := fun c => (rules.clock.day? c.start).isSome = true)
      (fun b hb => (dated b hb).candles settings hs) (fun _ _ _ own => own) c hc
  · obtain ⟨start, first⟩ := Option.isSome_iff_exists.mp (dated _ (List.getLast_mem nonempty)).window
    simp [levels?, first]

/-! ### Monitors that are up to date -/

/-- The monitor has the charts of its rules and holds the derivation of its history. -/
structure UpToDate (rules : AnalysisRules α) (m : Monitor α) : Prop where
  governed : m.rules = rules
  settings : m.charts.map (·.settings) = rules.charts
  held : derivation? rules m.history = some m.derivation

theorem upToDate_apply {d : Derived α} (governed : m.rules = rules)
    (settings : m.charts.map (·.settings) = rules.charts) (derived : m.derive? = some d) :
    (m.apply d).1.UpToDate rules := by
  obtain rfl := governed
  exact ⟨rfl, (settings_updateCharts (derive_eq_some derived).1).trans settings, derivation_apply settings derived⟩

theorem UpToDate.unique {m' : Monitor α} (h : m.UpToDate rules) (h' : m'.UpToDate rules)
    (same : m.history = m'.history) : m.derivation = m'.derivation := by
  have held := h.held
  rw [same, h'.held] at held
  exact (Option.some.inj held).symm

/-- A monitor is up to date once it is seeded. -/
theorem upToDate_seed {symbol : String} {bars : List (Bar α)} {stored : Table String (List (Divergence α))}
    {us : List (PatternUpdate α)} (h : seed rules symbol bars stored = .ok (m, us)) :
    m.UpToDate rules ∧ m.history = usable bars := by
  obtain ⟨earlier, latest, d, split, derived, applied⟩ := seed_eq_ok.mp h
  obtain rfl := congrArg Prod.fst applied
  exact ⟨upToDate_apply rfl (settings_startCharts _ _) derived, split.symm⟩

/-- A monitor can be seeded if its usable bars have a derivation. -/
theorem exists_seed {bars : List (Bar α)} (h : (derivation? rules (usable bars)).isSome = true) (symbol : String)
    (stored : Table String (List (Divergence α))) : ∃ m us, seed rules symbol bars stored = .ok (m, us) := by
  rcases List.eq_nil_or_concat (usable bars) with none | ⟨earlier, latest, split⟩
  · rw [none] at h
    cases h
  · rw [List.concat_eq_append] at split
    rw [split] at h
    obtain ⟨d, derived⟩ := derive_of_derivation
      (m := ⟨symbol, rules, earlier, latest, startCharts rules.charts stored, [], none⟩) (settings_startCharts _ _) h
    exact ⟨_, _, seed_eq_ok.mpr ⟨earlier, latest, d, split, derived, rfl⟩⟩

/-- Up to date, a monitor follows bars in turn to the end and stays so. -/
theorem UpToDate.follow {now : Monitor α} {bars : List (Bar α)} {us : List (PatternUpdate α)} (h : m.UpToDate rules)
    (turn : InTurn (m.history ++ bars)) (followed : m.follow bars = .ok (now, us)) :
    now.UpToDate rules ∧ now.history = m.history ++ bars := by
  induction bars using List.reverseRecOn generalizing now us with
  | nil =>
    cases followed
    exact ⟨h, (List.append_nil _).symm⟩
  | append_singleton bars b ih =>
    rw [← List.append_assoc] at turn ⊢
    obtain ⟨mid, us', before, last⟩ := follow_concat_cases followed
    obtain ⟨current, grown⟩ := ih (inTurn_concat.mp turn).1 before
    rw [← grown] at turn ⊢
    -- In turn behind all that was followed, the last bar cannot have been refused.
    rw [accept_of_inTurn turn] at last
    obtain ⟨none, -⟩ | ⟨taken, d, accepted, derived, rfl, -⟩ := last
    · cases none
    · obtain rfl := Option.some.inj accepted
      exact ⟨upToDate_apply current.governed current.settings derived, rfl⟩

/-- Bars whose days the calendar has can be followed. -/
theorem UpToDate.exists_follow {bars : List (Bar α)} (h : m.UpToDate rules) (turn : InTurn (m.history ++ bars))
    (dated : ∀ b ∈ m.history ++ bars, Dated rules b) : ∃ now us, m.follow bars = .ok (now, us) := by
  induction bars using List.reverseRecOn with
  | nil => exact ⟨m, [], rfl⟩
  | append_singleton bars b ih =>
    rw [← List.append_assoc] at turn dated
    obtain ⟨now, us, followed⟩ := ih (inTurn_concat.mp turn).1 fun a ha => dated a (List.mem_append_left _ ha)
    obtain ⟨current, grown⟩ := h.follow (inTurn_concat.mp turn).1 followed
    rw [← grown] at turn dated
    obtain ⟨d, derived⟩ := derive_of_derivation (m := { now with earlier := now.history, latest := b })
      (current.settings.trans (congrArg AnalysisRules.charts current.governed.symm))
      (by rw [current.governed]; exact derivation_of_dated (List.append_ne_nil_of_right_ne_nil _ (by simp)) dated)
    exact ⟨_, _, follow_concat_taken followed (accept_of_inTurn turn) derived⟩

/-- **What a monitor holds is a function of its history.** Split traded bars in the order of
their times anywhere behind the first, seed a monitor from what is before with any stored
lists and let it follow the rest: it ends with the history, the candles of every chart, the
levels, the average range and the time of one that is seeded from all of them at once, with
any other stored lists. Neither way fails if the calendar has the days of the bars. -/
theorem derivation_of_history (rules : AnalysisRules α) (symbol : String) {before after : List (Bar α)}
    (turn : InTurn (before ++ after)) (nonempty : before ≠ []) (stored stored' : Table String (List (Divergence α))) :
    (∀ m us now us', seed rules symbol before stored = .ok (m, us) → m.follow after = .ok (now, us') →
      ∃ whole us'', seed rules symbol (before ++ after) stored' = .ok (whole, us'') ∧
        now.history = whole.history ∧ now.charts.map (·.settings) = whole.charts.map (·.settings) ∧
        now.derivation = whole.derivation) ∧
    ((∀ b ∈ before ++ after, Dated rules b) →
      ∃ m us now us', seed rules symbol before stored = .ok (m, us) ∧ m.follow after = .ok (now, us')) := by
  have older := turn.head
  refine ⟨fun m us now us' seeded followed => ?_, fun dated => ?_⟩
  · -- Following has derived the last history once, so seeding it cannot fail either.
    obtain ⟨start, own⟩ := upToDate_seed seeded
    rw [usable_of_inTurn older] at own
    obtain ⟨current, grown⟩ := start.follow (by rwa [own]) followed
    rw [own] at grown
    have derivable : (derivation? rules (usable (before ++ after))).isSome = true := by
      rw [usable_of_inTurn turn, ← grown, current.held]
      rfl
    obtain ⟨whole, us'', anew⟩ := exists_seed derivable symbol stored'
    obtain ⟨current', all⟩ := upToDate_seed anew
    have same : now.history = whole.history := by rw [grown, all, usable_of_inTurn turn]
    exact ⟨whole, us'', anew, same, current.settings.trans current'.settings.symm, current.unique current' same⟩
  · have derivable : (derivation? rules (usable before)).isSome = true := by
      rw [usable_of_inTurn older]
      exact derivation_of_dated nonempty fun b hb => dated b (List.mem_append_left _ hb)
    obtain ⟨m, us, seeded⟩ := exists_seed derivable symbol stored
    obtain ⟨start, own⟩ := upToDate_seed seeded
    rw [usable_of_inTurn older] at own
    obtain ⟨now, us', followed⟩ := start.exists_follow (by rwa [own]) (by rwa [own])
    exact ⟨m, us, now, us', seeded, followed⟩

end Derive

/-! ### A bar and one more -/

theorem dated_flatBar : ∀ b ∈ [flatBar 0] ++ [flatBar 5], Dated sessionRules b := by
  intro b hb
  simp only [List.singleton_append, List.mem_cons, List.not_mem_nil, or_false] at hb
  rcases hb with rfl | rfl
  · exact ⟨by decide +kernel, by decide +kernel⟩
  · exact ⟨by decide +kernel, by decide +kernel⟩

/-- Seeded with a stored divergence and the first bar, or with no divergence and both. -/
theorem derivation_of_history_flat :
    InTurn ([flatBar 0] ++ [flatBar 5]) ∧ (∀ b ∈ [flatBar 0] ++ [flatBar 5], Dated sessionRules b) ∧
      ∃ m us now us' whole us'',
        seed sessionRules "XYZ" [flatBar 0] (Table.ofList [("5Min", [knownFinding])]) = .ok (m, us) ∧
        m.follow [flatBar 5] = .ok (now, us') ∧
        seed sessionRules "XYZ" ([flatBar 0] ++ [flatBar 5]) .empty = .ok (whole, us'') ∧
        now.derivation = whole.derivation := by
  have turn : InTurn ([flatBar 0] ++ [flatBar 5]) :=
    inTurn_concat.mpr ⟨⟨fun b hb => by rw [List.mem_singleton.mp hb]; rfl, List.pairwise_singleton _ _⟩, rfl,
      fun a ha => by rw [List.mem_singleton.mp ha]; decide⟩
  obtain ⟨same, possible⟩ := derivation_of_history sessionRules "XYZ" turn (List.cons_ne_nil _ _)
    (Table.ofList [("5Min", [knownFinding])]) .empty
  obtain ⟨m, us, now, us', seeded, followed⟩ := possible dated_flatBar
  obtain ⟨whole, us'', anew, -, -, equal⟩ := same m us now us' seeded followed
  exact ⟨turn, dated_flatBar, m, us, now, us', whole, us'', seeded, followed, anew, equal⟩

end Monitor
end TickerBoard

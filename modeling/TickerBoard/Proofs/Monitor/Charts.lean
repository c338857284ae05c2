import Mathlib.Data.List.Forall2
import Mathlib.Data.List.Nodup
import TickerBoard.Proofs.Chart.Findings
import TickerBoard.Proofs.Monitor.Follow

/-! The charts of a monitor, one by one.

A monitor updates its charts side by side and offers the lists of those with a
new finding (`updateCharts_spec`). If no two charts share a label, every chart
is looked at alone: `mem_updateCharts` says what became of it, and
`filter_apply` that the lists offered under its label are its own list or
none. Deriving a monitor is that with its levels and its range
(`derive_eq_some`), and has a result if the charts and the levels have one
(`derive_of_reads`). -/
namespace TickerBoard

/-- The update of a chart with a history finds something new. -/
def Chart.announces {α : Type} [Angular α] (rules : ChartRules α) (symbol : String) (history : List (Bar α))
    (c : Chart α) : Bool :=
  (c.update? rules symbol history).any (·.2.isSome)

namespace Monitor
variable {α : Type}

/-- No two charts share a label. -/
def Distinct (charts : List (Chart α)) : Prop := (charts.map Chart.label).Nodup

theorem distinct_of_settings {charts : List (Chart α)} {settings : List ChartSettings}
    (same : charts.map (·.settings) = settings) (apart : (settings.map (·.label)).Nodup) : Distinct charts := by
  rw [← same, List.map_map] at apart
  exact apart

theorem find?_of_distinct {charts : List (Chart α)} (distinct : Distinct charts) {c : Chart α}
    (h : c ∈ charts) : charts.find? (·.label == c.label) = some c := by
  induction charts with
  | nil => cases h
  | cons first rest ih =>
    obtain ⟨other, distinct⟩ := List.nodup_cons.mp distinct
    rcases List.mem_cons.mp h with rfl | h
    · simp
    · have : first.label ≠ c.label := fun same => other (List.mem_map.mpr ⟨c, h, same.symm⟩)
      rw [List.find?_cons_of_neg (by simpa using this)]
      exact ih distinct h

/-- Each of the charts on either side has its other. -/
theorem exists_of_forall₂ {R : Chart α → Chart α → Prop} {charts charts' : List (Chart α)}
    (h : List.Forall₂ R charts charts') :
    (∀ c ∈ charts, ∃ c' ∈ charts', R c c') ∧ ∀ c' ∈ charts', ∃ c ∈ charts, R c c' := by
  induction h with
  | nil => exact ⟨nofun, nofun⟩
  | @cons c c' rest rest' own _ ih =>
    refine ⟨List.forall_mem_cons.mpr ⟨⟨c', List.mem_cons_self .., own⟩, fun e he => ?_⟩,
      List.forall_mem_cons.mpr ⟨⟨c, List.mem_cons_self .., own⟩, fun e he => ?_⟩⟩
    · obtain ⟨e', he', other⟩ := ih.1 e he
      exact ⟨e', List.mem_cons_of_mem _ he', other⟩
    · obtain ⟨e', he', other⟩ := ih.2 e he
      exact ⟨e', List.mem_cons_of_mem _ he', other⟩

/-- The label of a chart that is picked is listed once, that of any other not at all. -/
theorem count_announced {charts : List (Chart α)} (distinct : Distinct charts) {c : Chart α} (hc : c ∈ charts)
    (announced : Chart α → Bool) :
    ((charts.filter announced).map Chart.label).count c.label = if announced c then 1 else 0 := by
  have once : ((charts.filter announced).map Chart.label).Nodup := distinct.sublist ((List.filter_sublist).map _)
  split
  · rename_i own
    exact List.count_eq_one_of_mem once (List.mem_map_of_mem (List.mem_filter.mpr ⟨hc, own⟩))
  · rename_i silent
    refine List.count_eq_zero_of_not_mem fun listed => ?_
    obtain ⟨c', hc', same⟩ := List.mem_map.mp listed
    obtain ⟨hc', own⟩ := List.mem_filter.mp hc'
    rw [List.inj_on_of_nodup_map distinct hc' hc same] at own
    exact silent own

section Update
variable [Angular α] {rules : ChartRules α} {symbol : String} {history : List (Bar α)} {charts charts' : List (Chart α)}
  {labels : List String}

theorem settings_update {c c' : Chart α} {new : Option (Divergence α)}
    (h : c.update? rules symbol history = some (c', new)) : c'.settings = c.settings := by
  obtain ⟨_, _, -, -, made, -⟩ := Chart.update_spec h
  rw [made]

/-- The charts are updated side by side, and the labels of those that announce are listed. -/
theorem updateCharts_spec (h : updateCharts? rules symbol history charts = some (charts', labels)) :
    List.Forall₂ (fun c c' => ∃ new, c.update? rules symbol history = some (c', new)) charts charts' ∧
      labels = (charts.filter (Chart.announces rules symbol history)).map Chart.label := by
  induction charts generalizing charts' labels with
  | nil =>
    obtain ⟨rfl, rfl⟩ := Prod.mk.inj (Option.some.inj h)
    exact ⟨.nil, rfl⟩
  | cons c rest ih =>
    simp only [updateCharts?, Option.bind_eq_bind, Option.bind_eq_some_iff, Option.pure_def,
      Option.some.injEq, Prod.mk.injEq] at h
    obtain ⟨⟨c', new⟩, updated, ⟨rest', labels'⟩, others, rfl, rfl⟩ := h
    obtain ⟨alike, rfl⟩ := ih others
    have same : c'.label = c.label := congrArg ChartSettings.label (settings_update updated)
    have own : Chart.announces rules symbol history c = new.isSome := by
      rw [Chart.announces, updated, Option.any_some]
    refine ⟨.cons ⟨new, updated⟩ alike, ?_⟩
    cases announced : new.isSome <;> simp [own, announced, same]

theorem settings_updateCharts (h : updateCharts? rules symbol history charts = some (charts', labels)) :
    charts'.map (·.settings) = charts.map (·.settings) := by
  rw [← List.forall₂_eq_eq_eq, List.forall₂_map_left_iff, List.forall₂_map_right_iff]
  exact (updateCharts_spec h).1.flip.imp fun _ _ ⟨_, update⟩ => settings_update update

theorem labels_updateCharts (h : updateCharts? rules symbol history charts = some (charts', labels)) :
    labels ⊆ charts.map Chart.label := by
  rw [(updateCharts_spec h).2]
  exact (List.filter_sublist.map _).subset

/-- The series of the charts are what their settings show of the history. -/
theorem series_updateCharts (h : updateCharts? rules symbol history charts = some (charts', labels)) :
    ((charts.map (·.settings)).mapM fun settings =>
        (Chart.seriesOf? rules settings history).map fun series => (settings.label, series)) =
      some (charts'.map fun c => (c.label, c.series)) := by
  have alike := (updateCharts_spec h).1
  clear h
  induction alike with
  | nil => rfl
  | @cons c c' _ _ updated _ ih =>
    obtain ⟨new, updated⟩ := updated
    obtain ⟨_, _, reads, -, -, -⟩ := Chart.update_spec updated
    have same : c'.label = c.settings.label := congrArg ChartSettings.label (settings_update updated)
    simp [List.mapM_cons, reads.shown, ih, same]

/-- Charts that each have an update are updated together. -/
theorem updateCharts_of_forall {Q : Chart α → Chart α → Prop} {anew : Chart α → Chart α}
    (h : ∀ c ∈ charts, ∃ c' new, (anew c).update? rules symbol history = some (c', new) ∧ Q c c') :
    ∃ charts' labels, updateCharts? rules symbol history (charts.map anew) = some (charts', labels) ∧
      List.Forall₂ Q charts charts' := by
  induction charts with
  | nil => exact ⟨[], [], rfl, .nil⟩
  | cons c rest ih =>
    obtain ⟨⟨c', new, updated, own⟩, others⟩ := List.forall_mem_cons.mp h
    obtain ⟨rest', labels, updated', alike⟩ := ih others
    exact ⟨c' :: rest', _, by simp [updateCharts?, updated, updated']; rfl, .cons own alike⟩

/-- Every chart is the update of one, whose label is listed if that found something new. -/
theorem mem_updateCharts (distinct : Distinct charts)
    (h : updateCharts? rules symbol history charts = some (charts', labels)) {c' : Chart α}
    (hc' : c' ∈ charts') :
    ∃ c ∈ charts, ∃ new, c.update? rules symbol history = some (c', new) ∧
      labels.filter (fun label => label = c'.label) = if new.isSome then [c'.label] else [] := by
  obtain ⟨alike, rfl⟩ := updateCharts_spec h
  obtain ⟨c, hc, new, update⟩ := (exists_of_forall₂ alike).2 c' hc'
  have same : c'.label = c.label := congrArg ChartSettings.label (settings_update update)
  have own : Chart.announces rules symbol history c = new.isSome := by
    rw [Chart.announces, update, Option.any_some]
  refine ⟨c, hc, new, update, ?_⟩
  rw [List.filter_eq, same, count_announced distinct hc, own]
  split <;> rfl

end Update

/-! ### Deriving -/

section Derive
variable [Angular α] {m : Monitor α}

theorem derive_eq_some {d : Derived α} (h : m.derive? = some d) :
    updateCharts? m.rules.chartRules m.symbol m.history m.charts = some (d.charts, d.detected) ∧
      levels? m.rules m.lastUpdated m.history = some d.levels ∧
      d.averageRange = averageRange? m.rules.rangePeriod d.charts := by
  simp only [derive?, Option.bind_eq_bind, Option.bind_eq_some_iff, Option.pure_def, Option.some.injEq] at h
  obtain ⟨⟨charts, detected⟩, updated, levels, leveled, rfl⟩ := h
  exact ⟨updated, leveled, rfl⟩

theorem derive?_eq {charts : List (Chart α)} {detected : List String} {levels : List (PriceLevel α)}
    (updated : updateCharts? m.rules.chartRules m.symbol m.history m.charts = some (charts, detected))
    (leveled : levels? m.rules m.lastUpdated m.history = some levels) :
    m.derive? = some ⟨charts, detected, levels, averageRange? m.rules.rangePeriod charts⟩ := by
  rw [derive?, updated, Option.bind_eq_bind, Option.bind_some, leveled]
  rfl

theorem derive_of_reads {levels : List (PriceLevel α)}
    (reads : ∀ c ∈ m.charts, ∃ series found,
      Chart.Reads m.rules.chartRules m.symbol m.history c.settings series found)
    (leveled : levels? m.rules m.lastUpdated m.history = some levels) : ∃ d, m.derive? = some d := by
  obtain ⟨charts, labels, updated, -⟩ : ∃ charts' labels,
      updateCharts? m.rules.chartRules m.symbol m.history (m.charts.map id) = some (charts', labels) ∧
        List.Forall₂ (fun _ _ => True) m.charts charts' := by
    refine updateCharts_of_forall fun c hc => ?_
    obtain ⟨series, found, own⟩ := reads c hc
    obtain ⟨kept, retained⟩ := Chart.retained_some own.shown c.findings
    exact ⟨_, _, Chart.update_of_reads own retained, trivial⟩
  rw [List.map_id] at updated
  exact ⟨_, derive?_eq updated leveled⟩

end Derive

/-! ### The lists that are offered -/

/-- Every list offered is that of a chart. -/
theorem mem_apply {m : Monitor α} {d : Derived α} {u : PatternUpdate α} (h : u ∈ (m.apply d).2) :
    ∃ c ∈ d.charts, u = ⟨m.symbol, c.label, c.divergences⟩ := by
  simp only [apply, List.mem_filterMap, Option.map_eq_some_iff] at h
  obtain ⟨label, -, c, found, rfl⟩ := h
  exact ⟨c, List.mem_of_find?_eq_some found, rfl⟩

/-- Under the label of a chart, its own list is offered if the label was listed once. -/
theorem filter_apply (m : Monitor α) {d : Derived α} (distinct : Distinct d.charts) {c : Chart α}
    (hc : c ∈ d.charts) {new : Bool}
    (listed : d.detected.filter (fun label => label = c.label) = if new then [c.label] else []) :
    (m.apply d).2.filter (fun u => u.label = c.label) =
      if new then [⟨m.symbol, c.label, c.divergences⟩] else [] := by
  have found := find?_of_distinct distinct hc
  have own : (m.apply d).2.filter (fun u => u.label = c.label) =
      (d.detected.filter fun label => label = c.label).filterMap fun label =>
        (d.charts.find? (·.label == label)).map fun c => (⟨m.symbol, c.label, c.divergences⟩ : PatternUpdate α) := by
    rw [apply, List.filter_filterMap, List.filterMap_filter]
    refine List.filterMap_congr fun label _ => ?_
    cases h : d.charts.find? (·.label == label) with
    | none => simp
    | some c' =>
      have : c'.label = label := by simpa using List.find?_some h
      simp [Option.filter_some, this]
  rw [own, listed]
  cases new with
  | false => rfl
  | true => simp [found]

end Monitor
end TickerBoard

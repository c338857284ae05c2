import TickerBoard.Snapshot
import TickerBoard.Proofs.Monitor.Derivation

/-! The figures of a snapshot.

What a snapshot shows besides the divergences is computed from the rules and a
history alone (`figures?`). A monitor shows a history if its figures are those of
it (`Monitor.Shows`): with the derived part put in, it shows its own
(`Monitor.shows_apply`), and a bar that it takes changes nothing of what it
shows (`Monitor.Shows.accept`). -/
namespace TickerBoard

/-- What a snapshot shows besides the divergences. -/
structure Figures (α : Type) where
  /-- The candles of the charts, by label. -/
  series : Table String (List (Candle α))
  levels : List (PriceLevel α)
  averageRange : Option α
deriving Repr, DecidableEq

def Snapshot.figures {α : Type} (s : Snapshot α) : Figures α :=
  ⟨s.charts.mapValues (·.prices), s.levels, s.averageRange⟩

/-- The figures of a history that is not empty. -/
def figures? {α : Type} [Angular α] (rules : AnalysisRules α) (history : List (Bar α)) : Option (Figures α) := do
  let last ← history.getLast?
  let series ← rules.charts.mapM fun settings =>
    (Chart.seriesOf? rules.chartRules settings history).map fun series => (settings.label, series)
  let levels ← Monitor.levels? rules last.time history
  let averageRange := series.getLast?.bind fun (_, series) =>
    PriceRange.averageTrueRange (series.map Candle.range) rules.rangePeriod
  pure ⟨Table.ofList series, levels, averageRange⟩

namespace Monitor

/-- The monitor has the charts of its rules, and its figures are those of a history. -/
structure Shows (m : Monitor Float) (history : List (Bar Float)) : Prop where
  settings : m.charts.map (·.settings) = m.rules.charts
  figures : figures? m.rules history = some m.snapshot.figures

theorem figures_snapshot (m : Monitor Float) :
    m.snapshot.figures = ⟨Table.ofList (m.charts.map fun c => (c.label, c.series)), m.levels, m.averageRange⟩ := by
  simp [Snapshot.figures, snapshot, Table.mapValues_ofList, Function.comp_def, Chart.view]

/-- The figures are the derivation, with the candles looked up by label. -/
theorem figures_eq {α : Type} [Angular α] (rules : AnalysisRules α) (history : List (Bar α)) :
    figures? rules history = (derivation? rules history).map fun d =>
      ⟨Table.ofList d.series, d.levels, d.averageRange⟩ := by
  simp only [figures?, derivation?, allSeries?, Option.map_bind, Option.bind_eq_bind, Option.pure_def,
    Function.comp_def, Option.map_some]

/-- With the derived part put in, a monitor shows its history. -/
theorem shows_apply {m : Monitor Float} {d : Derived Float} (settings : m.charts.map (·.settings) = m.rules.charts)
    (derived : m.derive? = some d) : (m.apply d).1.Shows m.history := by
  refine ⟨(settings_updateCharts (derive_eq_some derived).1).trans settings, ?_⟩
  rw [figures_eq, apply_rules, derivation_apply settings derived, figures_snapshot]
  rfl

/-- A bar that is taken changes nothing of what is shown. -/
theorem Shows.accept {m taken : Monitor Float} {b : Bar Float} {history : List (Bar Float)} (h : m.Shows history)
    (accepted : m.accept b = some taken) : taken.Shows history := by
  obtain ⟨-, rfl⟩ := accept_eq_some.mp accepted
  exact ⟨h.settings, h.figures⟩

/-- The monitor is what some bars and stored lists have been seeded to. -/
def Seeded (m : Monitor Float) : Prop :=
  ∃ rules symbol bars stored us, seed rules symbol bars stored = .ok (m, us)

/-- A monitor that is seeded has its bars in turn and shows them. -/
theorem Seeded.shows {m : Monitor Float} (h : m.Seeded) : InTurn m.history ∧ m.Shows m.history := by
  obtain ⟨rules, symbol, bars, stored, us, seeded⟩ := h
  obtain ⟨earlier, latest, d, usable, derived, applied⟩ := seed_eq_ok.mp seeded
  obtain rfl := congrArg Prod.fst applied
  refine ⟨?_, shows_apply (settings_startCharts rules.charts stored) derived⟩
  have turn := inTurn_usable bars
  rwa [usable] at turn

end Monitor
end TickerBoard

import TickerBoard.Chart.Basic
import TickerBoard.Chart.Levels
import TickerBoard.Refusal

/-! Monitors: what the board knows about one symbol.

A monitor holds the symbol's history of bars and everything derived from it:
the charts, the price levels and the average true range. A bar is taken if
something was traded in it and it is newer than all before it; the monitor as
it is then is what the derived part is computed from, at any later time, and
what is computed is put into the monitor as it is by that time. -/
namespace TickerBoard

/-- How every symbol is analysed. -/
structure AnalysisRules (α : Type) where
  charts : List ChartSettings
  chartRules : ChartRules α
  /-- The width of the candles that price levels are found in. -/
  levelMinutes : Nat
  levels : LevelRules α
  historyDays : Nat
  rangePeriod : Nat
deriving Repr, DecidableEq

def AnalysisRules.clock {α : Type} (rules : AnalysisRules α) : SessionClock := rules.chartRules.clock

/-- The divergences of one chart, as they are to be stored. -/
structure PatternUpdate (α : Type) where
  symbol : String
  label : String
  /-- The divergences, oldest first. -/
  divergences : List (Divergence α)
deriving Repr, DecidableEq

structure Monitor (α : Type) where
  symbol : String
  rules : AnalysisRules α
  /-- The bars before the latest, oldest first. -/
  earlier : List (Bar α)
  latest : Bar α
  charts : List (Chart α)
  levels : List (PriceLevel α)
  averageRange : Option α
deriving Repr, DecidableEq

/-- What is computed from the history of a monitor. -/
structure Derived (α : Type) where
  charts : List (Chart α)
  /-- The labels of the charts with a new finding. -/
  detected : List String
  levels : List (PriceLevel α)
  averageRange : Option α
deriving Repr, DecidableEq

namespace Monitor
variable {α : Type}

/-- All bars, oldest first. -/
def history (m : Monitor α) : List (Bar α) := m.earlier ++ [m.latest]

def lastUpdated (m : Monitor α) : Instant := m.latest.time

/-! ### Computing the derived part -/

section Derive
variable [Angular α]

/-- The charts after an update with the history, and the labels of those with a new finding. -/
def updateCharts? (rules : ChartRules α) (symbol : String) (history : List (Bar α)) :
    List (Chart α) → Option (List (Chart α) × List String)
  | [] => some ([], [])
  | c :: rest => do
    let (c, found) ← c.update? rules symbol history
    let (rest, labels) ← updateCharts? rules symbol history rest
    pure (c :: rest, if found.isSome then c.label :: labels else labels)

/-- The part of a history that is not before an instant. -/
def since (t : Instant) (history : List (Bar α)) : List (Bar α) :=
  history.dropWhile fun b => b.time.ms < t.ms

/-- The price levels of the last days of a history. -/
def levels? (rules : AnalysisRules α) (last : Instant) (history : List (Bar α)) :
    Option (List (PriceLevel α)) := do
  let start ← rules.clock.daysAgo? last rules.historyDays
  pure (Levels.ofSeries rules.levels (Candle.resample (since start history) rules.levelMinutes))

/-- The average true range of the last chart. -/
def averageRange? (period : Nat) (charts : List (Chart α)) : Option α :=
  match charts.getLast? with
  | some c => PriceRange.averageTrueRange (c.series.map Candle.range) period
  | none => none

/-- The derived part, from the monitor as it was when it took its latest bar. There is
none where dates leave the calendar. -/
def derive? (m : Monitor α) : Option (Derived α) := do
  let (charts, detected) ← updateCharts? m.rules.chartRules m.symbol m.history m.charts
  let levels ← levels? m.rules m.lastUpdated m.history
  pure ⟨charts, detected, levels, averageRange? m.rules.rangePeriod charts⟩

end Derive

/-- Puts the derived part in and answers the lists that are to be stored. -/
def apply (m : Monitor α) (d : Derived α) : Monitor α × List (PatternUpdate α) :=
  let m := { m with charts := d.charts, levels := d.levels, averageRange := d.averageRange }
  let updates := d.detected.filterMap fun label =>
    (m.charts.find? (·.label == label)).map fun c => ⟨m.symbol, c.label, c.divergences⟩
  (m, updates)

/-! ### Bars -/

/-- The monitor with one more bar, if it takes the bar. -/
def accept (m : Monitor α) (b : Bar α) : Option (Monitor α) :=
  if b.isTraded && m.latest.time.ms < b.time.ms then
    some { m with earlier := m.history, latest := b }
  else none

/-- Takes a bar and derives at once; nothing if the bar is not taken. -/
def observe [Angular α] (m : Monitor α) (b : Bar α) :
    Except Failure (Option (Monitor α × List (PatternUpdate α))) :=
  match m.accept b with
  | none => .ok none
  | some m => (Failure.inCalendar m.derive?).map fun d => some (m.apply d)

/-! ### Seeding -/

/-- Of neighbours of one time, the first. -/
def firstOfEach : List (Bar α) → List (Bar α)
  | [] => []
  | b :: rest => b :: firstOfEach (rest.dropWhile fun c => c.time == b.time)
termination_by bars => bars.length
decreasing_by
  have := (List.dropWhile_sublist (l := rest) fun c => c.time == b.time).length_le
  simp only [List.length_cons]
  omega

/-- The traded bars by their times; of several at one time, the one listed first. -/
def usable (bars : List (Bar α)) : List (Bar α) :=
  firstOfEach ((bars.filter Bar.isTraded).mergeSort fun a b => a.time.ms ≤ b.time.ms)

/-- The charts as configured, with the stored lists of their labels; of charts with
one label the first gets the list. -/
def startCharts : List ChartSettings → Table String (List (Divergence α)) → List (Chart α)
  | [], _ => []
  | s :: rest, stored => Chart.start s (stored.findD s.label []) :: startCharts rest (stored.erase s.label)

/-- A monitor from bars and the stored lists of the day, which must have a traded bar. -/
def seed [Angular α] (rules : AnalysisRules α) (symbol : String) (bars : List (Bar α))
    (stored : Table String (List (Divergence α))) :
    Except Failure (Monitor α × List (PatternUpdate α)) :=
  match (usable bars).reverse with
  | [] => .error (.refused (.noHistory symbol))
  | latest :: earlier =>
    let m : Monitor α := ⟨symbol, rules, earlier.reverse, latest, startCharts rules.charts stored, [], none⟩
    (Failure.inCalendar m.derive?).map m.apply

end Monitor
end TickerBoard

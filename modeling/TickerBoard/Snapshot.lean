import TickerBoard.Monitor

/-! Snapshots: what viewers are shown of a symbol.

Charts are shown by label; of charts with one label the last is shown. -/
namespace TickerBoard

structure Snapshot (α : Type) where
  symbol : String
  lastUpdated : Instant
  averageRange : Option α
  levels : List (PriceLevel α)
  charts : Table String (Chart.View α)
deriving Repr, DecidableEq

def Monitor.snapshot {α : Type} (m : Monitor α) : Snapshot α where
  symbol := m.symbol
  lastUpdated := m.lastUpdated
  averageRange := m.averageRange
  levels := m.levels
  charts := Table.ofList (m.charts.map fun c => (c.label, c.view m.rules.chartRules.detection))

def Snapshot.json (s : Snapshot Float) : Json :=
  .record [("symbol", .text s.symbol), ("last_updated", .int s.lastUpdated.seconds),
    ("atr", .optional .float s.averageRange), ("price_levels", .listOf PriceLevel.json s.levels),
    ("charts", .record (s.charts.entries.map fun (label, view) => (label, view.json)))]

end TickerBoard

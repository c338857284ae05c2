import TickerBoard.Settings.Basic

/-! Settings as JSON.

Every section and nearly every field may be missing: a field then has a value of
its own, and a section its standard one. Only label and width of a chart must be
there. The token is read but not
written. -/
namespace TickerBoard
open Json (Written)
open Json.Written

namespace ChartSettings

def json (c : ChartSettings) : Json :=
  .record [("label", .text c.label), ("minutes", .int c.minutes),
    ("ema_period", .int c.averagePeriod), ("keep_days", .int c.keepDays),
    ("session_scoped", .flag c.sessionScoped)]

def ofWritten? (w : Written) : Option ChartSettings := do
  let [label, minutes, averagePeriod, keepDays, sessionScoped] ←
    w.fields? ["label", "minutes", "ema_period", "keep_days", "session_scoped"] | none
  pure {
    label := ← needed text? label
    minutes := ← needed (nat? 32) minutes
    averagePeriod := ← orElse (nat? 64) default averagePeriod
    keepDays := ← orElse (nat? 32) default keepDays
    sessionScoped := ← orElse flag? Settings.Missing.flag sessionScoped }

end ChartSettings

namespace DetectionSettings

def json (d : DetectionSettings) : Json :=
  .record [("rsi_period", .int d.rsiPeriod), ("order", .int d.rules.order),
    ("overbought", .float d.rules.overbought), ("oversold", .float d.rules.oversold)]

def ofWritten? (w : Written) : Option DetectionSettings := do
  let [rsiPeriod, order, overbought, oversold] ←
    w.fields? ["rsi_period", "order", "overbought", "oversold"] | none
  pure {
    rsiPeriod := ← orElse (nat? 64) Settings.Missing.rsiPeriod rsiPeriod
    rules := {
      order := ← orElse (nat? 64) Settings.Missing.detectionOrder order
      overbought := ← orElse float? Settings.Missing.overbought overbought
      oversold := ← orElse float? Settings.Missing.oversold oversold } }

end DetectionSettings

namespace LevelSettings

def json (l : LevelSettings) : Json :=
  .record [("minutes", .int l.minutes), ("order", .int l.rules.order),
    ("tolerance_ratio", .float l.rules.tolerance)]

def ofWritten? (w : Written) : Option LevelSettings := do
  let [minutes, order, tolerance] ← w.fields? ["minutes", "order", "tolerance_ratio"] | none
  pure {
    minutes := ← orElse (nat? 32) Settings.Missing.levelMinutes minutes
    rules := {
      order := ← orElse (nat? 64) Settings.Missing.levelOrder order
      tolerance := ← orElse float? Settings.Missing.tolerance tolerance } }

end LevelSettings

namespace LiveSettings

def json (l : LiveSettings) : Json :=
  .record [("api_base_url", .text l.baseUrl), ("extended_hours", .flag l.extendedHours)]

def ofWritten? (w : Written) : Option LiveSettings := do
  let [baseUrl, extendedHours, token] ←
    w.fields? ["api_base_url", "extended_hours", "api_token"] | none
  pure {
    baseUrl := ← orElse text? Settings.Missing.baseUrl baseUrl
    extendedHours := ← orElse flag? Settings.Missing.flag extendedHours
    token := ← orElse text? default token }

end LiveSettings

namespace SimulationSettings

def json (s : SimulationSettings) : Json :=
  .record [("history_file", .optional .text s.historyFile),
    ("replay_start", .optional (fun m => .text m.text) s.replayStart),
    ("replay_interval_ms", .int s.replayInterval), ("account_balance", .float s.balance)]

def ofWritten? (w : Written) : Option SimulationSettings := do
  let [historyFile, replayStart, replayInterval, balance] ←
    w.fields? ["history_file", "replay_start", "replay_interval_ms", "account_balance"] | none
  pure {
    historyFile := ← orElse (optional? text?) default historyFile
    replayStart := ← orElse (optional? moment?) default replayStart
    replayInterval := ← orElse (nat? 64) Settings.Missing.replayInterval replayInterval
    balance := ← orElse float? Settings.Missing.balance balance }

end SimulationSettings

namespace Settings

def json (s : Settings) : Json :=
  .record [("adapter", .text s.adapter.name), ("symbols", .listOf .text s.symbols),
    ("charts", .listOf ChartSettings.json s.charts), ("divergence", s.detection.json),
    ("price_levels", s.levels.json), ("history_days", .int s.historyDays),
    ("atr_period", .int s.rangePeriod), ("exchange_utc_offset_minutes", .int s.clockOffset),
    ("viewer_queue_capacity", .int s.viewerCapacity),
    ("persistence_queue_capacity", .int s.queueCapacity), ("data_dir", .text s.dataFolder),
    ("bind_addr", .text s.bindAddress), ("live", s.live.json), ("simulation", s.simulation.json)]

def adapterOfWritten? : Written → Option AdapterMode :=
  choice? [("Live", .live), ("Simulated", .simulated)]

def ofWritten? (w : Written) : Option Settings := do
  let [adapter, symbols, charts, detection, levels, historyDays, rangePeriod, clockOffset,
      viewerCapacity, queueCapacity, dataFolder, bindAddress, live, simulation] ←
    w.fields? ["adapter", "symbols", "charts", "divergence", "price_levels", "history_days",
      "atr_period", "exchange_utc_offset_minutes", "viewer_queue_capacity",
      "persistence_queue_capacity", "data_dir", "bind_addr", "live", "simulation"] | none
  pure {
    adapter := ← orElse adapterOfWritten? default adapter
    symbols := ← orElse (listOf? text?) default symbols
    charts := ← orElse (listOf? ChartSettings.ofWritten?) Missing.charts charts
    detection := ← orElse DetectionSettings.ofWritten? default detection
    levels := ← orElse LevelSettings.ofWritten? default levels
    historyDays := ← orElse (nat? 32) Missing.historyDays historyDays
    rangePeriod := ← orElse (nat? 64) Missing.rangePeriod rangePeriod
    clockOffset := ← orElse (signed? 32) Missing.clockOffset clockOffset
    viewerCapacity := ← orElse (nat? 64) Missing.viewerCapacity viewerCapacity
    queueCapacity := ← orElse (nat? 64) Missing.queueCapacity queueCapacity
    dataFolder := ← orElse text? Missing.dataFolder dataFolder
    bindAddress := ← orElse text? Missing.bindAddress bindAddress
    live := ← orElse LiveSettings.ofWritten? default live
    simulation := ← orElse SimulationSettings.ofWritten? default simulation }

end Settings
end TickerBoard

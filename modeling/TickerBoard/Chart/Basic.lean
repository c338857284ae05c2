import TickerBoard.Chart.Detection

/-! Charts: one time frame of a symbol, its candles and its divergences.

The divergences are kept with the newest first. A new one takes the place of
the newest ones of its kind that it overlaps or follows by at most one
interval; one that is already the newest changes nothing. A chart that belongs
to a session drops its divergences when the day of its last candle is past the
day of the newest of them. -/
namespace TickerBoard

/-- A time frame as configured. -/
structure ChartSettings where
  label : String
  minutes : Nat
  averagePeriod : Nat
  keepDays : Nat
  /-- The divergences are dropped when a new trading day begins. -/
  sessionScoped : Bool
deriving Repr, DecidableEq

structure Chart (α : Type) where
  settings : ChartSettings
  series : List (Candle α)
  /-- The divergences, newest first. -/
  findings : List (Divergence α)
deriving Repr, DecidableEq

/-- What the analysis of every chart has in common. -/
structure ChartRules (α : Type) where
  rsiPeriod : Nat
  detection : DetectionRules α
  clock : SessionClock
deriving Repr, DecidableEq

namespace Chart
variable {α : Type}

/-- A chart before its first update, with stored divergences by their ends. -/
def start (settings : ChartSettings) (stored : List (Divergence α)) : Chart α :=
  ⟨settings, [], (stored.mergeSort fun a b => a.finish.ms ≤ b.finish.ms).reverse⟩

def label (c : Chart α) : String := c.settings.label

/-- The divergences, oldest first. -/
def divergences (c : Chart α) : List (Divergence α) := c.findings.reverse

/-- The width of the chart's intervals in milliseconds. -/
def interval (c : Chart α) : Int := Candle.width c.settings.minutes * 1000

/-! ### Recording divergences -/

/-- The divergence `d` takes the place of `former`. -/
def supersedes (interval : Int) (d former : Divergence α) : Bool :=
  former.kind == d.kind &&
    (d.start.ms ≤ former.finish.ms || d.finish.ms - former.finish.ms ≤ interval)

/-- Findings, newest first, with `d` in the place of those it supersedes. -/
def recorded (interval : Int) (findings : List (Divergence α)) (d : Divergence α) :
    List (Divergence α) :=
  d :: findings.dropWhile (supersedes interval d)

def isNewest [BEq α] (findings : List (Divergence α)) (d : Divergence α) : Bool :=
  findings.head?.any (·.same d)

/-- Takes a divergence and answers whether the findings changed. -/
def record [BEq α] (c : Chart α) (d : Divergence α) : Chart α × Bool :=
  if isNewest c.findings d then (c, false)
  else ({ c with findings := recorded c.interval c.findings d }, true)

/-- Drops all findings if the newest is of an earlier day. -/
def clearBefore (day : Day) (findings : List (Divergence α)) : List (Divergence α) :=
  if findings.head?.any (·.day.number < day.number) then [] else findings

/-! ### Updates -/

section Update
variable [Angular α] (rules : ChartRules α)

/-- The candles of a history that the chart shows. -/
def seriesOf? (settings : ChartSettings) (history : List (Bar α)) : Option (List (Candle α)) :=
  let candles := Candle.resample history settings.minutes
  let candles := Candle.addIndicators candles rules.rsiPeriod settings.averagePeriod
  Candle.trimDays? rules.clock settings.keepDays candles

/-- The findings that remain when a series is shown. -/
def retained? (settings : ChartSettings) (series : List (Candle α)) (findings : List (Divergence α)) :
    Option (List (Divergence α)) :=
  match settings.sessionScoped, series.getLast? with
  | true, some last => (rules.clock.day? last.start).map fun day => clearBefore day findings
  | _, _ => some findings

/-- Shows a history, and answers the divergence at its end if it is a new finding.
There is no answer where a candle has no local day. -/
def update? (symbol : String) (history : List (Bar α)) (c : Chart α) :
    Option (Chart α × Option (Divergence α)) := do
  let series ← seriesOf? rules c.settings history
  let findings ← retained? rules c.settings series c.findings
  let c : Chart α := { c with series, findings }
  match ← Detection.detect? symbol rules.detection rules.clock series with
  | none => pure (c, none)
  | some d =>
    match c.record d with
    | (c, true) => pure (c, some d)
    | (c, false) => pure (c, none)

end Update

/-! ### Views -/

/-- What viewers are shown of a chart. -/
structure View (α : Type) where
  /-- The width of the intervals in seconds. -/
  timeframe : Nat
  prices : List (Candle α)
  oversold : α
  overbought : α
  divergences : List (Divergence α)
deriving Repr, DecidableEq

def view (rules : DetectionRules α) (c : Chart α) : View α :=
  ⟨Candle.width c.settings.minutes, c.series, rules.oversold, rules.overbought, c.divergences⟩

def View.json (v : View Float) : Json :=
  .record [("timeframe", .int v.timeframe), ("prices", .listOf Candle.json v.prices),
    ("rsi_bracket", .list [.float v.oversold, .float v.overbought]),
    ("divergences", .listOf Divergence.json v.divergences)]

end Chart
end TickerBoard

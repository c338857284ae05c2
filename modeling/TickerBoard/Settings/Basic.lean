import TickerBoard.Monitor
import TickerBoard.Calendar.Moment
import TickerBoard.Text.Upper

/-! The settings of a board, and what they are without a file. -/
namespace TickerBoard

/-- The brokerage that the board is connected to. -/
inductive AdapterMode
  | live
  | simulated
deriving Repr, DecidableEq

instance : Inhabited AdapterMode := ⟨.simulated⟩

namespace AdapterMode

def name : AdapterMode → String
  | .live => "Live"
  | .simulated => "Simulated"

/-- The mode that a text asks for, in any case and with blanks around it. -/
def ofText (s : String) : Except Fault AdapterMode :=
  let word := Text.lowerAscii (Text.trim s)
  if word = "live" then .ok .live
  else if word = "simulated" ∨ word = "sim" then .ok .simulated
  else .error (.plain ("unknown adapter mode '" ++ word ++ "'"))

end AdapterMode

structure DetectionSettings where
  rsiPeriod : Nat
  rules : DetectionRules Float
deriving Repr, DecidableEq

structure LevelSettings where
  minutes : Nat
  rules : LevelRules Float
deriving Repr, DecidableEq

structure LiveSettings where
  baseUrl : String
  /-- History includes the hours before and after the session. -/
  extendedHours : Bool
  /-- The secret that requests are signed with; it is never written. -/
  token : String
deriving Repr, DecidableEq

structure SimulationSettings where
  /-- A file of bars by symbol. -/
  historyFile : Option String
  /-- The bars before it are history, the others are replayed. -/
  replayStart : Option Moment
  /-- The pace of the replay in milliseconds. -/
  replayInterval : Nat
  balance : Float
deriving Repr, DecidableEq

structure Settings where
  adapter : AdapterMode
  /-- The symbols that are subscribed when the board starts. -/
  symbols : List String
  charts : List ChartSettings
  detection : DetectionSettings
  levels : LevelSettings
  historyDays : Nat
  rangePeriod : Nat
  /-- The offset of the exchange's clock from universal time, in minutes. -/
  clockOffset : Int
  viewerCapacity : Nat
  queueCapacity : Nat
  dataFolder : String
  bindAddress : String
  live : LiveSettings
  simulation : SimulationSettings
deriving Repr, DecidableEq

namespace Settings

/-! ### What a single field has that is missing

Fields that are not listed have the default of their type. -/

namespace Missing

def flag : Bool := true

def charts : List ChartSettings := [⟨"5Min", 5, 20, 2, true⟩, ⟨"30Min", 30, 100, 5, true⟩]

def historyDays : Nat := 7

def viewerCapacity : Nat := 4

def queueCapacity : Nat := 256

def dataFolder : String := "data"

def clockOffset : Int := -300

def bindAddress : String := "0.0.0.0:3001"

def rsiPeriod : Nat := 14

def detectionOrder : Nat := 3

def overbought : Float := 70.0

def oversold : Float := 30.0

def levelMinutes : Nat := 60

def levelOrder : Nat := 5

def tolerance : Float := 0.04

def rangePeriod : Nat := 14

def baseUrl : String := "https://api.schwabapi.com"

def replayInterval : Nat := 500

def balance : Float := 2000.0

end Missing

/-! ### What a whole section has that is missing -/

def standardDetection : DetectionSettings :=
  ⟨Missing.rsiPeriod, ⟨Missing.detectionOrder, Missing.overbought, Missing.oversold⟩⟩

def standardLevels : LevelSettings := ⟨Missing.levelMinutes, ⟨Missing.levelOrder, Missing.tolerance⟩⟩

def standardLive : LiveSettings := ⟨Missing.baseUrl, true, ""⟩

def standardSimulation : SimulationSettings := ⟨none, none, Missing.replayInterval, Missing.balance⟩

instance : Inhabited DetectionSettings := ⟨standardDetection⟩

instance : Inhabited LevelSettings := ⟨standardLevels⟩

instance : Inhabited LiveSettings := ⟨standardLive⟩

instance : Inhabited SimulationSettings := ⟨standardSimulation⟩

def standard : Settings where
  adapter := .simulated
  symbols := []
  charts := Missing.charts
  detection := standardDetection
  levels := standardLevels
  historyDays := Missing.historyDays
  rangePeriod := Missing.rangePeriod
  clockOffset := Missing.clockOffset
  viewerCapacity := Missing.viewerCapacity
  queueCapacity := Missing.queueCapacity
  dataFolder := Missing.dataFolder
  bindAddress := Missing.bindAddress
  live := standardLive
  simulation := standardSimulation

def clock (s : Settings) : SessionClock := .ofMinutes s.clockOffset

/-- The part of the settings that the analysis of symbols follows. -/
def analysis (s : Settings) : AnalysisRules Float where
  charts := s.charts
  chartRules := ⟨s.detection.rsiPeriod, s.detection.rules, s.clock⟩
  levelMinutes := s.levels.minutes
  levels := s.levels.rules
  historyDays := s.historyDays
  rangePeriod := s.rangePeriod

end Settings
end TickerBoard

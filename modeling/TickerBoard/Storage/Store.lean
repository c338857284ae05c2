import TickerBoard.Market.Divergence

/-! What a store keeps, and what can go wrong with it.

A store keeps the subscribed instruments, the bars of each symbol by their
times, and the pattern lists of each symbol and trading day by chart label. A
write may fail and may leave traces even then, so it always answers the store
as it is afterwards. -/
namespace TickerBoard

inductive StoreFault
  | createStore (path : String)
  | createFolder (path : String)
  | read (path : String)
  | parse (path : String)
  | write (path : String)
  | rename (path : String)
  /-- The store does not take writes of the symbol. -/
  | rejected (symbol : String)
  /-- A time that the write needs is not in the calendar. -/
  | outsideCalendar
deriving Repr, DecidableEq

def StoreFault.message : StoreFault → String
  | createStore path => "failed to create store directory " ++ path
  | createFolder path => "failed to create " ++ path
  | read path => "failed to read " ++ path
  | parse path => "failed to parse " ++ path
  | write path => "failed to write tmp file " ++ path
  | rename path => "failed to rename tmp file to " ++ path
  | rejected symbol => "writes of " ++ symbol ++ " are rejected"
  | outsideCalendar => "time outside the calendar"

/-- Symbols in ascending order. -/
abbrev Instruments := Table String Unit

/-- Bars by their times. -/
abbrev BarSeries := Table Instant (Bar Float)

class Store (σ : Type) where
  instruments : σ → Except StoreFault (List String)
  saveInstrument : σ → String → σ × Except StoreFault Unit
  deleteInstrument : σ → String → σ × Except StoreFault Unit
  /-- The bars of a symbol that are not before an instant. -/
  loadBars : σ → String → Instant → Except StoreFault (List (Bar Float))
  /-- Adds bars to those of a symbol; a bar replaces one of its time. -/
  saveBars : σ → String → List (Bar Float) → σ × Except StoreFault Unit
  /-- The record of a symbol and a day, empty if none was stored. -/
  loadRecord : σ → String → Day → Except StoreFault DayRecord
  saveRecord : σ → String → Day → DayRecord → σ × Except StoreFault Unit

/-- The newest bar of a symbol that is not before an instant. -/
def Store.latestBar {σ : Type} [Store σ] (s : σ) (symbol : String) (since : Instant) :
    Except StoreFault (Option (Bar Float)) :=
  (Store.loadBars s symbol since).map List.getLast?

namespace BarSeries

/-- The series with more bars, of which later ones count. -/
def merge (series : BarSeries) (bars : List (Bar Float)) : BarSeries :=
  bars.foldl (fun s b => s.insert b.time b) series

/-- The bars that are not before an instant. -/
def since (series : BarSeries) (t : Instant) : List (Bar Float) :=
  series.values.filter fun b => t.ms ≤ b.time.ms

end BarSeries
end TickerBoard

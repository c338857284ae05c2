import TickerBoard.Storage.Store

/-! The store in memory, whose writes never fail. -/
namespace TickerBoard

structure MemoryStore where
  instruments : Instruments
  bars : Table String BarSeries
  records : Table String (Table Day DayRecord)
deriving Repr, DecidableEq

namespace MemoryStore

def empty : MemoryStore := ⟨.empty, .empty, .empty⟩

def series (s : MemoryStore) (symbol : String) : BarSeries := s.bars.findD symbol .empty

def record (s : MemoryStore) (symbol : String) (day : Day) : DayRecord :=
  (s.records.findD symbol .empty).findD day .empty

def saveBars (s : MemoryStore) (symbol : String) (bars : List (Bar Float)) : MemoryStore :=
  { s with bars := s.bars.insert symbol ((s.series symbol).merge bars) }

def saveRecord (s : MemoryStore) (symbol : String) (day : Day) (r : DayRecord) : MemoryStore :=
  { s with records := s.records.insert symbol ((s.records.findD symbol .empty).insert day r) }

instance : Store MemoryStore where
  instruments s := .ok s.instruments.keys
  saveInstrument s symbol := ({ s with instruments := s.instruments.insert symbol () }, .ok ())
  deleteInstrument s symbol := ({ s with instruments := s.instruments.erase symbol }, .ok ())
  loadBars s symbol since := .ok ((s.series symbol).since since)
  saveBars s symbol bars := (s.saveBars symbol bars, .ok ())
  loadRecord s symbol day := .ok (s.record symbol day)
  saveRecord s symbol day r := (s.saveRecord symbol day r, .ok ())

end MemoryStore
end TickerBoard

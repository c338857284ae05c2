import TickerBoard.Storage.Store

/-! A store in which writes of some symbols fail, and which keeps a log of the writes it was asked for. -/
namespace TickerBoard

/-- A write as it was asked for. -/
inductive WriteAttempt
  | bars (symbol : String) (count : Nat)
  | record (symbol : String) (day : Day) (labels : List String)
deriving Repr, DecidableEq

structure FaultyStore (σ : Type) where
  inner : σ
  /-- The symbols whose bars cannot be written. -/
  failingBars : List String
  /-- The symbols whose records cannot be written. -/
  failingRecords : List String
  /-- The writes asked for, oldest first. -/
  attempts : List WriteAttempt

namespace FaultyStore
variable {σ : Type}

def tried (s : FaultyStore σ) (a : WriteAttempt) : FaultyStore σ :=
  { s with attempts := s.attempts ++ [a] }

/-- Carries out a write unless it fails. -/
def attempt (s : FaultyStore σ) (failing : List String) (symbol : String)
    (write : σ → σ × Except StoreFault Unit) : FaultyStore σ × Except StoreFault Unit :=
  if failing.contains symbol then (s, .error (.rejected symbol))
  else
    let (inner, result) := write s.inner
    ({ s with inner }, result)

instance [Store σ] : Store (FaultyStore σ) where
  instruments s := Store.instruments s.inner
  saveInstrument s symbol := s.attempt [] symbol (Store.saveInstrument · symbol)
  deleteInstrument s symbol := s.attempt [] symbol (Store.deleteInstrument · symbol)
  loadBars s := Store.loadBars s.inner
  saveBars s symbol bars :=
    (s.tried (.bars symbol bars.length)).attempt s.failingBars symbol (Store.saveBars · symbol bars)
  loadRecord s := Store.loadRecord s.inner
  saveRecord s symbol day r :=
    (s.tried (.record symbol day r.keys)).attempt s.failingRecords symbol
      (Store.saveRecord · symbol day r)

end FaultyStore
end TickerBoard

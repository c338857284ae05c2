import TickerBoard.Brokerage.Simulated
import TickerBoard.Service

/-! A service on the simulated brokerage: the batches that wait there are read. -/
namespace TickerBoard.Service
variable {σ : Type}

/-- Reads what waits; once the reading has ended, nobody takes batches any more. -/
def pump (s : Service σ SimulatedBrokerage) : Service σ SimulatedBrokerage :=
  let (brokerage, events) := s.brokerage.takeEvents
  let s := events.foldl read { s with brokerage }
  if s.reader.isSome then { s with brokerage := s.brokerage.dropReceiver } else s

/-- Pushes a batch and reads it. -/
def push (s : Service σ SimulatedBrokerage) (e : StreamEvent) :
    Service σ SimulatedBrokerage × Except Fault Unit :=
  let (brokerage, result) := s.brokerage.push e
  ({ s with brokerage }.pump, result)

end TickerBoard.Service

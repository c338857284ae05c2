import TickerBoard.Capacity
import TickerBoard.Monitor
import TickerBoard.Storage.Store

/-! Writing behind: what is to be stored waits in a queue.

The queue is bounded, and what does not fit is dropped. Whatever waits when the
writer wakes up is one batch. In it only the newest list of a symbol and a
chart label is written, in the place where the first of them stood, and the bars
of a symbol are written together, before all lists. A list goes into the record
of the day of its newest divergence, in the slot of its label; an empty list
has no day and is passed over. A write that fails does not stop the others. -/
namespace TickerBoard

/-- Something to be stored. -/
inductive WriteJob
  | archive (bar : Bar Float)
  | patterns (update : PatternUpdate Float)
deriving Repr, DecidableEq

/-- The jobs that wait, oldest first, and how many may. -/
structure WriteQueue where
  capacity : Nat
  jobs : List WriteJob
deriving Repr, DecidableEq

namespace WriteQueue

/-- An empty queue for at least one job, if it can be made. -/
def ofCapacity? (n : Nat) : Option WriteQueue := (Capacity.ofNat? n).map (⟨·, []⟩)

/-- Adds a job unless the queue is full. -/
def offer (q : WriteQueue) (job : WriteJob) : WriteQueue :=
  if q.jobs.length < q.capacity then { q with jobs := q.jobs ++ [job] } else q

def offerAll (q : WriteQueue) (jobs : List WriteJob) : WriteQueue := jobs.foldl offer q

/-- Takes all jobs out. -/
def drain (q : WriteQueue) : WriteQueue × List WriteJob := ({ q with jobs := [] }, q.jobs)

end WriteQueue

/-! ### Batches -/

/-- A batch without what newer jobs of it replace. -/
structure Batch where
  bars : Table String (List (Bar Float))
  patterns : List (PatternUpdate Float)
deriving Repr, DecidableEq

namespace Batch

def empty : Batch := ⟨.empty, []⟩

/-- Two lists of one slot. -/
def sameSlot (a b : PatternUpdate Float) : Bool := a.symbol == b.symbol && a.label == b.label

/-- Puts a list in the place of one of its slot, or behind all others. -/
def place (update : PatternUpdate Float) : List (PatternUpdate Float) → List (PatternUpdate Float)
  | [] => [update]
  | u :: rest => if sameSlot u update then update :: rest else u :: place update rest

def add (b : Batch) : WriteJob → Batch
  | .archive bar => { b with bars := b.bars.upsert bar.symbol fun bars => bars.getD [] ++ [bar] }
  | .patterns update => { b with patterns := place update b.patterns }

def ofJobs (jobs : List WriteJob) : Batch := jobs.foldl add empty

def size (b : Batch) : Nat := b.bars.size + b.patterns.length

end Batch

/-! ### Writing -/

/-- Some writes of a batch failed. -/
structure BatchFault where
  failed : Nat
  total : Nat
deriving Repr, DecidableEq

def BatchFault.message (f : BatchFault) : String :=
  toString f.failed ++ " of " ++ toString f.total ++ " writes failed"

namespace Writer
variable {σ : Type} [Store σ]

/-- Puts a list into its slot of the record of its day. -/
def writePatterns (s : σ) (update : PatternUpdate Float) : σ × Except StoreFault Unit :=
  match update.divergences.getLast? with
  | none => (s, .ok ())
  | some newest =>
    match Store.loadRecord s update.symbol newest.day with
    | .error e => (s, .error e)
    | .ok record =>
      Store.saveRecord s update.symbol newest.day (record.insert update.label update.divergences)

/-- Carries out writes one after the other and counts those that fail. -/
def writeEach {α : Type} (write : σ → α → σ × Except StoreFault Unit) (s : σ) :
    List α → σ × Nat
  | [] => (s, 0)
  | a :: rest =>
    let (s, result) := write s a
    let (s, failed) := writeEach write s rest
    (s, match result with
      | .ok () => failed
      | .error _ => failed + 1)

def writeBatch (s : σ) (jobs : List WriteJob) : σ × Except BatchFault Unit :=
  let batch := Batch.ofJobs jobs
  let (s, failedBars) := writeEach (fun s e => Store.saveBars s e.1 e.2) s batch.bars.entries
  let (s, failedLists) := writeEach writePatterns s batch.patterns
  let failed := failedBars + failedLists
  (s, if failed = 0 then .ok () else .error ⟨failed, batch.size⟩)

end Writer
end TickerBoard

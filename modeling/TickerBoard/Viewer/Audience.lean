import TickerBoard.Capacity
import TickerBoard.Table

/-! The audience: viewers and what waits for them.

Every viewer has a queue of its own, bounded alike. What is published goes to
the queue of every registered viewer that has room; for the others it is
dropped, so that a slow viewer holds nobody up. A viewer that was disconnected
is offered nothing more but keeps its queue until it is gone. -/
namespace TickerBoard

/-- What waits for a viewer, oldest first. -/
structure Mailbox (π : Type) where
  waiting : List π
  isRegistered : Bool
deriving Repr, DecidableEq

/-- How many viewers a publication reached, and how many had no room. -/
structure PublishReport where
  delivered : Nat
  dropped : Nat
deriving Repr, DecidableEq

structure Audience (π : Type) where
  /-- How many publications may wait for a viewer. -/
  capacity : Nat
  /-- The number of the newest viewer. -/
  lastId : Nat
  mailboxes : Table Nat (Mailbox π)
deriving Repr, DecidableEq

namespace Audience
variable {π : Type}

/-- An audience whose viewers have room for at least one publication. -/
def ofCapacity (n : Nat) : Audience π := ⟨Capacity.atLeastOne n, 0, .empty⟩

def hasRoom (a : Audience π) (m : Mailbox π) : Bool := m.waiting.length < a.capacity

/-- Adds a viewer and answers its number, if there can be a queue for it. -/
def join? (a : Audience π) : Option (Audience π × Nat) :=
  let id := a.lastId + 1
  if a.capacity ≤ Capacity.limit then
    some ({ a with lastId := id, mailboxes := a.mailboxes.insert id ⟨[], true⟩ }, id)
  else none

/-- Offers nothing more to a viewer. -/
def disconnect (a : Audience π) (id : Nat) : Audience π :=
  { a with mailboxes := a.mailboxes.modify id fun m => { m with isRegistered := false } }

/-- Takes a viewer out with everything that waits for it. -/
def leave (a : Audience π) (id : Nat) : Audience π := { a with mailboxes := a.mailboxes.erase id }

def registered (a : Audience π) : List (Mailbox π) := a.mailboxes.values.filter (·.isRegistered)

def viewerCount (a : Audience π) : Nat := a.registered.length

/-- A mailbox after a publication was offered to it. -/
def offered (a : Audience π) (p : π) (m : Mailbox π) : Mailbox π :=
  if m.isRegistered && a.hasRoom m then { m with waiting := m.waiting ++ [p] } else m

def publish (a : Audience π) (p : π) : Audience π × PublishReport :=
  let reached := a.registered.countP a.hasRoom
  ({ a with mailboxes := a.mailboxes.mapValues (a.offered p) }, ⟨reached, a.viewerCount - reached⟩)

/-- Takes the oldest publication out of a viewer's queue. -/
def receive (a : Audience π) (id : Nat) : Audience π × Option π :=
  let rest := a.mailboxes.modify id fun m => { m with waiting := m.waiting.tail }
  ({ a with mailboxes := rest }, (a.mailboxes.find? id).bind (·.waiting.head?))

/-- Takes everything out of a viewer's queue. -/
def drain (a : Audience π) (id : Nat) : Audience π × List π :=
  let rest := a.mailboxes.modify id fun m => { m with waiting := [] }
  ({ a with mailboxes := rest }, ((a.mailboxes.find? id).map (·.waiting)).getD [])

end Audience
end TickerBoard

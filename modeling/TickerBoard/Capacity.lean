import TickerBoard.Word

/-! Capacities: how much may wait in a queue.

A queue has room for at least one item, whatever is asked for. It counts its free
places in 61 bits, and one that would have more of them cannot be made. -/
namespace TickerBoard.Capacity

/-- The largest capacity. -/
def limit : Nat := Word.size 61 - 1

/-- The capacity of a queue that is asked to hold `n` items. -/
def atLeastOne (n : Nat) : Nat := max n 1

/-- The capacity of a queue for `n` items, if there can be one. -/
def ofNat? (n : Nat) : Option Nat := if n ≤ limit then some (atLeastOne n) else none

example : ofNat? 0 = some 1 ∧ ofNat? limit = some limit ∧ ofNat? (limit + 1) = none := by decide

end TickerBoard.Capacity

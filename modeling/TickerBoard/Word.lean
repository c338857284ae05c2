/-! Machine words: the numbers that fit into so many bits. -/
namespace TickerBoard.Word

/-- How many words of `bits` bits there are; as numbers, all words are smaller. -/
def size (bits : Nat) : Nat := Nat.pow 2 bits

/-- The smallest number of a word with a sign. -/
def least (bits : Nat) : Int := -(size (bits - 1) : Int)

/-- The largest number of a word with a sign. -/
def greatest (bits : Nat) : Int := (size (bits - 1) : Int) - 1

/-- The word with a sign that a number is held as: past either end it goes on from the other. -/
def wrap (bits : Nat) (n : Int) : Int := n.bmod (size bits)

example : size 8 = 256 ∧ least 8 = -128 ∧ greatest 8 = 127 ∧ wrap 8 130 = -126 := by decide

end TickerBoard.Word

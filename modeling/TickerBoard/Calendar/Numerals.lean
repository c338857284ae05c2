/-! Reading and writing the decimal numbers of dates and times.

A reader takes the digits it may from the front of the text and hands back the
rest; how many digits it may take is part of the format that uses it. -/
namespace TickerBoard.Calendar

def digit? (c : Char) : Option Nat := if c.isDigit then some (c.toNat - 48) else none

/-- The value of the digits at the front, at least one and at most `most`. -/
def takeNumber (most : Nat) (cs : List Char) : Option (Nat × List Char) :=
  let digits := (cs.take most).takeWhile Char.isDigit
  if digits.isEmpty then none
  else some (digits.foldl (fun n c => 10 * n + (c.toNat - 48)) 0, cs.drop digits.length)

/-- The value of all digits at the front, at least one. -/
def takeNumeral (cs : List Char) : Option (Nat × List Char) := takeNumber cs.length cs

/-- The rest of a text that starts with `c`. -/
def takeChar (c : Char) : List Char → Option (List Char)
  | [] => none
  | d :: rest => if d = c then some rest else none

/-- The digits of a number, zeros in front up to the width. -/
def padded (width n : Nat) : List Char :=
  let ds := Nat.toDigits 10 n
  List.replicate (width - ds.length) '0' ++ ds

example : padded 4 7 = "0007".toList := by decide
example : takeNumber 2 "123".toList = some (12, ['3']) := by decide

end TickerBoard.Calendar

import TickerBoard.Calendar.Day
import TickerBoard.Calendar.Numerals
import TickerBoard.Text.Blank

/-! The text of a day: year, month and day of the month, divided by hyphens.

Written, a year from 0 to 9999 has four digits and any other a sign in front
of at least four. Read, a signed year has any number of digits and an unsigned
one at most four, months and days may lack their leading zero, and blanks may
stand before each number. The lenient form also takes blanks before a hyphen
and after the day. -/
namespace TickerBoard.Day
open Calendar

def yearText (y : Int) : List Char :=
  if 0 ≤ y && y ≤ 9999 then padded 4 y.toNat
  else (if y < 0 then '-' else '+') :: padded 4 y.natAbs

def text (d : Day) : String :=
  let c := d.civil
  String.ofList (yearText c.year ++ '-' :: padded 2 c.month ++ '-' :: padded 2 c.day)

def takeYear (cs : List Char) : Option (Int × List Char) :=
  match cs with
  | '-' :: rest => (takeNumeral rest).map fun (n, rest) => (-(n : Int), rest)
  | '+' :: rest => (takeNumeral rest).map fun (n, rest) => ((n : Int), rest)
  | _ => (takeNumber 4 cs).map fun (n, rest) => ((n : Int), rest)

/-- A day at the front of the text, with what follows it; `gap` is skipped
before each hyphen. -/
def takeDate (gap : List Char → List Char) (cs : List Char) : Option (Day × List Char) := do
  let (year, cs) ← takeYear (Text.skipBlanks cs)
  let cs ← takeChar '-' (gap cs)
  let (month, cs) ← takeNumber 2 (Text.skipBlanks cs)
  let cs ← takeChar '-' (gap cs)
  let (day, cs) ← takeNumber 2 (Text.skipBlanks cs)
  let d ← ofDate? year month day
  pure (d, cs)

/-- The day of a text in the lenient form. -/
def ofText? (s : String) : Option Day :=
  match takeDate Text.skipBlanks s.toList with
  | some (d, rest) => if (Text.skipBlanks rest).isEmpty then some d else none
  | none => none

/-- The day of a text that has no blanks before its hyphens or after its day. -/
def ofStrictText? (s : String) : Option Day :=
  match takeDate id s.toList with
  | some (d, []) => some d
  | _ => none

example : text ⟨20255⟩ = "2025-06-16" := by decide +kernel
example : text (ofCivil ⟨-5, 3, 1⟩) = "-0005-03-01" := by decide +kernel
example : text (ofCivil ⟨12345, 6, 7⟩) = "+12345-06-07" := by decide +kernel
example : ofText? " 2025 - 6-1 " = some (ofCivil ⟨2025, 6, 1⟩) := by decide +kernel
example : ofText? "20250521" = none := by decide +kernel

end TickerBoard.Day

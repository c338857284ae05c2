import TickerBoard.Calendar.DayText
import TickerBoard.Calendar.Instant

/-! Moments as configured: a second and its nanoseconds, in the notation of
Internet date and time.

A leap second is written as second 60. It is kept as the second before it with
a fraction of more than a second, so that it comes after every fraction of
second 59 and before the next minute. Read, the date is that of a day text, a
letter T or a blank divides it from the time, fractions beyond nanoseconds are
left off, and the offset is Z, UTC or a signed count of hours and minutes.
Written, a moment is in universal time with as many groups of three decimals
as it needs. -/
namespace TickerBoard

structure Moment where
  second : Int
  nano : Nat
deriving Repr, DecidableEq

namespace Moment
open Calendar

def billion : Nat := 1000000000

/-- The instant comes before the moment. -/
def after (m : Moment) (t : Instant) : Bool :=
  t.seconds < m.second ||
    (t.seconds == m.second && (t.ms - t.seconds * 1000).toNat * 1000000 < m.nano)

/-! ### Reading -/

def takeFraction (cs : List Char) : Option (Nat × List Char) :=
  match cs with
  | '.' :: rest => do
    let digits := (rest.take 9).takeWhile Char.isDigit
    let (n, rest) ← takeNumber 9 rest
    pure (n * Nat.pow 10 (9 - digits.length), rest.dropWhile Char.isDigit)
  | _ => some (0, cs)

/-- Seconds of the day and nanoseconds of a time of day. -/
def takeTime (cs : List Char) : Option (Nat × Nat × List Char) := do
  let (hour, cs) ← takeNumber 2 (Text.skipBlanks cs)
  let cs ← takeChar ':' (Text.skipBlanks cs)
  let (minute, cs) ← takeNumber 2 (Text.skipBlanks cs)
  let cs ← takeChar ':' (Text.skipBlanks cs)
  let (second, cs) ← takeNumber 2 (Text.skipBlanks cs)
  let (fraction, cs) ← takeFraction cs
  if hour ≤ 23 && minute ≤ 59 && second ≤ 60 then
    let whole := hour * 3600 + minute * 60
    if second == 60 then pure (whole + 59, billion + fraction, cs)
    else pure (whole + second, fraction, cs)
  else none

/-- Seconds east of universal time. -/
def takeOffset (cs : List Char) : Option (Int × List Char) :=
  match cs with
  | c :: rest =>
    if c == 'Z' || c == 'z' then some (0, rest)
    else if (cs.take 3).map Char.toUpper == ['U', 'T', 'C'] then some (0, cs.drop 3)
    else if c == '+' || c == '-' || c == '\u2212' then do
      let hours ← (rest.take 2).mapM digit?
      let rest := (rest.drop 2).dropWhile fun c => c == ':' || Text.isBlank c
      let minutes ← (rest.take 2).mapM digit?
      match hours, minutes with
      | [h₁, h₂], [m₁, m₂] =>
        let seconds : Int := (h₁ * 10 + h₂) * 3600 + (m₁ * 10 + m₂) * 60
        if m₁ ≤ 5 && seconds < 86400 then
          pure (if c == '+' then seconds else -seconds, rest.drop 2)
        else none
      | _, _ => none
    else none
  | [] => none

def ofText? (s : String) : Option Moment := do
  let (d, cs) ← Day.takeDate Text.skipBlanks s.toList
  match cs with
  | c :: cs =>
    if c == 'T' || c == 't' || c == ' ' then
      let (second, nano, cs) ← takeTime cs
      let (offset, cs) ← takeOffset (Text.skipBlanks cs)
      let m : Moment := ⟨d.number * 86400 + second - offset, nano⟩
      if (Text.skipBlanks cs).isEmpty && (Instant.ofSeconds? m.second).isSome then pure m else none
    else none
  | [] => none

/-! ### Writing -/

def fractionText (nano : Nat) : List Char :=
  if nano == 0 then []
  else if nano % 1000000 == 0 then '.' :: padded 3 (nano / 1000000)
  else if nano % 1000 == 0 then '.' :: padded 6 (nano / 1000)
  else '.' :: padded 9 nano

def text (m : Moment) : String :=
  let day := m.second / 86400
  let s := (m.second - day * 86400).toNat
  let leap := m.nano / billion
  String.ofList <|
    (Day.text ⟨day⟩).toList ++ 'T' :: padded 2 (s / 3600) ++ ':' :: padded 2 (s % 3600 / 60) ++
      ':' :: padded 2 (s % 60 + leap) ++ fractionText (m.nano % billion) ++ ['Z']

example : (ofText? "2025-05-21T14:00:00+02:00").map text = some "2025-05-21T12:00:00Z" := by
  decide +kernel
example : (ofText? "2025-05-21T23:59:60Z").map text = some "2025-05-21T23:59:60Z" := by
  decide +kernel
example : (ofText? "2025-05-21 14:00:00.5 utc").map text = some "2025-05-21T14:00:00.500Z" := by
  decide +kernel
example : ofText? "2025-05-21T14:00:00" = none := by decide +kernel

end Moment
end TickerBoard

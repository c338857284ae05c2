/-! Days of the proleptic Gregorian calendar.

A day is its number, counted from 1 January 1970. The calendar ends at both
sides: arithmetic that leaves it has no result. The year of a day is found by
eras of 400 years, each of 146097 days, that begin on 1 March, so that the
leap day is the last of its year. -/
namespace TickerBoard

/-- A calendar day by its number; day 0 is 1 January 1970. -/
structure Day where
  number : Int
deriving Repr, DecidableEq

namespace Day

instance : Ord Day := ⟨fun a b => compare a.number b.number⟩

instance : Inhabited Day := ⟨⟨0⟩⟩

/-- 1 January -262143. -/
def first : Day := ⟨-96465292⟩

/-- 31 December 262142. -/
def last : Day := ⟨95026236⟩

def inCalendar (d : Day) : Bool := first.number ≤ d.number && d.number ≤ last.number

theorem inCalendar_iff {d : Day} : d.inCalendar = true ↔ first.number ≤ d.number ∧ d.number ≤ last.number := by
  rw [inCalendar, Bool.and_eq_true, decide_eq_true_eq, decide_eq_true_eq]

/-- The day `n` days later, if the calendar has it. -/
def plus? (d : Day) (n : Int) : Option Day :=
  let e : Day := ⟨d.number + n⟩
  if e.inCalendar then some e else none

/-- Days since Monday. -/
def weekday (d : Day) : Nat := ((d.number + 3) % 7).toNat

/-! ### Years, months and days of the month -/

structure Civil where
  year : Int
  month : Nat
  day : Nat
deriving Repr, DecidableEq

def isLeap (y : Int) : Bool := y % 4 == 0 && (y % 100 != 0 || y % 400 == 0)

def monthLength (y : Int) (m : Nat) : Nat :=
  if m == 2 then (if isLeap y then 29 else 28)
  else if m == 4 || m == 6 || m == 9 || m == 11 then 30 else 31

/-- The day of a date, from the days before its era, its year and its month. -/
def ofCivil (c : Civil) : Day :=
  let y := if c.month ≤ 2 then c.year - 1 else c.year
  let era := y / 400
  let yearOfEra := y - era * 400
  let monthFromMarch : Int := (c.month + 9) % 12
  let dayOfYear := (153 * monthFromMarch + 2) / 5 + c.day - 1
  let dayOfEra := yearOfEra * 365 + yearOfEra / 4 - yearOfEra / 100 + dayOfYear
  ⟨era * 146097 + dayOfEra - 719468⟩

def civil (d : Day) : Civil :=
  let z := d.number + 719468
  let era := z / 146097
  let dayOfEra := z - era * 146097
  let yearOfEra := (dayOfEra - dayOfEra / 1460 + dayOfEra / 36524 - dayOfEra / 146096) / 365
  let dayOfYear := dayOfEra - (365 * yearOfEra + yearOfEra / 4 - yearOfEra / 100)
  let monthFromMarch := (5 * dayOfYear + 2) / 153
  let month := (if monthFromMarch < 10 then monthFromMarch + 3 else monthFromMarch - 9).toNat
  let y := yearOfEra + era * 400
  ⟨if month ≤ 2 then y + 1 else y, month, (dayOfYear - (153 * monthFromMarch + 2) / 5 + 1).toNat⟩

/-- The day of a date, if there is one. -/
def ofDate? (year : Int) (month day : Nat) : Option Day :=
  if 1 ≤ month && month ≤ 12 && 1 ≤ day && day ≤ monthLength year month then
    let d := ofCivil ⟨year, month, day⟩
    if d.inCalendar then some d else none
  else none

example : ofDate? 2025 6 16 = some ⟨20255⟩ := by decide
example : civil ⟨20255⟩ = ⟨2025, 6, 16⟩ := by decide
example : ofDate? 2025 2 29 = none := by decide
example : ofCivil ⟨-262143, 1, 1⟩ = first ∧ ofCivil ⟨262142, 12, 31⟩ = last := by decide

end Day
end TickerBoard

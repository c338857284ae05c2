import TickerBoard.Calendar.Day

/-! Instants of universal time, to the millisecond.

The calendar bounds them as it bounds days. Files and messages carry whole
seconds: the second an instant lies in, also before the epoch. -/
namespace TickerBoard

/-- Milliseconds since the start of 1 January 1970. -/
structure Instant where
  ms : Int
deriving Repr, DecidableEq

namespace Instant

instance : Ord Instant := ⟨fun a b => compare a.ms b.ms⟩

instance : Inhabited Instant := ⟨⟨0⟩⟩

def msPerDay : Int := 86400000

def first : Instant := ⟨Day.first.number * msPerDay⟩

def last : Instant := ⟨(Day.last.number + 1) * msPerDay - 1⟩

def inCalendar (t : Instant) : Bool := first.ms ≤ t.ms && t.ms ≤ last.ms

theorem inCalendar_iff {t : Instant} : t.inCalendar = true ↔ first.ms ≤ t.ms ∧ t.ms ≤ last.ms := by
  rw [inCalendar, Bool.and_eq_true, decide_eq_true_eq, decide_eq_true_eq]

def ofMs? (ms : Int) : Option Instant :=
  let t : Instant := ⟨ms⟩
  if t.inCalendar then some t else none

def ofSeconds? (s : Int) : Option Instant := ofMs? (s * 1000)

/-- The whole second that the instant lies in. -/
def seconds (t : Instant) : Int := t.ms / 1000

/-- The instant `n` milliseconds later, if the calendar has it. -/
def plus? (t : Instant) (n : Int) : Option Instant := ofMs? (t.ms + n)

/-- Whole seconds from `a` to `b`, parts of a second left off toward zero. -/
def secondsBetween (a b : Instant) : Int := (b.ms - a.ms).tdiv 1000

example : seconds ⟨-1⟩ = -1 := by decide
example : secondsBetween ⟨0⟩ ⟨-1999⟩ = -1 := by decide
example : first.ms = -8334601228800000 ∧ last.ms = 8210266876799999 := by decide

end Instant
end TickerBoard

import TickerBoard.Calendar.Instant
import TickerBoard.Word

/-! The exchange's clock: which trading day an instant belongs to.

A clock is a fixed offset from universal time, of seconds that a word of 32 bits
holds. An offset of a day or more is no clock, and universal time stands in for
it; so many minutes that the word goes round may be a clock again. Local time has the bounds of the
calendar too, so near its ends an instant may have no local day. -/
namespace TickerBoard

/-- A local clock by its offset from universal time, in seconds to the east. -/
structure SessionClock where
  offset : Int
deriving Repr, DecidableEq

namespace SessionClock

def ofMinutes (m : Int) : SessionClock :=
  let seconds := Word.wrap 32 (m * 60)
  if seconds.natAbs < 86400 then ⟨seconds⟩ else ⟨0⟩

instance : Inhabited SessionClock := ⟨⟨0⟩⟩

/-- The local time of an instant, as the instant at which universal time shows it. -/
def wallTime (c : SessionClock) (t : Instant) : Instant := ⟨t.ms + c.offset * 1000⟩

/-- The local calendar day of an instant. -/
def day? (c : SessionClock) (t : Instant) : Option Day :=
  if (c.wallTime t).inCalendar then some ⟨(c.wallTime t).ms / Instant.msPerDay⟩ else none

/-- The instant of a day's local midnight. -/
def midnight (c : SessionClock) (d : Day) : Instant :=
  ⟨d.number * Instant.msPerDay - c.offset * 1000⟩

/-- Local midnight `n` days before the day of `now`. Where the calendar has the
day but not its midnight, the instant `n` days before `now` stands in. -/
def daysAgo? (c : SessionClock) (now : Instant) (n : Nat) : Option Instant := do
  let today ← c.day? now
  let day ← today.plus? (-n)
  if (c.midnight day).inCalendar then pure (c.midnight day)
  else now.plus? (-(n * Instant.msPerDay))

example : (ofMinutes (-300)).day? ⟨0⟩ = some ⟨-1⟩ := by decide
example : (ofMinutes 1440).offset = 0 ∧ (ofMinutes (-1439)).offset = -86340 ∧
    (ofMinutes 71582788).offset = -16 := by decide
example : (ofMinutes (-300)).daysAgo? ⟨86400000⟩ 1 = some ⟨-68400000⟩ := by decide

end SessionClock
end TickerBoard

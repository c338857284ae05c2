import TickerBoard.Calendar.SessionClock

/-! Trading days and their midnights.

Local midnight parts the instants by their days (`midnight_le_iff`), on whichever side of
universal time the clock is and before the epoch as after it. A window of days starts at
the midnight of the first of them, as long as that is in the calendar (`daysAgo?_eq`), and
then holds whole days. Of the days of the calendar only the first may start before it, and
that by clocks that are ahead (`reaches_iff`). -/
namespace TickerBoard.SessionClock
variable {clock : SessionClock} {now : Instant} {n : Nat}

/-! ### The day of an instant -/

/-- The local day of an instant, also beyond the ends of the calendar. -/
def dayOf (clock : SessionClock) (t : Instant) : Day := ⟨(clock.wallTime t).ms / Instant.msPerDay⟩

theorem dayOf_mono (clock : SessionClock) {t u : Instant} (h : t.ms ≤ u.ms) :
    (clock.dayOf t).number ≤ (clock.dayOf u).number :=
  Int.ediv_le_ediv (by decide) (Int.add_le_add_right h _)

theorem dayOf_eq {t : Instant} {d : Day} (h : clock.day? t = some d) : clock.dayOf t = d := by
  rw [day?] at h
  split at h
  · exact Option.some.inj h
  · cases h

theorem day?_of_isSome {t : Instant} (h : (clock.day? t).isSome = true) : clock.day? t = some (clock.dayOf t) := by
  obtain ⟨d, dated⟩ := Option.isSome_iff_exists.mp h
  rw [dated, dayOf_eq dated]

theorem inCalendar_of_day? {t : Instant} {d : Day} (h : clock.day? t = some d) : d.inCalendar = true := by
  rw [day?, Option.ite_none_right_eq_some, Instant.inCalendar_iff, Option.some.injEq] at h
  obtain ⟨⟨start, finish⟩, rfl⟩ := h
  have finish : _ ≤ (Day.last.number + 1) * Instant.msPerDay - 1 := finish
  rw [Day.inCalendar_iff]
  constructor
  · exact Int.le_ediv_of_mul_le (by decide) start
  · exact Int.lt_add_one_iff.mp (Int.ediv_lt_of_lt_mul (by decide) (by omega))

/-! ### Local midnight -/

/-- The offset is less than a day. -/
def Valid (clock : SessionClock) : Prop := clock.offset.natAbs < 86400

theorem valid_ofMinutes (m : Int) : (ofMinutes m).Valid := by
  simp only [Valid, ofMinutes]
  split
  · assumption
  · decide

/-- The clocks of less than a day are those that the minutes say. -/
theorem ofMinutes_of_lt {m : Int} (h : m.natAbs < 1440) : ofMinutes m = ⟨m * 60⟩ := by
  have size : Word.size 32 = 4294967296 := rfl
  have kept : Word.wrap 32 (m * 60) = m * 60 := Int.bmod_eq_of_le (by omega) (by omega)
  simp only [ofMinutes, kept]
  exact if_pos (by omega)

/-- The instants from a local midnight on are those of its day and of the days after it. -/
theorem midnight_le_iff (clock : SessionClock) (d : Day) (t : Instant) :
    (clock.midnight d).ms ≤ t.ms ↔ d.number ≤ (clock.dayOf t).number :=
  calc (clock.midnight d).ms ≤ t.ms
    _ ↔ d.number * Instant.msPerDay ≤ (clock.wallTime t).ms := ⟨Int.le_add_of_sub_right_le, Int.sub_right_le_of_le_add⟩
    _ ↔ d.number ≤ (clock.dayOf t).number := (Int.le_ediv_iff_mul_le (by decide)).symm

/-- The calendar has the midnight of each of its days, except of its first by a clock that is ahead, and
of no day before them. -/
theorem midnight_inCalendar_iff (valid : clock.Valid) {d : Day} (known : d.number ≤ Day.last.number) :
    (clock.midnight d).inCalendar = true ↔
      d.inCalendar = true ∧ (Day.first.number < d.number ∨ clock.offset ≤ 0) := by
  unfold Valid at valid
  rw [Instant.inCalendar_iff, Day.inCalendar_iff]
  simp only [midnight, Instant.first, Instant.last, Day.first, Day.last, Instant.msPerDay] at known ⊢
  omega

/-! ### Windows of days -/

/-- The local day `n` days before that of an instant, also beyond the ends of the calendar. -/
def dayBefore (clock : SessionClock) (now : Instant) (n : Nat) : Day := ⟨(clock.dayOf now).number - n⟩

/-- Going `n` days back from an instant stays inside the calendar, which has the day of the instant
and the midnight that is reached. -/
structure Reaches (clock : SessionClock) (now : Instant) (n : Nat) : Prop where
  today : (clock.day? now).isSome = true
  start : (clock.midnight (clock.dayBefore now n)).inCalendar = true

/-- It does so between any two days of the calendar, except to its first by a clock that is ahead. -/
theorem reaches_iff (valid : clock.Valid) : clock.Reaches now n ↔ (clock.day? now).isSome = true ∧
    (clock.dayBefore now n).inCalendar = true ∧
      (Day.first.number < (clock.dayBefore now n).number ∨ clock.offset ≤ 0) := by
  have known (today : (clock.day? now).isSome = true) : (clock.dayBefore now n).number ≤ Day.last.number :=
    calc (clock.dayOf now).number - n
      _ ≤ (clock.dayOf now).number := Int.sub_le_self _ (Int.natCast_nonneg n)
      _ ≤ Day.last.number := (Day.inCalendar_iff.mp (inCalendar_of_day? (day?_of_isSome today))).2
  constructor
  · rintro ⟨today, start⟩
    exact ⟨today, (midnight_inCalendar_iff valid (known today)).mp start⟩
  · rintro ⟨today, inside⟩
    exact ⟨today, (midnight_inCalendar_iff valid (known today)).mpr inside⟩

/-- By a clock an hour ahead the first day starts before the calendar, and a window of it starts with
the instant that it is reckoned from. -/
example : ¬ (ofMinutes 60).Reaches ⟨Instant.first.ms + 3600000⟩ 0 ∧
    (ofMinutes 60).daysAgo? ⟨Instant.first.ms + 3600000⟩ 0 = some ⟨Instant.first.ms + 3600000⟩ :=
  ⟨fun reaches => absurd reaches.start (by decide), by decide⟩

/-- Where the calendar is not left, a window starts at the midnight of its first day. -/
theorem daysAgo?_eq (valid : clock.Valid) (reaches : clock.Reaches now n) :
    clock.daysAgo? now n = some (clock.midnight (clock.dayBefore now n)) := by
  obtain ⟨-, inside, -⟩ := (reaches_iff valid).mp reaches
  have day : (clock.dayOf now).plus? (-n) = some (clock.dayBefore now n) := if_pos inside
  rw [daysAgo?, day?_of_isSome reaches.today, Option.bind_eq_bind, Option.bind_some, day]
  exact if_pos reaches.start

end TickerBoard.SessionClock

import Mathlib.Data.List.TakeWhile
import Mathlib.Tactic.IntervalCases
import TickerBoard.Calendar.DayText

/-! The text of a day, read back.

A day of an era lies in the year whose days it falls among (`yearOfEra_spec`):
the year that the formula gives never goes back from a day to the next, and at
the first and the last day of each year it is that year. So the date of a day
is a date of the calendar (`civil_valid`) and gives the day back
(`ofCivil_civil`), and as its numerals are read back too, so does its text
(`ofText?_text`). No two days have one text. -/
namespace TickerBoard

/-! ### Runs of digits -/

namespace Calendar

/-- What follows begins with no digit. -/
def StopsDigits (rest : List Char) : Prop := ∀ c ∈ rest.head?, c.isDigit = false

theorem takeWhile_digits {ds rest : List Char} (digits : ∀ c ∈ ds, c.isDigit = true) (stop : StopsDigits rest) :
    (ds ++ rest).takeWhile Char.isDigit = ds := by
  rw [List.takeWhile_append_of_pos digits]
  cases rest with
  | nil => exact List.append_nil ds
  | cons c rest => rw [List.takeWhile_cons_of_neg (by simp [stop c rfl]), List.append_nil]

theorem dropWhile_digits {ds rest : List Char} (digits : ∀ c ∈ ds, c.isDigit = true) (stop : StopsDigits rest) :
    (ds ++ rest).dropWhile Char.isDigit = rest := by
  rw [List.dropWhile_append_of_pos digits]
  cases rest with
  | nil => rfl
  | cons c rest => rw [List.dropWhile_cons_of_neg (by simp [stop c rfl])]

/-- Digits are read up to what stops them, or as many of them as may be taken. -/
theorem takeNumber_digits {most : Nat} {ds rest : List Char} (digits : ∀ c ∈ ds, c.isDigit = true) (some_digit : ds ≠ [])
    (room : ds.length = most ∨ ds.length ≤ most ∧ StopsDigits rest) :
    takeNumber most (ds ++ rest) = some (Nat.ofDigitChars 10 ds 0, rest) := by
  have taken : ((ds ++ rest).take most).takeWhile Char.isDigit = ds := by
    rcases room with rfl | ⟨fits, stop⟩
    · rw [List.take_left]
      exact List.takeWhile_eq_self_iff.mpr digits
    · rw [List.take_append, List.take_of_length_le fits]
      refine takeWhile_digits digits fun c hc => stop c ?_
      rw [List.head?_take] at hc
      split at hc
      · cases hc
      · exact hc
  simp [takeNumber, taken, some_digit, Nat.ofDigitChars_eq_foldl]

theorem isDigit_of_mem_padded {width n : Nat} {c : Char} (h : c ∈ padded width n) : c.isDigit = true := by
  rcases List.mem_append.mp h with zero | digit
  · rw [(List.mem_replicate.mp zero).2]
    rfl
  · exact Nat.isDigit_of_mem_toDigits (by decide) (by decide) digit

theorem padded_ne_nil (width n : Nat) : padded width n ≠ [] :=
  List.append_ne_nil_of_right_ne_nil _ Nat.toDigits_ne_nil

theorem ofDigitChars_padded (width n : Nat) : Nat.ofDigitChars 10 (padded width n) 0 = n := by
  rw [padded, Nat.ofDigitChars_append, Nat.ofDigitChars_replicate_zero, Nat.mul_zero]
  exact Nat.ofDigitChars_toDigits (by decide) (by decide)

theorem length_padded {width n : Nat} (positive : 0 < width) (h : n < 10 ^ width) : (padded width n).length = width := by
  have := (Nat.length_toDigits_le_iff (by decide) positive).mpr h
  simp only [padded, List.length_append, List.length_replicate]
  omega

theorem length_padded_le {width most n : Nat} (room : width ≤ most) (positive : 0 < most) (h : n < 10 ^ most) :
    (padded width n).length ≤ most := by
  have := (Nat.length_toDigits_le_iff (by decide) positive).mpr h
  simp only [padded, List.length_append, List.length_replicate]
  omega

end Calendar

namespace Day
open Calendar

/-! ### The years of an era -/

/-- The year of an era that its day of a number is reckoned to. -/
def yearOfEra (n : Int) : Int := (n - n / 1460 + n / 36524 - n / 146096) / 365

/-- The days of an era before one of its years. -/
def daysBefore (y : Int) : Int := 365 * y + y / 4 - y / 100 + y / 400

theorem yearOfEra_le_succ (n : Int) : yearOfEra n ≤ yearOfEra (n + 1) := by
  have leaps : n - n / 1460 ≤ n + 1 - (n + 1) / 1460 := by omega
  have centuries : n / 36524 - n / 146096 ≤ (n + 1) / 36524 - (n + 1) / 146096 := by omega
  refine Int.ediv_le_ediv (by decide) ?_
  rw [Int.add_sub_assoc, Int.add_sub_assoc]
  exact Int.add_le_add leaps centuries

theorem yearOfEra_mono {m n : Int} (h : m ≤ n) : yearOfEra m ≤ yearOfEra n := by
  obtain ⟨k, rfl⟩ := Int.le.dest h
  induction k with
  | zero => simp
  | succ k ih =>
    have next := yearOfEra_le_succ (m + k)
    rw [Int.add_assoc] at next
    exact Int.le_trans (ih (Int.le_add_of_nonneg_right (Int.natCast_nonneg k))) next

/-- The first and the last day of every year of the era are its own, and it has a leap day at its
end if the calendar year that it ends in has one. -/
theorem years_of_era : (List.range 400).all fun y =>
    yearOfEra (daysBefore y) = y ∧ yearOfEra (daysBefore (y + 1) - 1) = y ∧
      daysBefore (y + 1) - daysBefore y = if isLeap (y + 1) then 366 else 365 := by
  decide +kernel

/-- A day of an era falls among the days of its year. -/
theorem yearOfEra_spec {n : Int} (low : 0 ≤ n) (high : n < 146097) :
    (0 ≤ yearOfEra n ∧ yearOfEra n < 400) ∧ daysBefore (yearOfEra n) ≤ n ∧ n < daysBefore (yearOfEra n + 1) ∧
      daysBefore (yearOfEra n + 1) - daysBefore (yearOfEra n) = if isLeap (yearOfEra n + 1) then 366 else 365 := by
  have years : ∀ y : Int, 0 ≤ y → y < 400 → yearOfEra (daysBefore y) = y ∧ yearOfEra (daysBefore (y + 1) - 1) = y ∧
      daysBefore (y + 1) - daysBefore y = if isLeap (y + 1) then 366 else 365 := by
    intro y nonneg below
    obtain ⟨k, rfl⟩ := Int.eq_ofNat_of_zero_le nonneg
    exact of_decide_eq_true (List.all_eq_true.mp years_of_era k (List.mem_range.mpr (by omega)))
  have nonneg : 0 ≤ yearOfEra n := yearOfEra_mono (m := 0) low
  have below : yearOfEra n ≤ 399 := yearOfEra_mono (n := 146096) (by omega)
  refine ⟨⟨nonneg, by omega⟩, ?_, ?_, (years _ nonneg (by omega)).2.2⟩
  · -- before its first day there is the last day of the year before
    by_contra early
    rcases Int.lt_or_eq_of_le nonneg with later | first
    · have last := (years (yearOfEra n - 1) (by omega) (by omega)).2.1
      rw [Int.sub_add_cancel] at last
      have := yearOfEra_mono (m := n) (n := daysBefore (yearOfEra n) - 1) (by omega)
      omega
    · rw [← first] at early
      exact early low
  · by_contra late
    rcases Int.lt_or_eq_of_le below with earlier | last
    · have first := (years (yearOfEra n + 1) (by omega) (by omega)).1
      have := yearOfEra_mono (m := daysBefore (yearOfEra n + 1)) (n := n) (by omega)
      omega
    · rw [last] at late
      exact late high

/-! ### Dates -/

/-- The month from March on that a day of a year from March on lies in. -/
def monthOf (n : Int) : Int := (5 * n + 2) / 153

theorem monthOf_spec {n : Int} (nonneg : 0 ≤ n) (below : n < 366) :
    (0 ≤ monthOf n ∧ monthOf n ≤ 11) ∧ (153 * monthOf n + 2) / 5 ≤ n ∧ n ≤ (153 * monthOf n + 2) / 5 + 30 := by
  unfold monthOf
  omega

/-- A day is one of an era, of a year of it and of that year, from March on, and so is its date. -/
theorem civil_parts (d : Day) : ∃ era y n : Int, d.number + 719468 = era * 146097 + daysBefore y + n ∧
    (0 ≤ y ∧ y < 400) ∧ (0 ≤ n ∧ n < if isLeap (y + 1) then 366 else 365) ∧
    d.civil =
      ⟨if monthOf n < 10 then y + era * 400 else y + 1 + era * 400,
        (if monthOf n < 10 then monthOf n + 3 else monthOf n - 9).toNat,
        (n - (153 * monthOf n + 2) / 5 + 1).toNat⟩ := by
  obtain ⟨era, z, number, low, high⟩ : ∃ era z, d.number + 719468 = era * 146097 + z ∧ 0 ≤ z ∧ z < 146097 :=
    ⟨(d.number + 719468) / 146097, (d.number + 719468) % 146097, by omega, by omega, by omega⟩
  obtain ⟨years, first, last, length⟩ := yearOfEra_spec low high
  refine ⟨era, yearOfEra z, z - daysBefore (yearOfEra z), by omega, years, by omega, ?_⟩
  have thisEra : (d.number + 719468) / 146097 = era := by omega
  have dayOfEra : d.number + 719468 - era * 146097 = z := by omega
  have year : ∀ n : Int, (n - n / 1460 + n / 36524 - n / 146096) / 365 = yearOfEra n := fun _ => rfl
  have before : 365 * yearOfEra z + yearOfEra z / 4 - yearOfEra z / 100 = daysBefore (yearOfEra z) := by
    unfold daysBefore
    omega
  have inside : 0 ≤ z - daysBefore (yearOfEra z) ∧ z - daysBefore (yearOfEra z) < 366 := by
    split at length <;> omega
  have month : ∀ n : Int, (5 * n + 2) / 153 = monthOf n := fun _ => rfl
  simp only [civil, thisEra, dayOfEra, year, before, month, Civil.mk.injEq, and_true]
  have := (monthOf_spec inside.1 inside.2).1
  split <;> split <;> omega

/-- The leap years come again with every era. -/
theorem isLeap_add (y era : Int) : isLeap (y + era * 400) = isLeap y := by
  have four : (y + era * 400) % 4 = y % 4 := by omega
  have hundred : (y + era * 400) % 100 = y % 100 := by omega
  have whole : (y + era * 400) % 400 = y % 400 := by omega
  rw [isLeap, isLeap, four, hundred, whole]

/-- The date of a day is one of the calendar. -/
theorem civil_valid (d : Day) : (1 ≤ d.civil.month ∧ d.civil.month ≤ 12) ∧
    1 ≤ d.civil.day ∧ d.civil.day ≤ monthLength d.civil.year d.civil.month := by
  obtain ⟨era, y, n, -, -, ⟨nonneg, below⟩, parts⟩ := d.civil_parts
  have short : n < 366 := by split at below <;> omega
  have definition : monthOf n = (5 * n + 2) / 153 := rfl
  obtain ⟨⟨low, high⟩, from_first, -⟩ := monthOf_spec nonneg short
  rw [parts]
  generalize monthOf n = m at *
  obtain ⟨k, rfl⟩ := Int.eq_ofNat_of_zero_le low
  have small : k < 12 := by omega
  dsimp only
  refine ⟨by split <;> omega, by omega, ?_⟩
  cases leap : isLeap (y + 1) <;> simp only [leap, Bool.false_eq_true, if_false, if_true] at below <;>
    interval_cases k <;> simp [monthLength, isLeap_add, leap] <;> omega

/-- The date of a day gives the day back. -/
theorem ofCivil_civil (d : Day) : ofCivil d.civil = d := by
  obtain ⟨era, y, n, number, ⟨first, last⟩, ⟨nonneg, below⟩, parts⟩ := d.civil_parts
  have short : n < 366 := by split at below <;> omega
  obtain ⟨⟨low, high⟩, from_first, -⟩ := monthOf_spec nonneg short
  rw [parts, ofCivil]
  generalize monthOf n = m at *
  have year : (if (if m < 10 then m + 3 else m - 9).toNat ≤ 2 then
      (if m < 10 then y + era * 400 else y + 1 + era * 400) - 1
      else if m < 10 then y + era * 400 else y + 1 + era * 400) = y + era * 400 := by
    split <;> split <;> omega
  have month : (((if m < 10 then m + 3 else m - 9).toNat : Int) + 9) % 12 = m := by
    split <;> omega
  have thisEra : (y + era * 400) / 400 = era := by omega
  have yearOfEra : y + era * 400 - era * 400 = y := by omega
  simp only [year, month, thisEra, yearOfEra]
  unfold daysBefore at number
  exact congrArg Day.mk (by omega)

/-- A day of the calendar is that of its date. -/
theorem ofDate?_civil {d : Day} (inside : d.inCalendar = true) :
    ofDate? d.civil.year d.civil.month d.civil.day = some d := by
  obtain ⟨⟨first, last⟩, ⟨from_one, to_end⟩⟩ := d.civil_valid
  have same : ofCivil ⟨d.civil.year, d.civil.month, d.civil.day⟩ = d := d.ofCivil_civil
  simp [ofDate?, first, last, from_one, to_end, same, inside]

/-! ### Texts -/

theorem not_isBlank_of_isDigit {c : Char} (h : c.isDigit = true) : Text.isBlank c = false := by
  have : 48 ≤ c.toNat ∧ c.toNat ≤ 57 := by
    simpa [Char.isDigit, UInt32.le_iff_toNat_le] using h
  simp [Text.isBlank]
  omega

theorem skipBlanks_cons {c : Char} (h : Text.isBlank c = false) (rest : List Char) :
    Text.skipBlanks (c :: rest) = c :: rest :=
  List.dropWhile_cons_of_neg (by simp [h])

theorem skipBlanks_padded (width n : Nat) (rest : List Char) :
    Text.skipBlanks (padded width n ++ rest) = padded width n ++ rest := by
  cases digits : padded width n with
  | nil => exact absurd digits (padded_ne_nil width n)
  | cons c more =>
    exact skipBlanks_cons (not_isBlank_of_isDigit (isDigit_of_mem_padded (digits ▸ List.mem_cons_self ..))) _

theorem takeNumber_padded {width n : Nat} (positive : 0 < width) (h : n < 10 ^ width) (rest : List Char) :
    takeNumber width (padded width n ++ rest) = some (n, rest) := by
  rw [takeNumber_digits (fun _ => isDigit_of_mem_padded) (padded_ne_nil width n) (.inl (length_padded positive h)),
    ofDigitChars_padded]

/-- A year that begins with a digit has at most four of them. -/
theorem takeYear_padded (width n : Nat) (rest : List Char) :
    takeYear (padded width n ++ rest) = (takeNumber 4 (padded width n ++ rest)).map fun (n, rest) => ((n : Int), rest) := by
  cases digits : padded width n with
  | nil => exact absurd digits (padded_ne_nil width n)
  | cons c more =>
    have digit : c.isDigit = true := isDigit_of_mem_padded (digits ▸ List.mem_cons_self ..)
    rw [List.cons_append, takeYear]
    · intro rest same
      rw [(List.cons.inj same).1] at digit
      cases digit
    · intro rest same
      rw [(List.cons.inj same).1] at digit
      cases digit

/-- The year in front of a hyphen. -/
theorem takeYear_yearText (y : Int) (rest : List Char) :
    takeYear (Text.skipBlanks (yearText y ++ '-' :: rest)) = some (y, '-' :: rest) := by
  have all_digits : takeNumeral (padded 4 y.natAbs ++ '-' :: rest) = some (y.natAbs, '-' :: rest) := by
    have stop : StopsDigits ('-' :: rest) := fun c hc => by cases hc; rfl
    rw [takeNumeral, takeNumber_digits (fun _ => isDigit_of_mem_padded) (padded_ne_nil 4 _)
      (.inr ⟨by rw [List.length_append]; omega, stop⟩), ofDigitChars_padded]
  rw [yearText]
  split
  · rename_i plain
    have bounds : 0 ≤ y ∧ y ≤ 9999 := by simpa using plain
    rw [skipBlanks_padded, takeYear_padded, takeNumber_padded (by decide) (by omega)]
    exact congrArg some (Prod.ext (Int.toNat_of_nonneg bounds.1) rfl)
  · split
    · rw [List.cons_append, skipBlanks_cons rfl, takeYear, all_digits]
      exact congrArg some (Prod.ext (show -(y.natAbs : Int) = y by omega) rfl)
    · rw [List.cons_append, skipBlanks_cons rfl, takeYear, all_digits]
      exact congrArg some (Prod.ext (show (y.natAbs : Int) = y by omega) rfl)

theorem monthLength_le (y : Int) (m : Nat) : monthLength y m ≤ 31 := by
  unfold monthLength
  split
  · split <;> decide
  · split <;> decide

/-- **A day reads back from its text.** -/
theorem ofText?_text {d : Day} (inside : d.inCalendar = true) : ofText? d.text = some d := by
  obtain ⟨⟨-, last⟩, ⟨-, to_end⟩⟩ := d.civil_valid
  have short := monthLength_le d.civil.year d.civil.month
  have month := takeNumber_padded (by decide) (show d.civil.month < 10 ^ 2 by omega)
  have day := takeNumber_padded (by decide) (show d.civil.day < 10 ^ 2 by omega) []
  have read : takeDate Text.skipBlanks d.text.toList = some (d, []) := by
    rw [List.append_nil] at day
    have hyphen : ∀ rest, Text.skipBlanks ('-' :: rest) = '-' :: rest := skipBlanks_cons rfl
    have digits : Text.skipBlanks (padded 2 d.civil.day) = padded 2 d.civil.day := by
      simpa using skipBlanks_padded 2 d.civil.day []
    simp [takeDate, text, takeYear_yearText, hyphen, takeChar, skipBlanks_padded, month, digits, day,
      ofDate?_civil inside]
  rw [ofText?, read]
  rfl

theorem text_injective {d e : Day} (hd : d.inCalendar = true) (he : e.inCalendar = true) (h : d.text = e.text) : d = e :=
  Option.some.inj ((ofText?_text hd).symm.trans (h ▸ ofText?_text he))

/-! ### How long a text is -/

theorem hyphen_mem_text (d : Day) : '-' ∈ d.text.toList := by
  simp [text]

theorem natAbs_year_lt {d : Day} (inside : d.inCalendar = true) : d.civil.year.natAbs < 10 ^ 6 := by
  have earliest : first.number = -96465292 := rfl
  have latest : last.number = 95026236 := rfl
  have bounds := inCalendar_iff.mp inside
  obtain ⟨era, y, n, number, years, ⟨nonneg, below⟩, parts⟩ := d.civil_parts
  have within : n < 366 := by split at below <;> omega
  unfold daysBefore at number
  rw [parts]
  dsimp only
  split <;> omega

theorem length_text_le {d : Day} (inside : d.inCalendar = true) : d.text.toList.length ≤ 13 := by
  obtain ⟨⟨-, last⟩, ⟨-, to_end⟩⟩ := d.civil_valid
  have short := monthLength_le d.civil.year d.civil.month
  have month := length_padded (by decide) (show d.civil.month < 10 ^ 2 by omega)
  have day := length_padded (by decide) (show d.civil.day < 10 ^ 2 by omega)
  have year : (yearText d.civil.year).length ≤ 7 := by
    have digits : (padded 4 d.civil.year.natAbs).length ≤ 6 :=
      length_padded_le (by decide) (by decide) (natAbs_year_lt inside)
    unfold yearText
    split
    · rename_i plain
      have : d.civil.year.toNat < 10 ^ 4 := by
        rw [Bool.and_eq_true, decide_eq_true_iff, decide_eq_true_iff] at plain
        omega
      rw [length_padded (by decide) this]
      decide
    · exact Nat.succ_le_succ digits
  simp only [text, String.toList_ofList, List.length_append, List.length_cons, month, day]
  omega

end Day
end TickerBoard

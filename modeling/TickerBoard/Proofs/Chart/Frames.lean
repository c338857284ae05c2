import TickerBoard.Proofs.Chart.Resampling
import TickerBoard.Proofs.Chart.Shown

/-! Wider intervals from narrower ones.

A candle of a time frame can be read as a bar and gathered again. Where the wider
interval is made of narrower ones, this comes to the candles of the bars themselves: one
more bar either extends the last narrow candle, and then the wide candle it is part of
(`gather_extended`), or begins a narrow candle, which reaches the wide one as the bar
does (`gather_begun`). The two ways differ in one thing: an interval that starts before
the calendar is marked by the first that came of it, which is a bar in one way and a
narrow candle in the other (`restamped`). -/
namespace TickerBoard.Candle
variable {α : Type} {width wider : Nat} {start : Int} {t u : Instant} {b : Bar α} {c : Candle α} {bars : List (Bar α)}

/-! ### Nested intervals -/

/-- Instants of one interval are of one interval of any width that is a multiple. -/
theorem Within.nested (h : Within width start t) (h' : Within width start u) (positive : 0 < wider)
    (nested : width ∣ wider) : intervalStart wider u = intervalStart wider t := by
  have own := within_intervalStart positive t
  have aligned : (width : Int) ∣ intervalStart wider t := (Int.natCast_dvd_natCast.mpr nested).trans own.aligned
  have first : intervalStart wider t ≤ start := by
    by_contra later
    have := Int.le_of_dvd (by omega) (Int.dvd_sub aligned h.aligned)
    have := h.last
    have := own.first
    omega
  have last : start + width ≤ intervalStart wider t + wider := by
    by_contra beyond
    have nested : (width : Int) ∣ wider := Int.natCast_dvd_natCast.mpr nested
    have apart := Int.dvd_sub (Int.dvd_add h.aligned (Int.dvd_refl width)) (Int.dvd_add aligned nested)
    have := Int.le_of_dvd (by omega) apart
    have := h.first
    have := own.last
    omega
  have := h'.first
  have := h'.last
  exact (intervalStart_eq_iff positive).mpr ⟨own.aligned, by omega, by omega⟩

/-- The start of an interval marks the narrower interval that it begins. -/
theorem stamp_stamp (positive : 0 < width) (positive' : 0 < wider) (nested : width ∣ wider) (t : Instant) :
    stamp width (stamp wider t) = (Instant.ofSeconds? (intervalStart wider t)).getD (stamp width t) := by
  rw [Instant.ofSeconds?, Instant.ofMs?]
  split
  · rename_i dated
    have own := within_intervalStart positive' t
    have aligned : (width : Int) ∣ intervalStart wider t := (Int.natCast_dvd_natCast.mpr nested).trans own.aligned
    have first : intervalStart width ⟨intervalStart wider t * 1000⟩ = intervalStart wider t :=
      (intervalStart_eq_iff positive).mpr ⟨aligned, Int.le_refl _, by dsimp only; omega⟩
    rw [stamp_dated dated, stamp_dated (by rwa [first]), first, Option.getD_some]
  · rename_i undated
    rw [stamp_undated undated, Option.getD_none]

/-! ### Candles read as bars -/

/-- A candle read as a bar: it begins where the candle starts. -/
def asBar (symbol : String) (c : Candle α) : Bar α :=
  ⟨symbol, c.start, c.opening, c.high, c.low, c.closing, c.volume⟩

/-- The candle with the mark of the interval of a width that its start lies in. -/
def restamped (width : Nat) (c : Candle α) : Candle α := { c with start := stamp width c.start }

section Gather
variable [Scalar α]

/-- A bar of its own candle's kind reaches a wider candle as its narrow candle does. -/
theorem gather_begun (positive : 0 < width) (positive' : 0 < wider) (nested : width ∣ wider) (symbol : String)
    (candles : Table Int (Candle α)) (b : Bar α) :
    gather wider (candles.mapValues (restamped width)) (asBar symbol (ofBar (intervalStart width b.time) b)) =
      (gather wider candles b).mapValues (restamped width) := by
  have key : intervalStart wider (asBar symbol (ofBar (intervalStart width b.time) b)).time =
      intervalStart wider b.time :=
    (within_intervalStart positive b.time).nested (within_stamp positive b.time) positive' nested
  rw [gather_eq, gather_eq, Table.mapValues_insert, Table.find?_mapValues, key]
  congr 1
  cases candles.find? (intervalStart wider b.time) with
  | some former => rfl
  | none =>
    have mark := stamp_stamp positive positive' nested b.time
    simp only [Option.map_none, Option.elim_none, restamped, ofBar, asBar, Candle.mk.injEq, and_true]
    exact mark.symm

/-- A bar that extends a narrow candle extends the wider candle that took it. -/
theorem gather_extended [Scalar.Ordered α] (same : intervalStart wider b.time = intervalStart wider c.start)
    (numbers : Scalar.isNaN c.high = false ∧ Scalar.isNaN c.low = false)
    (numbers' : Scalar.isNaN b.high = false ∧ Scalar.isNaN b.low = false) (symbol : String)
    (candles : Table Int (Candle α)) :
    gather wider candles (asBar symbol (c.extend b)) = gather wider (gather wider candles (asBar symbol c)) b := by
  have key : intervalStart wider (asBar symbol (c.extend b)).time = intervalStart wider c.start := rfl
  have key' : intervalStart wider (asBar symbol c).time = intervalStart wider c.start := rfl
  rw [gather_eq, gather_eq wider _ b, gather_eq, key, key', same, Table.find?_insert, if_pos rfl,
    Table.insert_insert, Option.elim_some]
  congr 1
  cases candles.find? (intervalStart wider c.start) with
  | none => rfl
  | some former =>
    simp only [Option.elim_some, extend, asBar, Scalar.max_assoc numbers.1 numbers'.1, Scalar.min_assoc numbers.2,
      Nat.add_mod_mod, Nat.mod_add_mod, Nat.add_assoc]

/-! ### All bars -/

variable [Scalar.Ordered α]

/-- Gathering the narrow candles of bars in turn gives what gathering the bars gives, with
the marks of the narrow intervals. -/
theorem gathered_nested (turn : InTurn bars) (numbers : Numbers bars) {minutes : Nat} (positive : 0 < wider)
    (nested : Candle.width minutes ∣ wider) (symbol : String) :
    ((bars.foldl (gather (Candle.width minutes)) Table.empty).values.map (asBar symbol)).foldl
        (gather wider) Table.empty =
      (bars.foldl (gather wider) Table.empty).mapValues (restamped (Candle.width minutes)) := by
  induction bars using List.reverseRecOn with
  | nil => rfl
  | append_singleton bars b ih =>
    obtain ⟨before, -, newer⟩ := inTurn_concat.mp turn
    have width := width_pos minutes
    have laid := laid_foldl width before
    have earlier : Numbers bars := fun a ha => numbers a (List.mem_append_left _ ha)
    have ih := ih before earlier
    simp only [List.foldl_append, List.foldl_cons, List.foldl_nil, Table.values] at ih ⊢
    rcases gather_cases width laid newer with ⟨older, c, split, gathered⟩ | ⟨-, gathered⟩
    · have listed : (intervalStart (Candle.width minutes) b.time, c) ∈
          (bars.foldl (gather (Candle.width minutes)) Table.empty).entries := by simp [split]
      have same : intervalStart wider b.time = intervalStart wider c.start :=
        (laid.within _ listed).nested (within_intervalStart width b.time) positive nested
      have own : Scalar.isNaN c.high = false ∧ Scalar.isNaN c.low = false :=
        @numbers_gathered _ _ (fun x => Scalar.isNaN x = false) _ earlier _ _ listed
      rw [split] at ih
      simp only [gathered, List.map_append, List.map_cons, List.map_nil, List.foldl_append, List.foldl_cons,
        List.foldl_nil] at ih ⊢
      rw [gather_extended same own (numbers b (by simp)), ih]
      -- the wide candle is there, so that the mark is not made anew
      have there := congrArg (·.find? (intervalStart wider b.time)) ih
      have key : intervalStart wider (asBar symbol c).time = intervalStart wider b.time := same.symm
      simp only [gather_eq, key, Table.find?_insert, if_pos, Table.find?_mapValues] at there
      obtain ⟨former, found, -⟩ := Option.map_eq_some_iff.mp there.symm
      simp only [gather_eq, Table.mapValues_insert, Table.find?_mapValues, found, Option.map_some, Option.elim_some]
      rfl
    · simp only [gathered, List.map_append, List.map_cons, List.map_nil, List.foldl_append, List.foldl_cons,
        List.foldl_nil, ih]
      exact gather_begun width positive nested symbol _ b

theorem dvd_width {m k : Nat} (hm : 0 < m) (hk : 0 < k) : Candle.width m ∣ Candle.width (k * m) := by
  have : 0 < k * m := Nat.mul_pos hk hm
  refine ⟨k, ?_⟩
  rw [Candle.width, Candle.width, Nat.max_eq_left this, Nat.max_eq_left hm]
  ring

/-- Candles of `k * m` minutes are those of the candles of `m` minutes, read as bars, if no
interval of `m` minutes is lost. -/
theorem frames_agree (turn : InTurn bars) (numbers : Numbers bars) (symbol : String) {m k : Nat} (hm : 0 < m)
    (hk : 0 < k) (kept : NoneLost m bars) :
    resample ((resample bars m).map (asBar symbol)) (k * m) =
        (resample bars (k * m)).map (restamped (Candle.width m)) ∧
      ∀ c ∈ resample bars (k * m), ∀ start, Within (Candle.width (k * m)) start c.start →
        (⟨start * 1000⟩ : Instant).inCalendar = true → restamped (Candle.width m) c = c := by
  have positive := width_pos (k * m)
  constructor
  · rw [resample, kept.resample_eq, gathered_nested turn numbers positive (dvd_width hm hk)]
    simp only [resample, Table.values, Table.mapValues, List.map_map, List.filter_map]
    rfl
  · intro c hc start within dated
    obtain ⟨t, marked⟩ : ∃ t, c.start = stamp (Candle.width (k * m)) t :=
      resample_induction (P := fun c => ∃ t, c.start = stamp (Candle.width (k * m)) t)
        (fun b _ => ⟨b.time, rfl⟩) (fun _ _ _ own => own) c hc
    obtain rfl : start = intervalStart (Candle.width (k * m)) t :=
      within.start_eq (marked ▸ within_stamp positive t)
    have mark := stamp_stamp (width_pos m) positive (dvd_width hm hk) t
    rw [Instant.ofSeconds?, Instant.ofMs?, if_pos dated, Option.getD_some, ← stamp_dated dated, ← marked] at mark
    rw [restamped, mark]

end Gather

/-- Bars before and after the epoch, of four intervals of five minutes. -/
def steadyBars : List (Bar Float) :=
  [⟨"ES", ⟨-600500⟩, 10, 12, 9, 11, 5⟩, ⟨"ES", ⟨-1⟩, 11, 15, 11, 13, 7⟩, ⟨"ES", ⟨30000⟩, 13, 14, 8, 9, 2⟩,
    ⟨"ES", ⟨299999⟩, 9, 10, 7, 10, 1⟩, ⟨"ES", ⟨310000⟩, 10, 30, 9, 20, 3⟩]

theorem frames_agree_steady :
    InTurn steadyBars ∧ Numbers steadyBars ∧ NoneLost 5 steadyBars ∧
      resample ((resample steadyBars 5).map (asBar "ES")) (3 * 5) =
        (resample steadyBars (3 * 5)).map (restamped (Candle.width 5)) ∧
      (resample steadyBars (3 * 5)).map (restamped (Candle.width 5)) = resample steadyBars (3 * 5) ∧
      (resample steadyBars 5).length = 4 ∧ (resample steadyBars (3 * 5)).length = 2 := by
  have turn : InTurn steadyBars := ⟨by decide, by decide⟩
  have numbers : Numbers steadyBars := by
    unfold Numbers
    decide
  have kept : NoneLost 5 steadyBars := by decide +kernel
  exact ⟨turn, numbers, kept, (frames_agree turn numbers "ES" (by decide) (by decide) kept).1, by decide +kernel,
    by decide +kernel, by decide +kernel⟩

/-- A bar one and a half minutes after the calendar begins. -/
def earliestBar : Bar Float := ⟨"ES", ⟨Instant.first.ms + 90000⟩, 10, 12, 9, 11, 5⟩

/-- Bars of three minutes in turn, of which the first two trade half a word each. -/
def heavyBars : List (Bar Float) :=
  [⟨"ES", ⟨0⟩, 10, 10, 10, 10, 9223372036854775808⟩, ⟨"ES", ⟨60000⟩, 12, 12, 12, 12, 9223372036854775808⟩,
    ⟨"ES", ⟨120000⟩, 12, 12, 12, 12, 5⟩]

/-- An interval of thirteen minutes may start before the calendar. Then the candle of a bar has
the mark of the bar, and the candle of its minute that of the minute. And the candle of two
minutes may be lost where that of four, which has more volume, is not. -/
theorem frames_disagree :
    (InTurn [earliestBar] ∧ Numbers [earliestBar] ∧ earliestBar.time.inCalendar = true ∧
      resample ((resample [earliestBar] 1).map (asBar "ES")) (13 * 1) ≠ resample [earliestBar] (13 * 1)) ∧
    InTurn heavyBars ∧ Numbers heavyBars ∧ (∀ b ∈ heavyBars, b.volume < Word.size 64) ∧
      resample ((resample heavyBars 2).map (asBar "ES")) (2 * 2) = [⟨⟨0⟩, 12, 12, 12, 12, 5, none, none⟩] ∧
      resample heavyBars (2 * 2) = [⟨⟨0⟩, 10, 12, 10, 12, 5, none, none⟩] := by
  unfold Numbers
  refine ⟨⟨⟨by decide, by decide⟩, by decide, by decide, by decide +kernel⟩, ⟨by decide, by decide⟩, by decide,
    by decide +kernel, by decide +kernel, by decide +kernel⟩

end TickerBoard.Candle

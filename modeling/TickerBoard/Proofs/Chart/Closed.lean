import Mathlib.Data.List.Nodup
import TickerBoard.Proofs.Chart.Shown
import TickerBoard.Proofs.Indicator.Columns

/-! Closed candles.

The last candle of a history is still forming; the others are closed. A later
bar extends the forming candle or begins the next, so no closed candle moves
(`dropLast_resample`), and since an indicator reads nothing behind its place, no
closed candle changes its readings either, unless an indicator leaves the
finite numbers (`closed_never_repaint`). -/
namespace TickerBoard.Candle
variable {α : Type} [Scalar α]

/-! ### Closed candles of a growing history -/

/-- One more bar leaves all that was gathered but the last where it is. -/
theorem dropLast_gathered_concat {bars : List (Bar α)} {b : Bar α} (h : InTurn (bars ++ [b])) (minutes : Nat) :
    (bars.foldl (gather (width minutes)) Table.empty).values.dropLast <+:
      ((bars ++ [b]).foldl (gather (width minutes)) Table.empty).values.dropLast := by
  obtain ⟨before, -, newer⟩ := inTurn_concat.mp h
  have laid := laid_foldl (width_pos minutes) before
  rw [List.foldl_append, List.foldl_cons, List.foldl_nil, Table.values, Table.values]
  rcases gather_cases (width_pos minutes) laid newer with ⟨older, c, split, gathered⟩ | ⟨-, gathered⟩
  · simp [gathered, split]
  · rw [gathered, List.map_append, List.map_singleton, List.dropLast_concat]
    exact List.dropLast_prefix _

theorem dropLast_gathered {bars more : List (Bar α)} (h : InTurn (bars ++ more)) (minutes : Nat) :
    (bars.foldl (gather (width minutes)) Table.empty).values.dropLast <+:
      ((bars ++ more).foldl (gather (width minutes)) Table.empty).values.dropLast := by
  induction more using List.reverseRecOn with
  | nil => simp
  | append_singleton more b ih =>
    rw [← List.append_assoc] at h ⊢
    exact (ih (inTurn_concat.mp h).1).trans (dropLast_gathered_concat h minutes)

theorem dropLast_filter_le {β : Type} (p : β → Bool) (xs : List β) :
    (xs.filter p).dropLast <+: xs.dropLast.filter p := by
  rcases List.eq_nil_or_concat xs with rfl | ⟨front, last, rfl⟩
  · exact List.prefix_rfl
  · rw [List.concat_eq_append, List.filter_append, List.dropLast_concat]
    by_cases own : p last = true
    · simp [own]
    · simpa [own] using List.dropLast_prefix _

theorem dropLast_resample_concat {bars : List (Bar α)} {b : Bar α} {minutes : Nat} (h : InTurn (bars ++ [b]))
    (kept : NeverLost minutes (bars ++ [b])) :
    (resample bars minutes).dropLast <+: (resample (bars ++ [b]) minutes).dropLast := by
  rw [kept.noneLost.resample_eq, kept.head.noneLost.resample_eq]
  exact dropLast_gathered_concat h minutes

/-- Closed candles stay. This holds of a candle that was lost, too: if it is not the last, no
later bar brings it back. -/
theorem dropLast_resample {bars more : List (Bar α)} (h : InTurn (bars ++ more)) (minutes : Nat) :
    (resample bars minutes).dropLast <+: resample (bars ++ more) minutes :=
  (dropLast_filter_le _ _).trans (((dropLast_gathered h minutes).trans (List.dropLast_prefix _)).filter _)

/-! ### Their indicators -/

/-- Neither indicator leaves the finite numbers on the closing prices. -/
structure Steady (candles : List (Candle α)) (rsiPeriod averagePeriod : Nat) : Prop where
  rsi : Rsi.Finite (candles.map (·.closing)) rsiPeriod
  average : Ema.Finite (candles.map (·.closing)) averagePeriod

/-- Candles with the slots of both indicators. -/
def annotated (candles : List (Candle α)) (rsiPeriod averagePeriod : Nat) : List (Candle α) :=
  let closes := candles.map (·.closing)
  (candles.zip ((Rsi.slots closes rsiPeriod).zip (Ema.slots closes averagePeriod))).map
    fun (c, rsi, average) => { c with rsi, average }

variable {candles : List (Candle α)} {rsiPeriod averagePeriod : Nat}

theorem take_addIndicators (steady : Steady candles rsiPeriod averagePeriod) (n : Nat) :
    (addIndicators candles rsiPeriod averagePeriod).take n = annotated (candles.take n) rsiPeriod averagePeriod := by
  rw [addIndicators, annotated, ← List.map_take, List.zip_eq_zipWith, List.zip_eq_zipWith, List.take_zipWith,
    List.take_zipWith, Rsi.take_column steady.rsi, Ema.take_column steady.average, List.map_take,
    ← List.zip_eq_zipWith, ← List.zip_eq_zipWith]

theorem length_addIndicators (candles : List (Candle α)) (rsiPeriod averagePeriod : Nat) :
    (addIndicators candles rsiPeriod averagePeriod).length = candles.length := by
  have same := congrArg List.length (map_start_addIndicators candles rsiPeriod averagePeriod)
  rwa [List.length_map, List.length_map] at same

/-- Candles whose indicators are steady have the readings of any others they begin. -/
theorem annotated_mono {more : List (Candle α)} (steady : Steady more rsiPeriod averagePeriod)
    (h : candles <+: more) :
    annotated candles rsiPeriod averagePeriod <+: addIndicators more rsiPeriod averagePeriod := by
  rw [List.prefix_iff_eq_take.mp h, ← take_addIndicators steady]
  exact List.take_prefix ..

theorem dropLast_addIndicators (steady : Steady candles rsiPeriod averagePeriod) :
    (addIndicators candles rsiPeriod averagePeriod).dropLast =
      annotated candles.dropLast rsiPeriod averagePeriod := by
  rw [List.dropLast_eq_take, length_addIndicators, take_addIndicators steady, ← List.dropLast_eq_take]

omit [Scalar α] in
/-- What is closed at the end of a series is closed in the series, at its end. -/
theorem dropLast_suffix {shown series : List (Candle α)} (h : shown <:+ series) :
    shown.dropLast <:+ series.dropLast := by
  obtain ⟨older, rfl⟩ := h
  cases shown with
  | nil => exact List.nil_suffix
  | cons c rest =>
    rw [List.dropLast_append_of_ne_nil (List.cons_ne_nil c rest)]
    exact List.suffix_append ..

omit [Scalar α] in
theorem dropLast_subset_of_suffix {shown series : List (Candle α)} (h : shown <:+ series) :
    shown.dropLast ⊆ series.dropLast :=
  (dropLast_suffix h).subset

omit [Scalar α] in
/-- Candles with ascending starts are known by them. -/
theorem eq_of_start {series : List (Candle α)} (ascending : (series.map (·.start)).Pairwise fun a b => a.ms < b.ms)
    {c c' : Candle α} (hc : c ∈ series) (hc' : c' ∈ series) (same : c'.start = c.start) : c' = c := by
  have apart : (series.map (·.start)).Nodup :=
    ascending.imp fun before same => absurd (congrArg Instant.ms same) (Int.ne_of_lt before)
  exact List.inj_on_of_nodup_map apart hc' hc same

/-- **Closed candles never repaint.** Let bars come in turn, some of them later than the
others. With intervals of any width and indicators of any periods that stay finite, the
closed candles of the earlier bars stand at the head of the candles of all bars, with all
their prices and readings. So of what is left on any clock when all but some last days are
dropped, a candle that was closed before and is still there is the same. -/
theorem closed_never_repaint {bars later : List (Bar α)} (turn : InTurn (bars ++ later))
    (minutes rsiPeriod averagePeriod : Nat) (before : Steady (resample bars minutes) rsiPeriod averagePeriod)
    (after : Steady (resample (bars ++ later) minutes) rsiPeriod averagePeriod) :
    (addIndicators (resample bars minutes) rsiPeriod averagePeriod).dropLast <+:
        addIndicators (resample (bars ++ later) minutes) rsiPeriod averagePeriod ∧
      ∀ (clock : SessionClock) (days : Nat) (shown shown' : List (Candle α)),
        trimDays? clock days (addIndicators (resample bars minutes) rsiPeriod averagePeriod) = some shown →
        trimDays? clock days (addIndicators (resample (bars ++ later) minutes) rsiPeriod averagePeriod) =
          some shown' →
        ∀ c ∈ shown.dropLast, ∀ c' ∈ shown', c'.start = c.start → c' = c := by
  have closed : (addIndicators (resample bars minutes) rsiPeriod averagePeriod).dropLast <+:
      addIndicators (resample (bars ++ later) minutes) rsiPeriod averagePeriod := by
    rw [dropLast_addIndicators before]
    exact annotated_mono after (dropLast_resample turn minutes)
  refine ⟨closed, fun clock days shown shown' trimmed trimmed' c hc c' hc' same => ?_⟩
  have ascending := starts_ascending turn minutes
  rw [starts, ← map_start_addIndicators _ rsiPeriod averagePeriod] at ascending
  have own : c ∈ addIndicators (resample (bars ++ later) minutes) rsiPeriod averagePeriod :=
    closed.subset (dropLast_subset_of_suffix (trimDays_spec trimmed).1 hc)
  exact eq_of_start ascending own ((trimDays_spec trimmed').1.subset hc') same

/-! ### A candle that goes on forming -/

/-- A bar of one price. -/
def pricedBar (minute : Int) (price : Float) : Bar Float :=
  ⟨"XYZ", ⟨minute * 60000⟩, price, price, price, price, 10⟩

/-- Bars of three intervals of five minutes. -/
def openedBars : List (Bar Float) := [pricedBar 0 10, pricedBar 3 12, pricedBar 5 11, pricedBar 10 9]

/-- A bar of the third interval and one of the fourth. -/
def closingBars : List (Bar Float) := [pricedBar 12 9.5, pricedBar 15 8]

theorem closed_never_repaint_priced :
    InTurn (openedBars ++ closingBars) ∧ Steady (resample openedBars 5) 2 2 ∧
      Steady (resample (openedBars ++ closingBars) 5) 2 2 ∧
      (addIndicators (resample openedBars 5) 2 2).dropLast <+:
        addIndicators (resample (openedBars ++ closingBars) 5) 2 2 ∧
      ((addIndicators (resample openedBars 5) 2 2).dropLast.map (·.average)).getLast? = some (some 11.5) := by
  have turn : InTurn (openedBars ++ closingBars) := ⟨by decide, by decide⟩
  have before : Steady (resample openedBars 5) 2 2 :=
    ⟨Rsi.finite_of_all (by decide +kernel), Ema.finite_of_all (by decide +kernel)⟩
  have after : Steady (resample (openedBars ++ closingBars) 5) 2 2 :=
    ⟨Rsi.finite_of_all (by decide +kernel), Ema.finite_of_all (by decide +kernel)⟩
  exact ⟨turn, before, after, (closed_never_repaint turn 5 2 2 before after).1, by decide +kernel⟩

end TickerBoard.Candle

import TickerBoard.Proofs.Chart.Candles
import TickerBoard.Proofs.Scalar

/-! Resampling as a grouping of bars.

The candle that an interval gets sums up the interval's bars (`Summary`), provided that a
word holds the sum of their volumes. The table lists the intervals in order, so the candles
of all bars are those of the intervals in which something was traded
(`resample_by_intervals`). -/
namespace TickerBoard

/-! ### Sums over a table -/

namespace Table
variable {κ υ : Type} [DecidableEq κ] [Ord κ] [Std.TransOrd κ]

theorem sum_place (f : υ → Nat) {es : List (κ × υ)} (h : es.Pairwise fun a b => compare a.1 b.1 = .lt) (k : κ) (v : υ) :
    ((place k v es).map fun e => f e.2).sum + (lookup k es).elim 0 f = f v + (es.map fun e => f e.2).sum := by
  induction es with
  | nil => rfl
  | cons e rest ih =>
    obtain ⟨first, others⟩ := List.pairwise_cons.mp h
    rw [place, lookup]
    split
    · simp
      omega
    · split
      · rename_i before
        -- every key of the rest is greater still
        have fresh : lookup k rest = none := by
          refine Option.eq_none_iff_forall_ne_some.mpr fun u found => ?_
          exact ne_of_compare_lt (Std.TransCmp.lt_trans before (first _ (mem_of_lookup found))) rfl
        simp [fresh]
      · have := ih others
        simp only [List.map_cons, List.sum_cons]
        omega

/-- A sum over the values changes by what the value of the key changes. -/
theorem sum_insert (f : υ → Nat) {t : Table κ υ} (h : t.Ascending) (k : κ) (v : υ) :
    ((t.insert k v).values.map f).sum + (t.find? k).elim 0 f = f v + (t.values.map f).sum := by
  rw [values, values, List.map_map, List.map_map]
  exact sum_place f h k v

end Table

namespace Candle
variable {α : Type} [Scalar α] {width minutes : Nat} {start : Int} {bars group : List (Bar α)} {c : Candle α}

/-! ### What a candle says of its bars -/

/-- A candle that starts in a second sums up a group of bars: it opens as the first of them
and closes as the last, its high and its low are the highest and the lowest of theirs, and
its volume is theirs together. Nothing is read off it yet. -/
structure Summary (start : Int) (group : List (Bar α)) (c : Candle α) : Prop where
  start : c.start = ⟨start * 1000⟩
  opening : group.head?.map (·.opening) = some c.opening
  closing : group.getLast?.map (·.closing) = some c.closing
  high : ∃ b ∈ group, b.high = c.high
  highest : ∀ b ∈ group, b.high ≤ c.high
  low : ∃ b ∈ group, b.low = c.low
  lowest : ∀ b ∈ group, c.low ≤ b.low
  volume : c.volume = (group.map (·.volume)).sum
  unread : c.rsi = none ∧ c.average = none

/-- The highs and the lows of all bars are numbers. -/
def Numbers (bars : List (Bar α)) : Prop :=
  ∀ b ∈ bars, Scalar.isNaN b.high = false ∧ Scalar.isNaN b.low = false

section Ordered
variable [Scalar.Ordered α]

theorem summary_single {b : Bar α} (numbers : Scalar.isNaN b.high = false ∧ Scalar.isNaN b.low = false)
    (dated : (⟨start * 1000⟩ : Instant).inCalendar = true) : Summary start [b] (ofBar start b) where
  start := by simp [ofBar, Instant.ofSeconds?, Instant.ofMs?, dated]
  opening := rfl
  closing := rfl
  high := ⟨b, by simp, rfl⟩
  highest := List.forall_mem_singleton.mpr (Scalar.le_refl numbers.1)
  low := ⟨b, by simp, rfl⟩
  lowest := List.forall_mem_singleton.mpr (Scalar.le_refl numbers.2)
  volume := by simp [ofBar]
  unread := ⟨rfl, rfl⟩

/-- One more bar is summed up by extending the candle. -/
theorem Summary.extend {b : Bar α} (h : Summary start group c) (numbers : Numbers (group ++ [b]))
    (small : ((group ++ [b]).map (·.volume)).sum < Word.size 64) : Summary start (group ++ [b]) (c.extend b) := by
  obtain ⟨highNew, lowNew⟩ := numbers b (by simp)
  obtain ⟨top, htop, hhigh⟩ := h.high
  obtain ⟨bottom, hbottom, hlow⟩ := h.low
  have highOld : Scalar.isNaN c.high = false := hhigh ▸ (numbers top (List.mem_append_left _ htop)).1
  have lowOld : Scalar.isNaN c.low = false := hlow ▸ (numbers bottom (List.mem_append_left _ hbottom)).2
  obtain ⟨numberHigh, upOld, upNew⟩ := Scalar.max_spec highOld highNew
  obtain ⟨numberLow, downOld, downNew⟩ := Scalar.min_spec lowOld lowNew
  refine ⟨h.start, ?_, by simp [Candle.extend], ?_, ?_, ?_, ?_, ?_, h.unread⟩
  · rw [List.head?_append_of_ne_nil _ (List.ne_nil_of_mem htop)]
    exact h.opening
  · rcases Scalar.max_cases c.high b.high with old | new
    · exact ⟨top, List.mem_append_left _ htop, hhigh.trans old.symm⟩
    · exact ⟨b, by simp, new.symm⟩
  · intro b' hb'
    rcases List.mem_append.mp hb' with old | new
    · exact Scalar.le_trans (numbers b' hb').1 highOld numberHigh (h.highest b' old) upOld
    · rw [List.mem_singleton.mp new]
      exact upNew
  · rcases Scalar.min_cases c.low b.low with old | new
    · exact ⟨bottom, List.mem_append_left _ hbottom, hlow.trans old.symm⟩
    · exact ⟨b, by simp, new.symm⟩
  · intro b' hb'
    rcases List.mem_append.mp hb' with old | new
    · exact Scalar.le_trans numberLow lowOld (numbers b' hb').2 downOld (h.lowest b' old)
    · rw [List.mem_singleton.mp new]
      exact downNew
  · simp only [List.map_append, List.map_singleton, List.sum_append, List.sum_singleton] at small ⊢
    rw [Candle.extend, h.volume, Nat.mod_eq_of_lt small]

theorem summary_ofBars (numbers : Numbers group) (dated : (⟨start * 1000⟩ : Instant).inCalendar = true)
    (small : (group.map (·.volume)).sum < Word.size 64) (made : ofBars? start group = some c) :
    Summary start group c := by
  induction group using List.reverseRecOn generalizing c with
  | nil => cases made
  | append_singleton group b ih =>
    rw [ofBars?_concat] at made
    obtain rfl := Option.some.inj made
    cases earlier : ofBars? start group with
    | none =>
      obtain rfl : group = [] := by
        cases group with
        | nil => rfl
        | cons => cases earlier
      exact summary_single (numbers b (by simp)) dated
    | some former =>
      have part : (group.map (·.volume)).sum < Word.size 64 := by
        rw [List.map_append, List.sum_append] at small
        omega
      exact (ih (fun b hb => numbers b (List.mem_append_left _ hb)) part earlier).extend numbers small

end Ordered

/-! ### All candles -/

theorem volume_gather {candles : Table Int (Candle α)} (ascending : candles.Ascending) (width : Nat) (b : Bar α)
    (small : ∀ former, candles.find? (intervalStart width b.time) = some former →
      former.volume + b.volume < Word.size 64) :
    ((gather width candles b).values.map (·.volume)).sum = (candles.values.map (·.volume)).sum + b.volume := by
  have sum := Table.sum_insert (·.volume) ascending (intervalStart width b.time)
    ((candles.find? (intervalStart width b.time)).elim (ofBar (intervalStart width b.time) b) (·.extend b))
  rw [gather_eq]
  cases found : candles.find? (intervalStart width b.time) with
  | none =>
    rw [found] at sum
    simp only [Option.elim_none, ofBar] at sum ⊢
    omega
  | some former =>
    rw [found] at sum
    simp only [Option.elim_some, extend, Nat.mod_eq_of_lt (small former found)] at sum ⊢
    omega

theorem volume_gathered (fits : Fits minutes bars) :
    ((bars.foldl (gather (Candle.width minutes)) Table.empty).values.map (·.volume)).sum =
      (bars.map (·.volume)).sum := by
  induction bars using List.reverseRecOn with
  | nil => rfl
  | append_singleton bars b ih =>
    have positive := width_pos minutes
    have whole := fits b (by simp)
    have own := volume_le_volumeFrom positive (List.mem_singleton.mpr (rfl : b = b))
    rw [volumeFrom_append] at whole
    rw [List.foldl_append, List.foldl_cons, List.foldl_nil,
      volume_gather (ascending_gathered (Candle.width minutes) bars), ih fits.head]
    · simp
    · intro former found
      rw [find?_gathered, filter_intervalStart positive (within_intervalStart positive b.time).aligned] at found
      have exactly := volume_ofBars_of_lt found (show volumeFrom _ _ _ < _ by omega)
      rw [exactly]
      exact Nat.lt_of_le_of_lt (Nat.add_le_add_left own _) whole

omit [Scalar α] in
/-- Candles without volume add nothing. -/
theorem volume_filter (candles : List (Candle α)) :
    ((candles.filter fun c => 0 < c.volume).map (·.volume)).sum = (candles.map (·.volume)).sum := by
  induction candles with
  | nil => rfl
  | cons c rest ih =>
    by_cases traded : 0 < c.volume
    · rw [List.filter_cons_of_pos (by simpa using traded), List.map_cons, List.map_cons, List.sum_cons,
        List.sum_cons, ih]
    · rw [List.filter_cons_of_neg (by simpa using traded), List.map_cons, List.sum_cons, ih]
      omega

/-- **Resampling is grouping by intervals.** Let highs and lows of bars be numbers, their
intervals start in the calendar and the volumes of each interval add up to a word. Then
there is one candle for each interval whose bars have volume, in the order of the intervals,
each summing up the bars from its start on for the width of an interval, in their order; and
the whole volume is that of the bars. -/
theorem resample_by_intervals [Scalar.Ordered α] (numbers : Numbers bars) (minutes : Nat)
    (dated : ∀ b ∈ bars, ∀ start, Within (Candle.width minutes) start b.time →
      (⟨start * 1000⟩ : Instant).inCalendar = true) (fits : Fits minutes bars) :
    ∃ starts : List Int, starts.Pairwise (· < ·) ∧
      (∀ start, start ∈ starts ↔ (Candle.width minutes : Int) ∣ start ∧
        0 < ((barsFrom (Candle.width minutes) start bars).map (·.volume)).sum) ∧
      List.Forall₂ (fun start c => Summary start (barsFrom (Candle.width minutes) start bars) c) starts
        (resample bars minutes) ∧
      ((resample bars minutes).map (·.volume)).sum = (bars.map (·.volume)).sum := by
  have positive := width_pos minutes
  have ascending := ascending_gathered (Candle.width minutes) bars
  -- what the table holds of an interval sums up its bars
  have summed : ∀ start c, (start, c) ∈ (bars.foldl (gather (Candle.width minutes)) Table.empty).entries →
      (Candle.width minutes : Int) ∣ start ∧ Summary start (barsFrom (Candle.width minutes) start bars) c := by
    intro start c listed
    obtain ⟨b, own, rfl, made⟩ := ofBars?_of_gathered positive listed
    have within := within_intervalStart positive b.time
    exact ⟨within.aligned, summary_ofBars (fun b hb => numbers b (List.mem_of_mem_filter hb))
      (dated b own _ within) (fits b own) made⟩
  let traded := (bars.foldl (gather (Candle.width minutes)) Table.empty).entries.filter fun e => 0 < e.2.volume
  have shown : resample bars minutes = traded.map (·.2) := List.filter_map
  refine ⟨traded.map (·.1), ?_, fun start => ⟨fun listed => ?_, fun ⟨aligned, heavy⟩ => ?_⟩, ?_, ?_⟩
  · exact List.pairwise_map.mpr ((List.Pairwise.filter _ ascending).imp Int.compare_eq_lt.mp)
  · obtain ⟨⟨start, c⟩, he, rfl⟩ := List.mem_map.mp listed
    obtain ⟨listed, heavy⟩ := List.mem_filter.mp he
    obtain ⟨aligned, summary⟩ := summed start c listed
    exact ⟨aligned, summary.volume ▸ of_decide_eq_true heavy⟩
  · have found := find?_gathered (Candle.width minutes) bars start
    rw [filter_intervalStart positive aligned] at found
    cases group : barsFrom (Candle.width minutes) start bars with
    | nil =>
      rw [group] at heavy
      cases heavy
    | cons b rest =>
      rw [group, ofBars?] at found
      have listed := (Table.find?_eq_some ascending).mp found
      have volume := (summed start _ listed).2.volume
      exact List.mem_map.mpr ⟨_, List.mem_filter.mpr ⟨listed, decide_eq_true (volume ▸ heavy)⟩, rfl⟩
  · rw [shown, List.forall₂_map_left_iff, List.forall₂_map_right_iff, List.forall₂_same]
    exact fun e he => (summed e.1 e.2 (List.mem_of_mem_filter he)).2
  · exact (volume_filter _).trans (volume_gathered fits)

/-- Bars of three intervals of five minutes, in two of which something was traded: the first
interval ends with the epoch, and of its bars the last has no volume. -/
def scatteredBars : List (Bar Float) :=
  [⟨"ES", ⟨-300000⟩, 10, 12, 9, 11, 5⟩, ⟨"ES", ⟨-60500⟩, 11, 15, 11, 13, 7⟩, ⟨"ES", ⟨-1⟩, 13, 14, 8, 9, 0⟩,
    ⟨"ES", ⟨0⟩, 9, 30, 1, 20, 0⟩, ⟨"ES", ⟨601000⟩, 20, 21, 19, 20, 4⟩]

theorem resample_by_intervals_scattered :
    Numbers scatteredBars ∧ (∀ b ∈ scatteredBars, ∀ start, Within (Candle.width 5) start b.time →
      (⟨start * 1000⟩ : Instant).inCalendar = true) ∧ Fits 5 scatteredBars ∧
    resample scatteredBars 5 = [⟨⟨-300000⟩, 10, 15, 8, 9, 12, none, none⟩, ⟨⟨600000⟩, 20, 21, 19, 20, 4, none, none⟩] ∧
    ∃ starts : List Int, (∀ start, start ∈ starts ↔ (300 : Int) ∣ start ∧
        0 < ((barsFrom 300 start scatteredBars).map (·.volume)).sum) ∧
      List.Forall₂ (fun start c => Summary start (barsFrom 300 start scatteredBars) c) starts
        (resample scatteredBars 5) := by
  have numbers : Numbers scatteredBars := by
    unfold Numbers
    decide
  have dated : ∀ b ∈ scatteredBars, ∀ start, Within (Candle.width 5) start b.time →
      (⟨start * 1000⟩ : Instant).inCalendar = true := by
    intro b hb start within
    obtain rfl := (intervalStart_eq_iff (width_pos 5)).mpr within
    clear within
    revert b
    decide
  have fits : Fits 5 scatteredBars := by decide +kernel
  obtain ⟨starts, -, listed, summed, -⟩ := resample_by_intervals numbers 5 dated fits
  exact ⟨numbers, dated, fits, by decide +kernel, starts, listed, summed⟩

end Candle
end TickerBoard

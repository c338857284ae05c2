import Mathlib.Algebra.Order.BigOperators.Group.List
import Mathlib.Algebra.Order.Ring.Nat
import Mathlib.Data.List.Induction
import TickerBoard.Chart.Candle
import TickerBoard.Proofs.Table

/-! Bars gathered by their intervals.

Bars are gathered one by one, each into the candle that its interval has by then. What
the table holds of an interval in the end is therefore the candle of the interval's bars
alone, in their order (`find?_gathered`). Its volume is theirs together, less as many
whole words as that takes (`volume_ofBars`). So a candle is lost just where the volumes
of its bars come to a multiple of the word. `Stands` says of a bar that its interval is
not lost, `NoneLost` of all of some bars, and `NeverLost` of every one as it comes. -/
namespace TickerBoard.Candle
variable {α : Type}

/-! ### Intervals -/

/-- The instant lies in the interval that starts in a second. -/
structure Within (width : Nat) (start : Int) (t : Instant) : Prop where
  aligned : (width : Int) ∣ start
  first : start * 1000 ≤ t.ms
  last : t.ms < (start + width) * 1000

theorem within_intervalStart {width : Nat} (positive : 0 < width) (t : Instant) :
    Within width (intervalStart width t) t := by
  have low := Int.emod_nonneg t.seconds (b := width) (by omega)
  have high := Int.emod_lt_of_pos t.seconds (b := width) (by omega)
  have second : t.seconds * 1000 ≤ t.ms ∧ t.ms < (t.seconds + 1) * 1000 := by
    unfold Instant.seconds
    omega
  refine ⟨Int.dvd_self_sub_emod, ?_, ?_⟩ <;> unfold intervalStart <;> omega

/-- Later intervals lie behind earlier ones as a whole. -/
theorem Within.lt_of_lt {width : Nat} {start start' : Int} {t t' : Instant} (h : Within width start t)
    (h' : Within width start' t') (later : start < start') : t.ms < t'.ms := by
  have gap : (width : Int) ≤ start' - start :=
    Int.le_of_dvd (by omega) (Int.dvd_sub h'.aligned h.aligned)
  have := h.last
  have := h'.first
  omega

/-- An instant lies in no other interval. -/
theorem Within.start_eq {width : Nat} {start start' : Int} {t : Instant} (h : Within width start t)
    (h' : Within width start' t) : start = start' := by
  rcases Int.lt_trichotomy start start' with before | same | after
  · exact absurd (h.lt_of_lt h' before) (Int.lt_irrefl _)
  · exact same
  · exact absurd (h'.lt_of_lt h after) (Int.lt_irrefl _)

theorem intervalStart_eq_iff {width : Nat} (positive : 0 < width) {start : Int} {t : Instant} :
    intervalStart width t = start ↔ Within width start t :=
  ⟨fun same => same ▸ within_intervalStart positive t, fun h => (within_intervalStart positive t).start_eq h⟩

theorem intervalStart_mono (width : Nat) (positive : 0 < width) {t t' : Instant} (h : t.ms ≤ t'.ms) :
    intervalStart width t ≤ intervalStart width t' := by
  by_contra earlier
  have := (within_intervalStart positive t').lt_of_lt (within_intervalStart positive t) (by omega)
  omega

theorem width_pos (minutes : Nat) : 0 < width minutes := by
  unfold width
  omega

/-- The mark of an instant's interval: its start, or the instant itself where the calendar
does not have the start. -/
def stamp (width : Nat) (t : Instant) : Instant := (Instant.ofSeconds? (intervalStart width t)).getD t

theorem stamp_dated {width : Nat} {t : Instant}
    (dated : (⟨intervalStart width t * 1000⟩ : Instant).inCalendar = true) :
    stamp width t = ⟨intervalStart width t * 1000⟩ := by
  rw [stamp, Instant.ofSeconds?, Instant.ofMs?, if_pos dated, Option.getD_some]

theorem stamp_undated {width : Nat} {t : Instant}
    (undated : ¬ (⟨intervalStart width t * 1000⟩ : Instant).inCalendar = true) : stamp width t = t := by
  rw [stamp, Instant.ofSeconds?, Instant.ofMs?, if_neg undated, Option.getD_none]

theorem within_stamp {width : Nat} (positive : 0 < width) (t : Instant) :
    Within width (intervalStart width t) (stamp width t) := by
  have own := within_intervalStart positive t
  by_cases dated : (⟨intervalStart width t * 1000⟩ : Instant).inCalendar = true
  · rw [stamp_dated dated]
    exact ⟨own.aligned, Int.le_refl _, by dsimp only; omega⟩
  · rw [stamp_undated dated]
    exact own

/-! ### The bars of one interval -/

variable {width minutes : Nat} {start : Int} {bars more group : List (Bar α)} {a b : Bar α} {c : Candle α}

/-- The bars from a second on for the width of an interval, in their order. -/
def barsFrom (width : Nat) (start : Int) (bars : List (Bar α)) : List (Bar α) :=
  bars.filter fun b => start * 1000 ≤ b.time.ms ∧ b.time.ms < (start + width) * 1000

theorem filter_intervalStart (positive : 0 < width) (aligned : (width : Int) ∣ start) (bars : List (Bar α)) :
    (bars.filter fun b => intervalStart width b.time = start) = barsFrom width start bars := by
  refine List.filter_congr fun b _ => decide_eq_decide.mpr ?_
  rw [intervalStart_eq_iff positive]
  exact ⟨fun h => ⟨h.first, h.last⟩, fun h => ⟨aligned, h.1, h.2⟩⟩

theorem mem_barsFrom (positive : 0 < width) :
    a ∈ barsFrom width (intervalStart width b.time) bars ↔
      a ∈ bars ∧ intervalStart width a.time = intervalStart width b.time := by
  rw [← filter_intervalStart positive (within_intervalStart positive b.time).aligned, List.mem_filter,
    decide_eq_true_eq]

/-- The volume that was traded from a second on for the width of an interval. -/
def volumeFrom (width : Nat) (start : Int) (bars : List (Bar α)) : Nat :=
  ((barsFrom width start bars).map (·.volume)).sum

theorem volumeFrom_append (width : Nat) (start : Int) (bars more : List (Bar α)) :
    volumeFrom width start (bars ++ more) = volumeFrom width start bars + volumeFrom width start more := by
  simp [volumeFrom, barsFrom]

/-- A bar adds nothing to the intervals it is not of. -/
theorem volumeFrom_concat_of_ne (positive : 0 < width)
    (other : intervalStart width b.time ≠ intervalStart width a.time) :
    volumeFrom width (intervalStart width a.time) (bars ++ [b]) =
      volumeFrom width (intervalStart width a.time) bars := by
  have nothing : barsFrom width (intervalStart width a.time) [b] = [] :=
    List.eq_nil_iff_forall_not_mem.mpr fun x hx => by
      obtain ⟨same, own⟩ := (mem_barsFrom positive).mp hx
      exact other (List.mem_singleton.mp same ▸ own)
  rw [volumeFrom_append, volumeFrom, volumeFrom, nothing, List.map_nil, List.sum_nil, Nat.add_zero]

/-- A bar's own volume is part of its interval's. -/
theorem volume_le_volumeFrom (positive : 0 < width) (hb : b ∈ bars) :
    b.volume ≤ volumeFrom width (intervalStart width b.time) bars :=
  List.le_sum_of_mem (List.mem_map_of_mem ((mem_barsFrom positive).mpr ⟨hb, rfl⟩))

/-! ### Intervals that are not lost -/

/-- The interval of a bar is not lost: its volumes do not add up to a multiple of the word,
which would count as nothing. -/
def Stands (minutes : Nat) (bars : List (Bar α)) (b : Bar α) : Prop :=
  volumeFrom (Candle.width minutes) (intervalStart (Candle.width minutes) b.time) bars % Word.size 64 ≠ 0

instance (minutes : Nat) (bars : List (Bar α)) (b : Bar α) : Decidable (Stands minutes bars b) :=
  inferInstanceAs (Decidable (_ ≠ _))

/-- No interval of some bars is lost. -/
def NoneLost (minutes : Nat) (bars : List (Bar α)) : Prop := ∀ b ∈ bars, Stands minutes bars b

instance (minutes : Nat) (bars : List (Bar α)) : Decidable (NoneLost minutes bars) :=
  inferInstanceAs (Decidable (∀ b ∈ bars, _))

/-- No interval of some bars was ever lost, not for the time until its next bar either. -/
def NeverLost (minutes : Nat) (bars : List (Bar α)) : Prop :=
  ∀ first b, first ++ [b] <+: bars → Stands minutes (first ++ [b]) b

/-- The volumes of every interval add up to a word. -/
def Fits (minutes : Nat) (bars : List (Bar α)) : Prop :=
  ∀ b ∈ bars, volumeFrom (Candle.width minutes) (intervalStart (Candle.width minutes) b.time) bars < Word.size 64

instance (minutes : Nat) (bars : List (Bar α)) : Decidable (Fits minutes bars) :=
  inferInstanceAs (Decidable (∀ b ∈ bars, _))

theorem Fits.head (fits : Fits minutes (bars ++ more)) : Fits minutes bars := by
  intro b hb
  have whole := fits b (List.mem_append_left _ hb)
  rw [volumeFrom_append] at whole
  omega

theorem NeverLost.head (kept : NeverLost minutes (bars ++ more)) : NeverLost minutes bars :=
  fun first b h => kept first b (h.trans (List.prefix_append bars more))

theorem NeverLost.last (kept : NeverLost minutes (bars ++ [b])) : Stands minutes (bars ++ [b]) b :=
  kept bars b List.prefix_rfl

/-- What was never lost is not lost by now: an interval stays as its last bar left it. -/
theorem NeverLost.noneLost (kept : NeverLost minutes bars) : NoneLost minutes bars := by
  induction bars using List.reverseRecOn with
  | nil => exact nofun
  | append_singleton bars b ih =>
    intro a ha
    by_cases same : intervalStart (Candle.width minutes) b.time = intervalStart (Candle.width minutes) a.time
    · have own := kept.last
      rwa [Stands, same] at own
    · have earlier : a ∈ bars := by
        refine (List.mem_append.mp ha).resolve_right fun new => same ?_
        rw [List.mem_singleton.mp new]
      rw [Stands, volumeFrom_concat_of_ne (width_pos minutes) same]
      exact ih kept.head a earlier

/-- Traded volumes that add up to a word are never lost. -/
theorem Fits.neverLost (fits : Fits minutes bars) (traded : ∀ b ∈ bars, b.isTraded = true) :
    NeverLost minutes bars := by
  rintro first b ⟨later, rfl⟩
  have hb : b ∈ first ++ [b] ++ later := by simp
  have small := fits b hb
  have positive : 0 < b.volume := of_decide_eq_true (traded b hb)
  have own := volume_le_volumeFrom (width_pos minutes) (show b ∈ first ++ [b] by simp)
  rw [volumeFrom_append] at small
  rw [Stands, Nat.mod_eq_of_lt (by omega)]
  omega

/-! ### Gathering -/

section Gather
variable [Scalar α]

/-- The candle of the bars of an interval. -/
def ofBars? (start : Int) : List (Bar α) → Option (Candle α)
  | [] => none
  | b :: rest => some (rest.foldl extend (ofBar start b))

theorem ofBars?_concat (start : Int) (group : List (Bar α)) (b : Bar α) :
    ofBars? start (group ++ [b]) = some ((ofBars? start group).elim (ofBar start b) (·.extend b)) := by
  cases group with
  | nil => rfl
  | cons first rest => simp [ofBars?]

/-- Its volume is that of the bars, as far as a word holds it. -/
theorem volume_ofBars (made : ofBars? start group = some c) :
    c.volume % Word.size 64 = (group.map (·.volume)).sum % Word.size 64 := by
  induction group using List.reverseRecOn generalizing c with
  | nil => cases made
  | append_singleton group b ih =>
    rw [ofBars?_concat] at made
    obtain rfl := Option.some.inj made
    cases group with
    | nil => simp [ofBars?, ofBar]
    | cons first rest =>
      have before := ih rfl
      simp only [ofBars?, Option.elim_some, extend, Nat.mod_mod, List.map_append, List.map_singleton,
        List.sum_append, List.sum_singleton]
      rw [Nat.add_mod, before, ← Nat.add_mod]

/-- If a word holds the volume of the bars, it is theirs together. -/
theorem volume_ofBars_of_lt (made : ofBars? start group = some c)
    (small : (group.map (·.volume)).sum < Word.size 64) : c.volume = (group.map (·.volume)).sum := by
  induction group using List.reverseRecOn generalizing c with
  | nil => cases made
  | append_singleton group b ih =>
    rw [ofBars?_concat] at made
    obtain rfl := Option.some.inj made
    simp only [List.map_append, List.map_singleton, List.sum_append, List.sum_singleton] at small ⊢
    cases group with
    | nil => simp [ofBars?, ofBar]
    | cons first rest =>
      have before := ih rfl (by omega)
      simp only [ofBars?, Option.elim_some, extend, before, Nat.mod_eq_of_lt small]

theorem gather_eq (width : Nat) (candles : Table Int (Candle α)) (b : Bar α) : gather width candles b =
    candles.insert (intervalStart width b.time) ((candles.find? (intervalStart width b.time)).elim
      (ofBar (intervalStart width b.time) b) (·.extend b)) := by
  rw [gather, Table.upsert]
  cases candles.find? (intervalStart width b.time) <;> rfl

/-- Each interval gets the candle of its own bars. -/
theorem find?_gathered (width : Nat) (bars : List (Bar α)) (start : Int) :
    (bars.foldl (gather width) Table.empty).find? start =
      ofBars? start (bars.filter fun b => intervalStart width b.time = start) := by
  induction bars using List.reverseRecOn with
  | nil => rfl
  | append_singleton bars b ih =>
    rw [List.foldl_append, List.foldl_cons, List.foldl_nil, gather_eq, Table.find?_insert, List.filter_append]
    by_cases own : intervalStart width b.time = start
    · rw [if_pos own, List.filter_cons_of_pos (by simpa using own), List.filter_nil, ofBars?_concat, own, ih]
    · rw [if_neg own, ih, List.filter_cons_of_neg (by simpa using own), List.filter_nil, List.append_nil]

theorem ascending_gathered (width : Nat) (bars : List (Bar α)) :
    (bars.foldl (gather width) Table.empty).Ascending := by
  induction bars using List.reverseRecOn with
  | nil => exact Table.ascending_empty
  | append_singleton bars b ih =>
    rw [List.foldl_append, List.foldl_cons, List.foldl_nil, gather_eq]
    exact Table.ascending_insert ih _ _

/-- A candle that was gathered is that of the bars of its interval, of which there is one. -/
theorem ofBars?_of_gathered (positive : 0 < width) {e : Int × Candle α}
    (he : e ∈ (bars.foldl (gather width) Table.empty).entries) :
    ∃ b ∈ bars, intervalStart width b.time = e.1 ∧ ofBars? e.1 (barsFrom width e.1 bars) = some e.2 := by
  have made := (Table.find?_eq_some (ascending_gathered width bars)).mpr he
  rw [find?_gathered] at made
  obtain ⟨b, hb⟩ : ∃ b, b ∈ bars.filter fun b => intervalStart width b.time = e.1 := by
    refine List.exists_mem_of_ne_nil _ fun none => ?_
    rw [none] at made
    cases made
  obtain ⟨own, inside⟩ := List.mem_filter.mp hb
  have inside := of_decide_eq_true inside
  rw [filter_intervalStart positive (inside ▸ (within_intervalStart positive b.time).aligned)] at made
  exact ⟨b, own, inside, made⟩

/-- The candle of an interval that is not lost has volume. -/
theorem Stands.volume_pos (stands : Stands minutes bars b)
    (he : (intervalStart (Candle.width minutes) b.time, c) ∈
      (bars.foldl (gather (Candle.width minutes)) Table.empty).entries) : 0 < c.volume := by
  obtain ⟨-, -, -, made⟩ := ofBars?_of_gathered (width_pos minutes) he
  refine Nat.pos_of_ne_zero fun none => stands ?_
  rw [volumeFrom, ← volume_ofBars made, none, Nat.zero_mod]

/-- If no interval is lost, all that was gathered is kept. -/
theorem NoneLost.resample_eq (kept : NoneLost minutes bars) :
    resample bars minutes = (bars.foldl (gather (Candle.width minutes)) Table.empty).values := by
  refine List.filter_eq_self.mpr fun c hc => ?_
  obtain ⟨⟨start, c⟩, he, rfl⟩ := List.mem_map.mp hc
  obtain ⟨b, hb, rfl, -⟩ := ofBars?_of_gathered (width_pos minutes) he
  exact decide_eq_true ((kept b hb).volume_pos he)

end Gather
end TickerBoard.Candle

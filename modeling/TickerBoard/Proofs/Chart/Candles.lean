import Mathlib.Tactic.Ring
import TickerBoard.Proofs.Calendar.TradingDay
import TickerBoard.Proofs.Chart.Gathering

/-! Candles of a history that grows.

The bars of a monitor were all traded, each later than the ones before it. One
more such bar either extends the last candle or begins a new one, so of the
starts of the candles none is lost again (`starts_concat`), unless the volumes
of an interval come to a multiple of the word. From that come the two facts
about a chart that restarts depend on: the last candle is that of the last
bar's interval (`starts_getLast`), and the candle that a divergence may end at
never moves back (`mark_concat`). -/
namespace TickerBoard
variable {α : Type}

/-- Bars that something was traded in, each later than those before it. -/
structure InTurn (bars : List (Bar α)) : Prop where
  traded : ∀ b ∈ bars, b.isTraded = true
  ascending : bars.Pairwise fun a b => a.time.ms < b.time.ms

/-- No two bars in turn are of one time. -/
theorem InTurn.eq_of_time {bars : List (Bar α)} (h : InTurn bars) {a b : Bar α} (ha : a ∈ bars) (hb : b ∈ bars)
    (same : a.time.ms = b.time.ms) : a = b := by
  have apart : bars.Pairwise fun a b => a.time.ms = b.time.ms → a = b :=
    h.ascending.imp fun newer same => absurd same (Int.ne_of_lt newer)
  have flipped : bars.Pairwise (flip fun a b => a.time.ms = b.time.ms → a = b) :=
    h.ascending.imp fun newer same => absurd same.symm (Int.ne_of_lt newer)
  exact List.Pairwise.forall_of_forall_of_flip (fun _ _ _ => rfl) apart flipped ha hb same

theorem inTurn_concat {bars : List (Bar α)} {b : Bar α} :
    InTurn (bars ++ [b]) ↔ InTurn bars ∧ b.isTraded = true ∧ ∀ a ∈ bars, a.time.ms < b.time.ms := by
  constructor
  · rintro ⟨traded, ascending⟩
    obtain ⟨older, -, newer⟩ := List.pairwise_append.mp ascending
    exact ⟨⟨fun a ha => traded a (List.mem_append_left _ ha), older⟩, traded b (by simp),
      fun a ha => newer a ha b (List.mem_singleton.mpr rfl)⟩
  · rintro ⟨⟨traded, ascending⟩, fresh, newer⟩
    refine ⟨fun a ha => ?_, List.pairwise_append.mpr ⟨ascending, List.pairwise_singleton _ _, ?_⟩⟩
    · rcases List.mem_append.mp ha with old | new
      · exact traded a old
      · rwa [List.mem_singleton.mp new]
    · intro a ha b' hb'
      rw [List.mem_singleton.mp hb']
      exact newer a ha

namespace Candle

/-! ### Gathering one more bar -/

/-- The candles of bars in turn: one for each interval with a bar, by time, the last for
the interval of the last bar. -/
structure Laid (width : Nat) (bars : List (Bar α)) (candles : Table Int (Candle α)) : Prop where
  ascending : candles.entries.Pairwise fun a b => a.1 < b.1
  within : ∀ e ∈ candles.entries, Within width e.1 e.2.start
  newest : candles.entries.getLast?.map (·.1) = bars.getLast?.map fun b => intervalStart width b.time

theorem Laid.nil (width : Nat) : Laid width ([] : List (Bar α)) .empty :=
  ⟨.nil, nofun, rfl⟩

theorem start_ofBar {width : Nat} (positive : 0 < width) (b : Bar α) :
    Within width (intervalStart width b.time) (ofBar (intervalStart width b.time) b).start :=
  within_stamp positive b.time

section Gather
variable [Scalar α]

/-- One more bar extends the last candle or begins a new one. -/
theorem gather_cases {width : Nat} (positive : 0 < width) {bars : List (Bar α)}
    {candles : Table Int (Candle α)} (laid : Laid width bars candles) {b : Bar α}
    (newer : ∀ a ∈ bars, a.time.ms < b.time.ms) :
    (∃ older c, candles.entries = older ++ [(intervalStart width b.time, c)] ∧
      (gather width candles b).entries = older ++ [(intervalStart width b.time, c.extend b)]) ∨
    ((∀ e ∈ candles.entries, e.1 < intervalStart width b.time) ∧
      (gather width candles b).entries =
        candles.entries ++ [(intervalStart width b.time, ofBar (intervalStart width b.time) b)]) := by
  have found : ∀ (older : List (Int × Candle α)) rest, (∀ e ∈ older, e.1 < intervalStart width b.time) →
      candles.entries = older ++ rest → (gather width candles b).entries = older ++
        Table.place (intervalStart width b.time) ((Table.lookup (intervalStart width b.time) rest).elim
          (ofBar (intervalStart width b.time) b) (·.extend b)) rest := by
    intro older rest smaller split
    have smaller : ∀ e ∈ older, compare e.1 (intervalStart width b.time) = .lt :=
      fun e he => Int.compare_eq_lt.mpr (smaller e he)
    simp only [gather, Table.upsert, Table.insert, Table.find?, split, Table.lookup_append smaller,
      Table.place_append smaller]
    cases Table.lookup (intervalStart width b.time) rest <;> rfl
  rcases List.eq_nil_or_concat candles.entries with none | ⟨older, ⟨k, c⟩, split⟩
  · refine .inr ⟨by simp [none], ?_⟩
    rw [found [] [] (fun _ h => absurd h List.not_mem_nil) none, none]
    rfl
  · rw [List.concat_eq_append] at split
    obtain ⟨last, hlast, hk⟩ : ∃ last, bars.getLast? = some last ∧ k = intervalStart width last.time := by
      have := laid.newest
      rw [split, List.getLast?_concat, Option.map_some] at this
      obtain ⟨last, h, same⟩ := Option.map_eq_some_iff.mp this.symm
      exact ⟨last, h, same.symm⟩
    have before : ∀ e ∈ older, e.1 < k := by
      intro e he
      have := laid.ascending
      rw [split] at this
      exact (List.pairwise_append.mp this).2.2 e he (k, c) (List.mem_singleton.mpr rfl)
    have reached : k ≤ intervalStart width b.time := by
      rw [hk]
      exact intervalStart_mono width positive (Int.le_of_lt (newer last (List.mem_of_getLast? hlast)))
    rcases Int.lt_or_eq_of_le reached with later | rfl
    · have smaller : ∀ e ∈ candles.entries, e.1 < intervalStart width b.time := by
        intro e he
        rw [split] at he
        rcases List.mem_append.mp he with old | new
        · exact Int.lt_trans (before e old) later
        · rw [List.mem_singleton.mp new]
          exact later
      refine .inr ⟨smaller, ?_⟩
      rw [found candles.entries [] smaller (List.append_nil _).symm]
      rfl
    · refine .inl ⟨older, c, split, ?_⟩
      rw [found older _ before split]
      simp [Table.lookup, Table.place]

theorem Laid.gather {width : Nat} (positive : 0 < width) {bars : List (Bar α)}
    {candles : Table Int (Candle α)} (laid : Laid width bars candles) {b : Bar α}
    (newer : ∀ a ∈ bars, a.time.ms < b.time.ms) : Laid width (bars ++ [b]) (gather width candles b) := by
  rcases gather_cases positive laid newer with ⟨older, c, split, gathered⟩ | ⟨smaller, gathered⟩
  · have last : (intervalStart width b.time, c) ∈ candles.entries := by
      rw [split]
      exact List.mem_append_right _ (List.mem_singleton.mpr rfl)
    have old : ∀ e ∈ older, e ∈ candles.entries := by
      intro e he
      rw [split]
      exact List.mem_append_left _ he
    have ascending := laid.ascending
    rw [split] at ascending
    refine ⟨?_, ?_, ?_⟩ <;> rw [gathered]
    · refine List.pairwise_append.mpr ⟨(List.pairwise_append.mp ascending).1, List.pairwise_singleton _ _, ?_⟩
      intro e he e' he'
      rw [List.mem_singleton.mp he']
      exact (List.pairwise_append.mp ascending).2.2 e he (_, c) (List.mem_singleton.mpr rfl)
    · intro e he
      rcases List.mem_append.mp he with earlier | new
      · exact laid.within e (old e earlier)
      · rw [List.mem_singleton.mp new]
        exact laid.within (_, c) last
    · simp
  · refine ⟨?_, ?_, ?_⟩ <;> rw [gathered]
    · refine List.pairwise_append.mpr ⟨laid.ascending, List.pairwise_singleton _ _, ?_⟩
      intro e he e' he'
      rw [List.mem_singleton.mp he']
      exact smaller e he
    · intro e he
      rcases List.mem_append.mp he with old | new
      · exact laid.within e old
      · rw [List.mem_singleton.mp new]
        exact start_ofBar positive b
    · simp

theorem laid_foldl {width : Nat} (positive : 0 < width) {bars : List (Bar α)} (h : InTurn bars) :
    Laid width bars (bars.foldl (gather width) Table.empty) := by
  induction bars using List.reverseRecOn with
  | nil => exact .nil width
  | append_singleton bars b ih =>
    obtain ⟨before, -, newer⟩ := inTurn_concat.mp h
    rw [List.foldl_append]
    exact (ih before).gather positive newer

/-! ### Where the candles start -/

/-- The starts of the candles of some bars, by time. -/
def starts (bars : List (Bar α)) (minutes : Nat) : List Instant := (resample bars minutes).map (·.start)

/-- One more bar leaves all starts as they are and may add one. -/
theorem starts_concat {bars : List (Bar α)} {b : Bar α} {minutes : Nat} (h : InTurn (bars ++ [b]))
    (kept : NeverLost minutes (bars ++ [b])) :
    starts (bars ++ [b]) minutes = starts bars minutes ∨
      ∃ t, starts (bars ++ [b]) minutes = starts bars minutes ++ [t] := by
  obtain ⟨before, -, newer⟩ := inTurn_concat.mp h
  have laid := laid_foldl (width_pos minutes) before
  rw [starts, starts, kept.noneLost.resample_eq, kept.head.noneLost.resample_eq, List.foldl_append,
    List.foldl_cons, List.foldl_nil, Table.values, Table.values]
  rcases gather_cases (width_pos minutes) laid newer with ⟨older, c, split, gathered⟩ | ⟨-, gathered⟩
  · left
    rw [gathered, split]
    simp [extend]
  · right
    rw [gathered]
    exact ⟨_, by rw [List.map_append, List.map_append]; rfl⟩

theorem starts_ascending {bars : List (Bar α)} (h : InTurn bars) (minutes : Nat) :
    (starts bars minutes).Pairwise fun a b => a.ms < b.ms := by
  have laid := laid_foldl (width_pos minutes) h
  have all : (bars.foldl (gather (width minutes)) Table.empty).values.Pairwise
      fun c c' => c.start.ms < c'.start.ms :=
    List.pairwise_map.mpr <| laid.ascending.imp_of_mem fun ha hb before =>
      (laid.within _ ha).lt_of_lt (laid.within _ hb) before
  exact List.pairwise_map.mpr (all.sublist List.filter_sublist)

/-- The last candle is that of the last bar's interval. -/
theorem starts_getLast {bars : List (Bar α)} {b : Bar α} {minutes : Nat} (h : InTurn (bars ++ [b]))
    (kept : NoneLost minutes (bars ++ [b])) :
    ∃ t, (starts (bars ++ [b]) minutes).getLast? = some t ∧
      Within (width minutes) (intervalStart (width minutes) b.time) t := by
  have laid := laid_foldl (width_pos minutes) h
  obtain ⟨e, last, same⟩ : ∃ e, ((bars ++ [b]).foldl (gather (width minutes)) Table.empty).entries.getLast? =
      some e ∧ e.1 = intervalStart (width minutes) b.time := by
    have := laid.newest
    rw [List.getLast?_concat, Option.map_some] at this
    exact Option.map_eq_some_iff.mp this
  refine ⟨e.2.start, ?_, ?_⟩
  · rw [starts, kept.resample_eq, Table.values, List.map_map, List.getLast?_map, last]
    rfl
  · rw [← same]
    exact laid.within e (List.mem_of_getLast? last)

/-- Of times with the newest first, one further to the front is later. -/
theorem le_of_newestFirst {times : List Instant} (newestFirst : times.Pairwise fun a b => b.ms < a.ms)
    {i j : Nat} (order : i ≤ j) {t : Instant} (ht : times[j]? = some t) :
    ∃ t', times[i]? = some t' ∧ t.ms ≤ t'.ms := by
  obtain ⟨inside, rfl⟩ := List.getElem?_eq_some_iff.mp ht
  refine ⟨times[i], List.getElem?_eq_getElem (by omega), ?_⟩
  rcases Nat.lt_or_eq_of_le order with before | rfl
  · exact Int.le_of_lt (List.pairwise_iff_getElem.mp newestFirst i j (by omega) inside before)
  · exact Int.le_refl _

theorem starts_newestFirst {bars : List (Bar α)} (h : InTurn bars) (minutes : Nat) :
    (starts bars minutes).reverse.Pairwise fun a b => b.ms < a.ms :=
  List.pairwise_reverse.mpr (starts_ascending h minutes)

/-- The start of the candle that a divergence may end at: the third from the end. -/
def mark (bars : List (Bar α)) (minutes : Nat) : Option Instant := (starts bars minutes).reverse[2]?

/-- That candle never moves back. -/
theorem mark_concat {bars : List (Bar α)} {b : Bar α} {minutes : Nat} (h : InTurn (bars ++ [b]))
    (kept : NeverLost minutes (bars ++ [b])) {t : Instant} (ht : mark bars minutes = some t) :
    ∃ t', mark (bars ++ [b]) minutes = some t' ∧ t.ms ≤ t'.ms := by
  rcases starts_concat h kept with same | ⟨new, grown⟩
  · exact ⟨t, by rw [mark, same]; exact ht, Int.le_refl _⟩
  · rw [mark, grown, List.reverse_concat, List.getElem?_cons_succ]
    exact le_of_newestFirst (starts_newestFirst (inTurn_concat.mp h).1 minutes) (by decide) ht

/-- It starts no later than the last candle. -/
theorem mark_le_getLast {bars : List (Bar α)} (h : InTurn bars) {minutes : Nat} {t last : Instant}
    (ht : mark bars minutes = some t) (hlast : (starts bars minutes).getLast? = some last) :
    t.ms ≤ last.ms := by
  obtain ⟨t', first, before⟩ := le_of_newestFirst (starts_newestFirst h minutes) (Nat.zero_le 2) ht
  rw [← List.head?_eq_getElem?, List.head?_reverse, hlast] at first
  obtain rfl := Option.some.inj first
  exact before

end Gather

/-! ### Days -/

/-- A clock whose midnights no interval of some minutes straddles. -/
def Splits (clock : SessionClock) (minutes : Nat) : Prop :=
  width minutes ∣ 86400 ∧ (width minutes : Int) ∣ clock.offset

/-- Instants of one interval are of one day. -/
theorem Splits.day_eq {clock : SessionClock} {minutes : Nat} (splits : Splits clock minutes) {start : Int}
    {t t' : Instant} (h : Within (width minutes) start t) (h' : Within (width minutes) start t')
    {day day' : Day} (ht : clock.day? t = some day) (ht' : clock.day? t' = some day') : day = day' := by
  obtain ⟨⟨perDay, hday⟩, ⟨east, heast⟩⟩ := splits
  obtain ⟨⟨place, hplace⟩, -, -⟩ := id h
  have positive : (0 : Int) < width minutes * 1000 := by
    have := width_pos minutes
    omega
  -- The days count the intervals of local time, so many to a day.
  have number : ∀ {t : Instant} {day : Day}, Within (width minutes) start t → clock.day? t = some day →
      day.number = (place + east) / perDay := by
    intro t day within ht
    simp only [SessionClock.day?, Option.ite_none_right_eq_some, Option.some.injEq] at ht
    obtain ⟨-, rfl⟩ := ht
    have split : Instant.msPerDay = (width minutes * 1000 : Int) * perDay := by
      have : (86400 : Int) = width minutes * perDay := by exact_mod_cast hday
      rw [Int.mul_right_comm, ← this]
      rfl
    have interval : (clock.wallTime t).ms / (width minutes * 1000 : Int) = place + east := by
      rw [Int.ediv_eq_iff_of_pos positive]
      have := within.first
      have := within.last
      have expanded : (place + east) * (width minutes * 1000 : Int) = (start + clock.offset) * 1000 := by
        rw [hplace, heast]
        ring
      simp only [SessionClock.wallTime, expanded]
      omega
    rw [split, ← Int.ediv_ediv_of_nonneg (Int.le_of_lt positive), interval]
  have := (number h ht).trans (number h' ht').symm
  cases day
  cases day'
  exact congrArg Day.mk this

/-- A later instant is of no earlier day. -/
theorem day_mono {clock : SessionClock} {t t' : Instant} (h : t.ms ≤ t'.ms) {day day' : Day}
    (ht : clock.day? t = some day) (ht' : clock.day? t' = some day') : day.number ≤ day'.number := by
  rw [← SessionClock.dayOf_eq ht, ← SessionClock.dayOf_eq ht']
  exact clock.dayOf_mono h

end Candle
end TickerBoard

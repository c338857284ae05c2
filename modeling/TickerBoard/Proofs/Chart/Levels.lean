import Mathlib.Algebra.Order.BigOperators.Group.List
import Mathlib.Algebra.Order.Field.Basic
import Mathlib.Algebra.Order.Ring.Unbundled.Rat
import Mathlib.Algebra.BigOperators.Ring.List
import Mathlib.Data.List.Forall2
import Mathlib.Tactic.Linarith
import TickerBoard.Chart.Levels
import TickerBoard.Proofs.Scalar

/-! Price levels in exact arithmetic.

The sweep keeps two facts about the level it has come to. Its price is an average by
weight, so it lies between the level before the last swing and that swing
(`absorb_between`): no level ever falls back below where it began, and none passes a
swing that is still to come. So the levels rise, each by the tolerance at least
(`sweep_apart`). And the level is what the swings absorbed so far come to (`Gathers`),
so the swings split into the groups of the levels, without loss (`sweep_gathers`). -/
namespace TickerBoard

namespace PriceLevel
variable {tolerance : Rat} {level swing : PriceLevel Rat} {group rest : List (PriceLevel Rat)}

/-! ### One swing -/

theorem near_iff : near tolerance level swing = true ↔ |swing.price - level.price| < tolerance := by
  rw [near, decide_eq_true_iff, Scalar.rat_abs]

theorem absorb_price (level swing : PriceLevel Rat) : (level.absorb swing).price =
    (level.price * level.weight + swing.price * swing.weight) / (level.weight + swing.weight) := rfl

theorem absorb_weight (level swing : PriceLevel Rat) :
    (level.absorb swing).weight = level.weight + swing.weight := rfl

theorem absorb_anchor (level swing : PriceLevel Rat) : (level.absorb swing).anchor =
    if swing.anchor.ms < level.anchor.ms then swing.anchor else level.anchor := rfl

/-- A level that absorbs a swing moves towards it, and not past it. -/
theorem absorb_between (heavy : 0 < level.weight) (heavy' : 0 < swing.weight) (rising : level.price ≤ swing.price) :
    level.price ≤ (level.absorb swing).price ∧ (level.absorb swing).price ≤ swing.price := by
  rw [absorb_price, le_div_iff₀ (by linarith), div_le_iff₀ (by linarith)]
  have low := mul_le_mul_of_nonneg_right rising (le_of_lt heavy')
  have high := mul_le_mul_of_nonneg_right rising (le_of_lt heavy)
  constructor <;> linarith

theorem counts_iff : level.counts = true ↔ 1 / 1000000 < level.weight := decide_eq_true_iff

theorem weight_pos (h : level.counts = true) : 0 < level.weight :=
  lt_trans (by norm_num) (counts_iff.mp h)

/-- Among levels of no negative weight none weighs more than all together. -/
theorem weight_le_sum {levels : List (PriceLevel Rat)} (nonneg : ∀ l ∈ levels, 0 ≤ l.weight) (hl : level ∈ levels) :
    level.weight ≤ (levels.map (·.weight)).sum := by
  refine List.single_le_sum (fun w hw => ?_) _ (List.mem_map_of_mem hl)
  obtain ⟨l, hl, rfl⟩ := List.mem_map.mp hw
  exact nonneg l hl

/-! ### The sweep -/

/-- Swings in rising order of their prices, each of a weight that counts. -/
structure Swept (swings : List (PriceLevel Rat)) : Prop where
  rising : swings.Pairwise fun a b => a.price ≤ b.price
  counted : ∀ s ∈ swings, s.counts = true

/-- The second price lies the distance or more above the first, and not below it. -/
def Apart (distance : Rat) (a b : PriceLevel Rat) : Prop :=
  a.price ≤ b.price ∧ distance ≤ b.price - a.price

/-- The levels from one on rise, any two of them by the tolerance. -/
theorem sweep_apart (heavy : 0 < level.weight) (counted : ∀ s ∈ rest, s.counts = true)
    (rising : (level :: rest).Pairwise fun a b => a.price ≤ b.price) :
    (sweep tolerance level rest).Pairwise (Apart tolerance) ∧
      ∀ l ∈ sweep tolerance level rest, level.price ≤ l.price := by
  induction rest generalizing level with
  | nil => simp [sweep]
  | cons swing rest ih =>
    obtain ⟨own, counted⟩ := List.forall_mem_cons.mp counted
    obtain ⟨first, later⟩ := List.pairwise_cons.mp rising
    have next : level.price ≤ swing.price := first swing (List.mem_cons_self ..)
    rw [sweep]
    split
    · obtain ⟨up, upTo⟩ := absorb_between heavy (weight_pos own) next
      have beyond : (level.absorb swing :: rest).Pairwise fun a b => a.price ≤ b.price :=
        List.pairwise_cons.mpr ⟨fun s hs => upTo.trans ((List.pairwise_cons.mp later).1 s hs),
          (List.pairwise_cons.mp later).2⟩
      obtain ⟨apart, above⟩ := ih (add_pos heavy (weight_pos own)) counted beyond
      exact ⟨apart, fun l hl => up.trans (above l hl)⟩
    · rename_i far
      obtain ⟨apart, above⟩ := ih (weight_pos own) counted later
      rw [near_iff, not_lt, abs_of_nonneg (sub_nonneg.mpr next)] at far
      refine ⟨List.pairwise_cons.mpr ⟨fun l hl => ?_, apart⟩, List.forall_mem_cons.mpr ⟨le_refl _, fun l hl => ?_⟩⟩
      · exact ⟨next.trans (above l hl), far.trans (sub_le_sub_right (above l hl) _)⟩
      · exact next.trans (above l hl)

theorem merged_apart {swings : List (PriceLevel Rat)} (swept : Swept swings) :
    (merged tolerance swings).Pairwise (Apart tolerance) := by
  cases swings with
  | nil => exact .nil
  | cons swing rest =>
    obtain ⟨own, counted⟩ := List.forall_mem_cons.mp swept.counted
    exact (sweep_apart (weight_pos own) counted swept.rising).1

/-! ### The groups of the levels -/

/-- A level is what a group of swings comes to: it has their whole weight, their average
price by weight, which lies between two of theirs, and the earliest of their times. -/
structure Gathers (group : List (PriceLevel Rat)) (level : PriceLevel Rat) : Prop where
  ne_nil : group ≠ []
  weight : level.weight = (group.map (·.weight)).sum
  price : level.price = (group.map fun s => s.price * s.weight).sum / (group.map (·.weight)).sum
  least : ∃ s ∈ group, s.price ≤ level.price
  greatest : ∃ s ∈ group, level.price ≤ s.price
  anchor : ∃ s ∈ group, s.anchor = level.anchor
  earliest : ∀ s ∈ group, level.anchor.ms ≤ s.anchor.ms

/-- A swing is the level of itself. -/
theorem gathers_single (heavy : 0 < swing.weight) : Gathers [swing] swing where
  ne_nil := by simp
  weight := by simp
  price := by simp [mul_div_cancel_right₀ _ (ne_of_gt heavy)]
  least := ⟨swing, by simp, le_refl _⟩
  greatest := ⟨swing, by simp, le_refl _⟩
  anchor := ⟨swing, by simp, rfl⟩
  earliest := by simp

theorem Gathers.absorb (h : Gathers group level) (heavy : 0 < level.weight) (heavy' : 0 < swing.weight)
    (rising : level.price ≤ swing.price) : Gathers (group ++ [swing]) (level.absorb swing) := by
  obtain ⟨up, upTo⟩ := absorb_between heavy heavy' rising
  have mass : level.price * level.weight = (group.map fun s => s.price * s.weight).sum := by
    rw [h.price, ← h.weight, div_mul_cancel₀ _ (ne_of_gt heavy)]
  refine ⟨by simp, ?_, ?_, ?_, ⟨swing, by simp, upTo⟩, ?_, ?_⟩
  · simp [absorb_weight, h.weight]
  · rw [absorb_price, mass, h.weight]
    simp
  · obtain ⟨s, hs, below⟩ := h.least
    exact ⟨s, List.mem_append_left _ hs, below.trans up⟩
  · rw [absorb_anchor]
    split
    · exact ⟨swing, by simp, rfl⟩
    · obtain ⟨s, hs, same⟩ := h.anchor
      exact ⟨s, List.mem_append_left _ hs, same⟩
  · intro s hs
    rw [absorb_anchor]
    rcases List.mem_append.mp hs with old | new
    · have := h.earliest s old
      split <;> omega
    · rw [List.mem_singleton.mp new]
      split <;> omega

theorem Gathers.counted (h : Gathers group level) (counted : ∀ s ∈ group, s.counts = true) :
    level.counts = true := by
  obtain ⟨s, hs, -⟩ := h.anchor
  rw [counts_iff, h.weight]
  calc 1 / 1000000 < s.weight := counts_iff.mp (counted s hs)
    _ ≤ (group.map (·.weight)).sum := weight_le_sum (fun s hs => le_of_lt (weight_pos (counted s hs))) hs

/-- The swings that a level has absorbed and those still to come split into the groups of
the levels, the first of which the level begins. -/
theorem sweep_gathers (h : Gathers group level) (swept : Swept (group ++ rest)) :
    ∃ groups, groups.flatten = group ++ rest ∧ List.Forall₂ Gathers groups (sweep tolerance level rest) := by
  induction rest generalizing group level with
  | nil => exact ⟨[group], by simp, .cons h .nil⟩
  | cons swing rest ih =>
    have own : 0 < swing.weight := weight_pos (swept.counted swing (by simp))
    rw [sweep]
    split
    · have heavy : 0 < level.weight :=
        weight_pos (h.counted fun s hs => swept.counted s (List.mem_append_left _ hs))
      obtain ⟨s, hs, above⟩ := h.greatest
      have rising := (List.pairwise_append.mp swept.rising).2.2 s hs swing (List.mem_cons_self ..)
      have more := h.absorb heavy own (above.trans rising)
      have split : group ++ swing :: rest = (group ++ [swing]) ++ rest := by simp
      rw [split] at swept ⊢
      exact ih more swept
    · obtain ⟨groups, whole, gathered⟩ := ih (gathers_single own)
        ⟨(List.pairwise_append.mp swept.rising).2.1, fun s hs => swept.counted s (List.mem_append_right _ hs)⟩
      exact ⟨group :: groups, by rw [List.flatten_cons, whole]; rfl, .cons h gathered⟩

theorem merged_gathers (tolerance : Rat) {swings : List (PriceLevel Rat)} (swept : Swept swings) :
    ∃ groups, groups.flatten = swings ∧ List.Forall₂ Gathers groups (merged tolerance swings) := by
  cases swings with
  | nil => exact ⟨[], rfl, .nil⟩
  | cons swing rest =>
    exact sweep_gathers (gathers_single (weight_pos (swept.counted swing (List.mem_cons_self ..)))) swept

/-- Groups whose swings all count make levels that count. -/
theorem counted_of_gathers {groups : List (List (PriceLevel Rat))} {levels : List (PriceLevel Rat)}
    (gathered : List.Forall₂ Gathers groups levels) (counted : ∀ s ∈ groups.flatten, s.counts = true) :
    ∀ l ∈ levels, l.counts = true := by
  induction gathered with
  | nil => exact nofun
  | cons own _ ih =>
    rw [List.flatten_cons, List.forall_mem_append] at counted
    exact List.forall_mem_cons.mpr ⟨own.counted counted.1, ih counted.2⟩

/-- The levels weigh what all swings weigh. -/
theorem sum_weight_of_gathers {groups : List (List (PriceLevel Rat))} {levels : List (PriceLevel Rat)}
    (gathered : List.Forall₂ Gathers groups levels) :
    (levels.map (·.weight)).sum = (groups.flatten.map (·.weight)).sum := by
  induction gathered with
  | nil => rfl
  | cons own _ ih => simp [own.weight, ih]

end PriceLevel

namespace Levels
open PriceLevel (Apart Gathers Swept)
variable (rules : LevelRules Rat) (order : Nat) (start : Instant) (series : List (Candle Rat))

/-! ### The swings of a series -/

/-- The total age of the turns of a series. -/
def totalAge : Rat := ((turns order series).map (age start)).sum

/-- A turn as a swing, whose weight is its share of the total age. -/
def weighed (t : Turn Rat) : PriceLevel Rat := ⟨t.2, age start t / totalAge order start series, t.1.start⟩

theorem swings_eq : swings order start series =
    if totalAge order start series ≤ 0 then []
    else (((turns order series).map (weighed order start series)).filter PriceLevel.counts).mergeSort
      fun a b => a.price ≤ b.price := by
  have total : Scalar.sum ((turns order series).map (age start)) = totalAge order start series :=
    List.sum_eq_foldl.symm
  rw [swings, total]
  rfl

/-- The swings are those of the turns that count, by price. -/
theorem swings_perm (aged : 0 < totalAge order start series) : (swings order start series).Perm
    (((turns order series).map (weighed order start series)).filter PriceLevel.counts) := by
  rw [swings_eq, if_neg (not_le.mpr aged)]
  exact List.mergeSort_perm _ _

theorem swept_swings : Swept (swings order start series) := by
  rw [swings_eq]
  split
  · exact ⟨.nil, nofun⟩
  · refine ⟨?_, fun s hs => (List.mem_filter.mp ((List.mergeSort_perm _ _).mem_iff.mp hs)).2⟩
    have sorted : ∀ swings : List (PriceLevel Rat), (swings.mergeSort fun a b => a.price ≤ b.price).Pairwise
        fun a b => decide (a.price ≤ b.price) = true :=
      List.pairwise_mergeSort
        (fun _ _ _ h h' => decide_eq_true (le_trans (of_decide_eq_true h) (of_decide_eq_true h')))
        fun a b => by simpa using le_total a.price b.price
    exact (sorted _).imp of_decide_eq_true

/-- No level is dropped at the end: each has the weight of a swing at least. -/
theorem ofSeries_eq (first : Candle Rat) (more : List (Candle Rat)) : ofSeries rules (first :: more) =
    PriceLevel.merged (tolerance rules (first :: more)) (swings rules.order first.start (first :: more)) := by
  have swept := swept_swings rules.order first.start (first :: more)
  obtain ⟨groups, whole, gathered⟩ := PriceLevel.merged_gathers (tolerance rules (first :: more)) swept
  exact List.filter_eq_self.mpr (PriceLevel.counted_of_gathers gathered (whole ▸ swept.counted))

/-- **Price levels are sorted and spaced.** Whatever the highs and lows of a series, the
order and the tolerance ratio: of any two levels the later one is not below the other, and
lies above it by the tolerance or more. With a positive tolerance the prices strictly rise.
The tolerance is the ratio of the range from the lowest low to the highest high. -/
theorem sorted_and_spaced :
    ((ofSeries rules series).Pairwise fun a b =>
      a.price ≤ b.price ∧ tolerance rules series ≤ b.price - a.price) ∧
    (0 < tolerance rules series → (ofSeries rules series).Pairwise fun a b => a.price < b.price) ∧
    ∀ top bottom, IsGreatest {p | ∃ c ∈ series, c.high = p} top → IsLeast {p | ∃ c ∈ series, c.low = p} bottom →
      tolerance rules series = (top - bottom) * rules.tolerance := by
  have apart : (ofSeries rules series).Pairwise (Apart (tolerance rules series)) := by
    cases series with
    | nil => exact .nil
    | cons first more =>
      rw [ofSeries_eq]
      exact PriceLevel.merged_apart (swept_swings ..)
  refine ⟨apart, fun positive => apart.imp fun h => ?_, fun top bottom greatest least => ?_⟩
  · exact sub_pos.mp (lt_of_lt_of_le positive h.2)
  · obtain ⟨c, hc, -⟩ := greatest.1
    have some : series ≠ [] := List.ne_nil_of_mem hc
    have highs := Scalar.isGreatest_highest (mt List.map_eq_nil_iff.mp some : series.map (·.high) ≠ [])
    have lows := Scalar.isLeast_lowest (mt List.map_eq_nil_iff.mp some : series.map (·.low) ≠ [])
    simp only [List.mem_map] at highs lows
    rw [tolerance, highs.unique greatest, lows.unique least]

/-! ### Weights -/

variable {rules order start series}

/-- A turn is of a candle of the series. -/
theorem mem_turns {t : Turn Rat} (h : t ∈ turns order series) : t.1 ∈ series := by
  have listed : ∀ (side : Extrema.Side) (price : Candle Rat → Rat), ∀ e ∈ turnsOf side order price series,
      e.2.1 ∈ series := by
    intro side price e he
    obtain ⟨i, -, made⟩ := List.mem_filterMap.mp he
    obtain ⟨c, own, rfl⟩ := Option.map_eq_some_iff.mp made
    exact List.mem_of_getElem? (List.getElem?_toArray ▸ own)
  obtain ⟨e, he, rfl⟩ := List.mem_map.mp h
  rcases List.mem_append.mp ((List.mergeSort_perm _ _).mem_iff.mp he) with low | high
  · exact listed _ _ e low
  · exact listed _ _ e high

/-- No candle of a series in order is older than its first. -/
theorem age_nonneg {first : Candle Rat} {more : List (Candle Rat)}
    (ordered : (first :: more).Pairwise fun a b => a.start.ms ≤ b.start.ms) {t : Turn Rat}
    (h : t ∈ turns order (first :: more)) : 0 ≤ age first.start t := by
  have later : first.start.ms ≤ t.1.start.ms := by
    rcases List.mem_cons.mp (mem_turns h) with same | behind
    · rw [same]
    · exact (List.pairwise_cons.mp ordered).1 _ behind
  exact Int.cast_nonneg (Int.tdiv_nonneg (by omega) (by decide))

/-- Of all turns the shares make up one. -/
theorem sum_weighed (aged : 0 < totalAge order start series) :
    (((turns order series).map (weighed order start series)).map (·.weight)).sum = 1 := by
  have shares : ((turns order series).map (weighed order start series)).map (·.weight) =
      (turns order series).map fun t => age start t * (totalAge order start series)⁻¹ := by
    simp [weighed, div_eq_mul_inv]
  rw [shares, List.sum_map_mul_right]
  exact mul_inv_cancel₀ (ne_of_gt aged)

/-- The swings make up one at most, and one if only turns without age are left out. -/
theorem sum_swings (aged : 0 < totalAge order start series)
    (ages : ∀ t ∈ turns order series, 0 ≤ age start t) :
    ((swings order start series).map (·.weight)).sum ≤ 1 ∧
      ((∀ t ∈ turns order series, 0 < age start t → (weighed order start series t).counts = true) →
        ((swings order start series).map (·.weight)).sum = 1) := by
  have shares : ∀ s ∈ (turns order series).map (weighed order start series), 0 ≤ s.weight := by
    intro s hs
    obtain ⟨t, ht, rfl⟩ := List.mem_map.mp hs
    exact div_nonneg (ages t ht) (le_of_lt aged)
  rw [((swings_perm order start series aged).map _).sum_eq, ← sum_weighed aged]
  refine ⟨?_, fun kept => ?_⟩
  · refine (List.filter_sublist.map _).sum_le_sum fun w hw => ?_
    obtain ⟨s, hs, rfl⟩ := List.mem_map.mp hw
    exact shares s hs
  · have parts := ((List.filter_append_perm PriceLevel.counts
      ((turns order series).map (weighed order start series))).map (·.weight)).sum_eq
    rw [List.map_append, List.sum_append] at parts
    rw [← parts, left_eq_add]
    refine List.sum_eq_zero fun w hw => ?_
    obtain ⟨s, hs, rfl⟩ := List.mem_map.mp hw
    obtain ⟨dropped, light⟩ := List.mem_filter.mp hs
    obtain ⟨t, ht, rfl⟩ := List.mem_map.mp dropped
    have ageless : ¬ 0 < age start t := fun older => by
      rw [kept t ht older] at light
      cases light
    have none : age start t = 0 := le_antisymm (not_lt.mp ageless) (ages t ht)
    rw [weighed, none, zero_div]

/-- **Clustering conserves its swings.** In a series in order whose turns have some age
together, the swings of more than a millionth of the weight, by price, split into
neighbouring groups, one for each level: the level has the group's weight, its average price
by weight, which lies within the group's, and its earliest time. No level weighs more than
one, nor do all levels together; they weigh one if every turn of some age counts. -/
theorem clusters_conserve (rules : LevelRules Rat) {first : Candle Rat} {more : List (Candle Rat)}
    (ordered : (first :: more).Pairwise fun a b => a.start.ms ≤ b.start.ms)
    (aged : 0 < totalAge rules.order first.start (first :: more)) :
    ∃ (swings : List (PriceLevel Rat)) (groups : List (List (PriceLevel Rat))),
      swings.Pairwise (fun a b => a.price ≤ b.price) ∧
      swings.Perm (((turns rules.order (first :: more)).map
        (weighed rules.order first.start (first :: more))).filter fun s => 1 / 1000000 < s.weight) ∧
      groups.flatten = swings ∧ List.Forall₂ Gathers groups (ofSeries rules (first :: more)) ∧
      (∀ l ∈ ofSeries rules (first :: more), 0 < l.weight ∧ l.weight ≤ 1) ∧
      ((ofSeries rules (first :: more)).map (·.weight)).sum ≤ 1 ∧
      ((∀ t ∈ turns rules.order (first :: more), 0 < age first.start t →
          1 / 1000000 < (weighed rules.order first.start (first :: more) t).weight) →
        ((ofSeries rules (first :: more)).map (·.weight)).sum = 1) := by
  have swept := swept_swings rules.order first.start (first :: more)
  obtain ⟨groups, whole, gathered⟩ := PriceLevel.merged_gathers (tolerance rules (first :: more)) swept
  rw [← ofSeries_eq] at gathered
  have positive : ∀ l ∈ ofSeries rules (first :: more), 0 < l.weight := fun l hl =>
    PriceLevel.weight_pos (PriceLevel.counted_of_gathers gathered (whole ▸ swept.counted) l hl)
  have same := PriceLevel.sum_weight_of_gathers gathered
  obtain ⟨most, all⟩ := sum_swings aged fun t => age_nonneg ordered
  rw [← whole, ← same] at most all
  refine ⟨_, groups, swept.rising, swings_perm _ _ _ aged, whole, gathered, fun l hl => ⟨positive l hl, ?_⟩, most,
    fun kept => all fun t ht older => PriceLevel.counts_iff.mpr (kept t ht older)⟩
  exact (PriceLevel.weight_le_sum (fun l hl => le_of_lt (positive l hl)) hl).trans most

/-! ### A series with near swings -/

/-- A candle of a minute. -/
def minuteCandle (minute : Nat) (high low : Rat) : Candle Rat :=
  ⟨⟨minute * 60000⟩, low, high, low, high, 1, none, none⟩

/-- Peaks at 20 and 40 and valleys at 12, 10 and 11. -/
def zigzag : List (Candle Rat) :=
  [minuteCandle 0 15 12, minuteCandle 1 20 15, minuteCandle 2 14 10, minuteCandle 3 40 35, minuteCandle 4 30 11]

theorem turns_zigzag : turns 1 zigzag = zigzag.zip [12, 20, 10, 40, 11] := by
  have lows : turnsOf .minimum 1 (·.low) zigzag =
      [(0, minuteCandle 0 15 12, 12), (2, minuteCandle 2 14 10, 10), (4, minuteCandle 4 30 11, 11)] := by
    decide +kernel
  have highs : turnsOf .maximum 1 (·.high) zigzag =
      [(1, minuteCandle 1 20 15, 20), (3, minuteCandle 3 40 35, 40)] := by
    decide +kernel
  rw [turns, lows, highs]
  simp [List.mergeSort, zigzag]

theorem totalAge_zigzag : totalAge 1 ⟨0⟩ zigzag = 600 := by
  rw [totalAge, turns_zigzag]
  decide +kernel

theorem weighed_zigzag : weighed 1 ⟨0⟩ zigzag = fun t => ⟨t.2, age ⟨0⟩ t / 600, t.1.start⟩ := by
  rw [← totalAge_zigzag]
  rfl

theorem swings_zigzag : swings 1 ⟨0⟩ zigzag =
    [⟨10, 1 / 5, ⟨120000⟩⟩, ⟨11, 2 / 5, ⟨240000⟩⟩, ⟨20, 1 / 10, ⟨60000⟩⟩, ⟨40, 3 / 10, ⟨180000⟩⟩] := by
  have counted : ((turns 1 zigzag).map (weighed 1 ⟨0⟩ zigzag)).filter PriceLevel.counts =
      [⟨20, 1 / 10, ⟨60000⟩⟩, ⟨10, 1 / 5, ⟨120000⟩⟩, ⟨40, 3 / 10, ⟨180000⟩⟩, ⟨11, 2 / 5, ⟨240000⟩⟩] := by
    rw [weighed_zigzag, turns_zigzag]
    decide +kernel
  rw [swings_eq, counted, totalAge_zigzag, if_neg (by decide)]
  norm_num [List.mergeSort, List.merge]

theorem sorted_and_spaced_zigzag :
    0 < tolerance ⟨1, 1 / 10⟩ zigzag ∧
      (ofSeries ⟨1, 1 / 10⟩ zigzag).map (·.price) = [32 / 3, 20, 40] ∧
      (ofSeries ⟨1, 1 / 10⟩ zigzag).Pairwise fun a b => a.price < b.price := by
  have positive : 0 < tolerance ⟨1, 1 / 10⟩ zigzag := by decide +kernel
  have levels : ofSeries ⟨1, 1 / 10⟩ zigzag =
      PriceLevel.merged (tolerance ⟨1, 1 / 10⟩ zigzag) (swings 1 ⟨0⟩ zigzag) := ofSeries_eq _ _ _
  refine ⟨positive, ?_, (sorted_and_spaced ⟨1, 1 / 10⟩ zigzag).2.1 positive⟩
  rw [levels, swings_zigzag]
  decide +kernel

theorem clusters_conserve_zigzag :
    (zigzag.Pairwise fun a b => a.start.ms ≤ b.start.ms) ∧ 0 < totalAge 1 ⟨0⟩ zigzag ∧
      ((ofSeries ⟨1, 1 / 10⟩ zigzag).map (·.weight)).sum = 1 ∧
      ∃ groups : List (List (PriceLevel Rat)), groups.flatten.length = 4 ∧
        List.Forall₂ Gathers groups (ofSeries ⟨1, 1 / 10⟩ zigzag) := by
  have ordered : zigzag.Pairwise fun a b => a.start.ms ≤ b.start.ms := by decide
  have aged : 0 < totalAge 1 ⟨0⟩ zigzag := by
    rw [totalAge_zigzag]
    decide
  have kept : ∀ t ∈ turns 1 zigzag, 0 < age ⟨0⟩ t → 1 / 1000000 < (weighed 1 ⟨0⟩ zigzag t).weight := by
    rw [turns_zigzag, weighed_zigzag]
    decide +kernel
  obtain ⟨swings, groups, -, perm, whole, gathered, -, -, all⟩ := clusters_conserve ⟨1, 1 / 10⟩ ordered aged
  refine ⟨ordered, aged, all kept, groups, ?_, gathered⟩
  have counted : swings.length = (((turns 1 zigzag).map (weighed 1 ⟨0⟩ zigzag)).filter _).length := perm.length_eq
  rw [whole, counted, turns_zigzag, weighed_zigzag]
  decide +kernel

end Levels
end TickerBoard

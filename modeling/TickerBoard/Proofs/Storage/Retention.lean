import TickerBoard.Storage.Files
import TickerBoard.Proofs.Storage.Series

/-! What a retention leaves of a series of bars.

A retention counts back from the newest time that bars were saved at. Dropping
what it does not reach before more bars are merged makes no difference to what
is left after them (`recent_merge`): the newest bar is never dropped, and what
was out of reach once stays so. -/
namespace TickerBoard

/-- The newest of some times, in milliseconds. -/
def newest (times : List Instant) : Option Int := (times.map Instant.ms).max?

/-- A retention reaches back to an instant from the newest of some times. -/
def reaches (retention : Option Int) (times : List Instant) (t : Instant) : Bool :=
  match retention, newest times with
  | some keep, some n => n - keep ≤ t.ms
  | _, _ => true

theorem newest_eq_some {times : List Instant} {n : Int} :
    newest times = some n ↔ (∃ u ∈ times, u.ms = n) ∧ ∀ u ∈ times, u.ms ≤ n := by
  rw [newest, List.max?_eq_some_iff, List.mem_map, List.forall_mem_map]

theorem exists_newest {times : List Instant} {u : Instant} (h : u ∈ times) :
    ∃ v ∈ times, newest times = some v.ms ∧ ∀ u ∈ times, u.ms ≤ v.ms := by
  cases found : newest times with
  | none =>
    rw [newest, List.max?_eq_none_iff, List.map_eq_nil_iff] at found
    rw [found] at h
    cases h
  | some n =>
    obtain ⟨⟨v, listed, rfl⟩, greatest⟩ := newest_eq_some.mp found
    exact ⟨v, listed, rfl, greatest⟩

theorem reaches_iff {retention : Option Int} {times : List Instant} {t : Instant} :
    reaches retention times t = true ↔ ∀ keep ∈ retention, ∀ u ∈ times, u.ms - keep ≤ t.ms := by
  cases retention with
  | none => exact ⟨fun _ => nofun, fun _ => rfl⟩
  | some keep =>
    cases found : newest times with
    | none =>
      rw [newest, List.max?_eq_none_iff, List.map_eq_nil_iff] at found
      subst found
      exact ⟨fun _ _ _ => nofun, fun _ => rfl⟩
    | some n =>
      obtain ⟨⟨v, listed, rfl⟩, greatest⟩ := newest_eq_some.mp found
      simp only [reaches, found, decide_eq_true_iff, Option.mem_def, Option.some.injEq, forall_eq']
      exact ⟨fun h u hu => by have := greatest u hu; omega, fun h => h v listed⟩

theorem reaches_congr {retention : Option Int} {times times' : List Instant} (same : newest times = newest times')
    (t : Instant) : reaches retention times t = reaches retention times' t := by
  unfold reaches
  rw [same]

/-- Times that others are all newer than do not count. -/
theorem newest_congr {times more : List Instant} (included : ∀ u ∈ times, u ∈ more)
    (outdone : ∀ u ∈ more, ∃ v ∈ times, u.ms ≤ v.ms) : newest times = newest more := by
  cases more with
  | nil => rw [List.eq_nil_iff_forall_not_mem.mpr fun u hu => nomatch included u hu]
  | cons u rest =>
    obtain ⟨v, listed, found, greatest⟩ := exists_newest (List.mem_cons_self (a := u) (l := rest))
    obtain ⟨w, kept, newer⟩ := outdone v listed
    rw [found, newest_eq_some]
    exact ⟨⟨w, kept, Int.le_antisymm (greatest w (included w kept)) newer⟩, fun u hu => greatest u (included u hu)⟩

namespace BarSeries

/-! ### The times of a series -/

theorem mem_keys {series : BarSeries} (h : series.Ascending) {t : Instant} :
    t ∈ series.keys ↔ ∃ b, series.find? t = some b := by
  simp only [Table.keys, List.mem_map, Table.find?_eq_some h]
  constructor
  · rintro ⟨e, he, rfl⟩
    exact ⟨e.2, he⟩
  · rintro ⟨b, hb⟩
    exact ⟨_, hb, rfl⟩

theorem keys_eq {series : BarSeries} (h : series.Filed) : series.keys = series.values.map (·.time) := by
  rw [Table.keys, Table.values, List.map_map]
  exact List.map_congr_left h.keyed

theorem mem_keys_merge {series : BarSeries} (h : series.Filed) {bars : List (Bar Float)} {t : Instant} :
    t ∈ (series.merge bars).keys ↔ t ∈ series.keys ∨ t ∈ bars.map (·.time) := by
  rw [mem_keys (filed_merge h bars).ascending, mem_keys h.ascending, find?_merge, List.mem_map]
  constructor
  · rintro ⟨b, found⟩
    cases last : lastAt t bars with
    | some c => exact .inr ⟨c, lastAt_eq_some last⟩
    | none =>
      rw [last, Option.none_or] at found
      exact .inl ⟨b, found⟩
  · rintro (⟨b, old⟩ | ⟨b, new, rfl⟩)
    · rw [old]
      cases lastAt t bars <;> exact ⟨_, rfl⟩
    · obtain ⟨c, last⟩ := lastAt_isSome new
      exact ⟨c, by rw [last, Option.some_or]⟩

theorem mem_of_mem_merge {bars : List (Bar Float)} {b : Bar Float} (h : b ∈ (merge .empty bars).values) : b ∈ bars := by
  have found := (mem_values (filed_merge filed_empty bars)).mp h
  rw [find?_merge, Table.find?_empty, Option.or_none] at found
  exact (lastAt_eq_some found).1

/-- The newest of all bars that came is in the series. -/
theorem newest_merge_empty (bars : List (Bar Float)) :
    newest (merge .empty bars).keys = newest (bars.map (·.time)) := by
  have keys : ∀ t, t ∈ (merge .empty bars).keys ↔ t ∈ bars.map (·.time) := fun t => by
    rw [mem_keys_merge filed_empty]
    exact or_iff_right nofun
  exact newest_congr (fun u hu => (keys u).mp hu) fun u hu => ⟨u, (keys u).mpr hu, Int.le_refl _⟩

/-- Of the bars that came for a time, only the last counts. -/
theorem merge_empty_congr {bars bars' : List (Bar Float)} (same : ∀ t, lastAt t bars = lastAt t bars') :
    merge .empty bars = merge .empty bars' :=
  Table.ext_find? (filed_merge filed_empty bars).ascending (filed_merge filed_empty bars').ascending fun t => by
    rw [find?_merge, find?_merge, same]

/-- A series of bars is what its list makes. -/
theorem merge_values {series : BarSeries} (h : series.Filed) : merge .empty series.values = series := by
  have entries : series.values.foldl (fun s b => s.insert b.time b) (.empty : BarSeries) =
      Table.ofList series.entries := by
    rw [Table.values, List.foldl_map, Table.ofList]
    refine List.foldl_ext _ _ _ fun s e he => ?_
    rw [h.keyed e he]
  rw [merge, entries, Table.ofList_entries h.ascending]

/-! ### What is left -/

/-- The bars that a retention reaches from the newest of the series. -/
def recent (retention : Option Int) (series : BarSeries) : BarSeries :=
  series.filter fun t _ => reaches retention series.keys t

variable {retention : Option Int} {series : BarSeries}

theorem filed_recent (retention : Option Int) (h : series.Filed) : (recent retention series).Filed :=
  ⟨Table.ascending_filter h.ascending _, fun e he => h.keyed e (List.mem_of_mem_filter he)⟩

theorem find?_recent (h : series.Filed) (t : Instant) :
    (recent retention series).find? t = (series.find? t).filter fun _ => reaches retention series.keys t :=
  Table.find?_filter h.ascending _ t

theorem mem_keys_recent (h : series.Filed) {t : Instant} :
    t ∈ (recent retention series).keys ↔ t ∈ series.keys ∧ reaches retention series.keys t = true := by
  rw [mem_keys (filed_recent _ h).ascending, mem_keys h.ascending, find?_recent h]
  simp only [Option.filter_eq_some_iff, exists_and_right]

/-- The newest bar is never dropped. -/
theorem newest_recent (h : series.Filed) (forward : ∀ keep ∈ retention, 0 ≤ keep) {t : Instant}
    (there : t ∈ series.keys) : ∃ v ∈ (recent retention series).keys, t.ms ≤ v.ms := by
  obtain ⟨v, listed, -, greatest⟩ := exists_newest there
  refine ⟨v, (mem_keys_recent h).mpr ⟨listed, reaches_iff.mpr fun keep hkeep u hu => ?_⟩, greatest t there⟩
  have := forward keep hkeep
  have := greatest u hu
  omega

theorem newest_merge_recent (h : series.Filed) (forward : ∀ keep ∈ retention, 0 ≤ keep) (bars : List (Bar Float)) :
    newest ((recent retention series).merge bars).keys = newest (series.merge bars).keys := by
  have kept := filed_recent retention h
  refine newest_congr (fun u hu => (mem_keys_merge h).mpr ?_) fun u hu => ?_
  · exact ((mem_keys_merge kept).mp hu).imp_left fun old => ((mem_keys_recent h).mp old).1
  · rcases (mem_keys_merge h).mp hu with old | new
    · obtain ⟨v, listed, newer⟩ := newest_recent h forward old
      exact ⟨v, (mem_keys_merge kept).mpr (.inl listed), newer⟩
    · exact ⟨u, (mem_keys_merge kept).mpr (.inr new), Int.le_refl _⟩

/-- Bars that were dropped before others came would be dropped after them. -/
theorem recent_merge (h : series.Filed) (forward : ∀ keep ∈ retention, 0 ≤ keep) (bars : List (Bar Float)) :
    recent retention ((recent retention series).merge bars) = recent retention (series.merge bars) := by
  have kept := filed_recent retention h
  refine Table.ext_find? (filed_recent _ (filed_merge kept bars)).ascending
    (filed_recent _ (filed_merge h bars)).ascending fun t => ?_
  have reach : reaches retention ((recent retention series).merge bars).keys t =
      reaches retention (series.merge bars).keys t :=
    reaches_congr (newest_merge_recent h forward bars) t
  rw [find?_recent (filed_merge kept bars), find?_recent (filed_merge h bars), reach, find?_merge, find?_merge,
    find?_recent h]
  cases lastAt t bars with
  | some c => rfl
  | none =>
    rw [Option.none_or, Option.none_or]
    ext b
    simp only [Option.filter_eq_some_iff, and_assoc, and_congr_right_iff, and_iff_right_iff_imp]
    intro _ within
    refine reaches_iff.mpr fun keep hkeep u hu => reaches_iff.mp within keep hkeep u ?_
    exact (mem_keys_merge h).mpr (.inl hu)

theorem values_recent (h : series.Filed) :
    (recent retention series).values = series.values.filter fun b => reaches retention series.keys b.time := by
  show (series.entries.filter fun e => reaches retention series.keys e.1).map (·.2) = _
  rw [Table.values, List.filter_map]
  refine congrArg _ (List.filter_congr fun e he => ?_)
  rw [h.keyed e he]
  rfl

theorem since_recent (h : series.Filed) (t : Instant) :
    (recent retention series).since t = (series.since t).filter fun b => reaches retention series.keys b.time := by
  rw [since, since, values_recent h, List.filter_filter, List.filter_filter]
  exact List.filter_congr fun b _ => Bool.and_comm _ _

/-- The last bar of a series is at its newest time. -/
theorem newest_keys (h : series.Filed) {b : Bar Float} (last : series.values.getLast? = some b) :
    newest series.keys = some b.time.ms := by
  obtain ⟨older, split⟩ := List.getLast?_eq_some_iff.mp last
  have order := ascending_values h
  rw [split] at order
  rw [newest_eq_some, keys_eq h, List.forall_mem_map, split]
  refine ⟨⟨b.time, List.mem_map.mpr ⟨b, List.mem_concat_self, rfl⟩, rfl⟩, fun a ha => ?_⟩
  rcases List.mem_append.mp ha with old | own
  · exact Int.le_of_lt ((List.pairwise_append.mp order).2.2 a old b (List.mem_singleton.mpr rfl))
  · rw [List.mem_singleton.mp own]

end BarSeries

/-- Saving drops just what the retention does not reach. -/
theorem FileStore.retained?_values {retention : Option Int} {series : BarSeries} (h : series.Filed)
    (inside : ∀ keep n, retention = some keep → newest series.keys = some n → (⟨n - keep⟩ : Instant).inCalendar = true) :
    retained? retention series.values = some (series.recent retention).values := by
  rw [BarSeries.values_recent h]
  unfold retained?
  split
  · rename_i keep b last
    have top := BarSeries.newest_keys h last
    have cutoff : b.time.plus? (-keep) = some ⟨b.time.ms - keep⟩ := by
      rw [Instant.plus?, ← Int.sub_eq_add_neg, Instant.ofMs?]
      exact if_pos (inside keep _ rfl top)
    rw [cutoff, Option.map_some]
    simp only [reaches, top]
  · rename_i unbounded
    refine congrArg some (List.filter_eq_self.mpr fun b listed => reaches_iff.mpr fun keep some_keep => ?_).symm
    have last := List.getLast?_eq_some_getLast (List.ne_nil_of_mem listed)
    exact absurd last (unbounded keep _ some_keep)

end TickerBoard

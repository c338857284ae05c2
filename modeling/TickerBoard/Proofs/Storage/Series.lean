import Mathlib.Data.List.Sort
import TickerBoard.Storage.Memory
import TickerBoard.Storage.Writer
import TickerBoard.Proofs.Chart.Candles
import TickerBoard.Proofs.Storage.Records

/-! Stored bars, time by time.

Merging bars into a series leaves at each time the last bar that came for it
(`find?_merge`), and what a series lists comes in the order of the times
(`ascending_since`). However the jobs of a queue are cut into batches, writing
them merges the bars of each symbol in the order of the jobs
(`series_writeBatch`); lists do not touch the bars. -/
namespace TickerBoard

namespace BarSeries

/-! ### Merging -/

/-- The last of some bars at a time. -/
def lastAt (t : Instant) (bars : List (Bar Float)) : Option (Bar Float) :=
  bars.reverse.find? fun b => b.time = t

theorem lastAt_concat (t : Instant) (bars : List (Bar Float)) (b : Bar Float) :
    lastAt t (bars ++ [b]) = if b.time = t then some b else lastAt t bars := by
  by_cases h : b.time = t <;> simp [lastAt, h]

theorem lastAt_eq_some {t : Instant} {bars : List (Bar Float)} {b : Bar Float} (h : lastAt t bars = some b) :
    b ∈ bars ∧ b.time = t := by
  rw [lastAt] at h
  exact ⟨List.mem_reverse.mp (List.mem_of_find?_eq_some h), by simpa using List.find?_some h⟩

theorem merge_append (series : BarSeries) (a b : List (Bar Float)) :
    series.merge (a ++ b) = (series.merge a).merge b :=
  List.foldl_append

theorem find?_merge (series : BarSeries) (bars : List (Bar Float)) (t : Instant) :
    (series.merge bars).find? t = (lastAt t bars).or (series.find? t) := by
  induction bars using List.reverseRecOn with
  | nil => rfl
  | append_singleton bars b ih =>
    have last : series.merge (bars ++ [b]) = (series.merge bars).insert b.time b := merge_append ..
    rw [last, Table.find?_insert, ih, lastAt_concat]
    split <;> rfl

/-- Every bar stands under its time, and the times ascend. -/
structure Filed (series : BarSeries) : Prop where
  ascending : series.Ascending
  keyed : ∀ e ∈ series.entries, e.1 = e.2.time

theorem filed_empty : Filed .empty := ⟨Table.ascending_empty, nofun⟩

theorem filed_merge {series : BarSeries} (h : series.Filed) (bars : List (Bar Float)) :
    (series.merge bars).Filed := by
  induction bars generalizing series with
  | nil => exact h
  | cons b rest ih =>
    refine ih ⟨Table.ascending_insert h.ascending b.time b, fun e he => ?_⟩
    rcases Table.mem_of_mem_place he with rfl | old
    · rfl
    · exact h.keyed e old

/-! ### Listing -/

theorem mem_values {series : BarSeries} (h : series.Filed) {b : Bar Float} :
    b ∈ series.values ↔ series.find? b.time = some b := by
  rw [Table.find?_eq_some h.ascending]
  constructor
  · intro listed
    obtain ⟨e, he, rfl⟩ := List.mem_map.mp listed
    rw [← h.keyed e he]
    exact he
  · exact fun he => List.mem_map.mpr ⟨_, he, rfl⟩

theorem mem_since {series : BarSeries} (h : series.Filed) {t : Instant} {b : Bar Float} :
    b ∈ series.since t ↔ series.find? b.time = some b ∧ t.ms ≤ b.time.ms := by
  rw [since, List.mem_filter, mem_values h, decide_eq_true_iff]

theorem ascending_values {series : BarSeries} (h : series.Filed) :
    series.values.Pairwise fun a b => a.time.ms < b.time.ms := by
  refine List.pairwise_map.mpr (h.ascending.imp_of_mem fun {a b} ha hb order => ?_)
  rw [h.keyed a ha, h.keyed b hb] at order
  exact Int.compare_eq_lt.mp order

theorem ascending_since {series : BarSeries} (h : series.Filed) (t : Instant) :
    (series.since t).Pairwise fun a b => a.time.ms < b.time.ms :=
  List.Pairwise.filter _ (ascending_values h)

/-- A series of traded bars lists them in turn. -/
theorem inTurn_since {series : BarSeries} (h : series.Filed) (traded : ∀ b ∈ series.values, b.isTraded = true)
    (t : Instant) : InTurn (series.since t) :=
  ⟨fun b hb => traded b (List.mem_filter.mp hb).1, ascending_since h t⟩

/-- Merging brings in none but the merged bars. -/
theorem mem_or_mem_of_mem_values_merge {series : BarSeries} (filed : series.Filed) {bars : List (Bar Float)}
    {b : Bar Float} (h : b ∈ (series.merge bars).values) : b ∈ series.values ∨ b ∈ bars := by
  have found := (mem_values (filed_merge filed bars)).mp h
  rw [find?_merge] at found
  cases last : lastAt b.time bars with
  | some c =>
    rw [last, Option.some_or] at found
    obtain rfl := Option.some.inj found
    exact .inr (lastAt_eq_some last).1
  | none =>
    rw [last, Option.none_or] at found
    exact .inl ((mem_values filed).mpr found)

theorem traded_merge {series : BarSeries} (h : series.Filed) (traded : ∀ b ∈ series.values, b.isTraded = true)
    {bars : List (Bar Float)} (new : ∀ b ∈ bars, b.isTraded = true) :
    ∀ b ∈ (series.merge bars).values, b.isTraded = true :=
  fun b hb => (mem_or_mem_of_mem_values_merge h hb).elim (traded b) (new b)

/-! ### A series and a history -/

theorem lastAt_isSome {bars : List (Bar Float)} {b : Bar Float} (h : b ∈ bars) :
    ∃ c, lastAt b.time bars = some c := by
  refine Option.isSome_iff_exists.mp ?_
  rw [lastAt, List.find?_isSome]
  exact ⟨b, List.mem_reverse.mpr h, decide_eq_true rfl⟩

theorem mem_since_merge {series : BarSeries} (filed : series.Filed) {bars : List (Bar Float)} {t : Instant}
    {b : Bar Float} :
    b ∈ (series.merge bars).since t ↔
      (lastAt b.time bars).or (series.find? b.time) = some b ∧ t.ms ≤ b.time.ms := by
  rw [mem_since (filed_merge filed bars), find?_merge]

/-- A bar that no other one of its time is merged with stays, or comes in. -/
theorem mem_values_merge {series : BarSeries} (filed : series.Filed) {bars : List (Bar Float)} {b : Bar Float}
    (only : ∀ c ∈ bars, c.time = b.time → c = b) : b ∈ (series.merge bars).values ↔ b ∈ series.values ∨ b ∈ bars := by
  refine ⟨mem_or_mem_of_mem_values_merge filed, fun h => (mem_values (filed_merge filed bars)).mpr ?_⟩
  rw [find?_merge]
  cases last : lastAt b.time bars with
  | some c =>
    obtain ⟨listed, same⟩ := lastAt_eq_some last
    rw [only c listed same, Option.some_or]
  | none =>
    rw [Option.none_or]
    rcases h with old | new
    · exact (mem_values filed).mp old
    · obtain ⟨c, found⟩ := lastAt_isSome new
      rw [last] at found
      cases found

/-- The last bar that a series lists of a window is the newest of all, if there is one. -/
theorem older_iff {series : BarSeries} (filed : series.Filed) {window t : Instant} (inside : window.ms ≤ t.ms) :
    (∀ c ∈ series.values, c.time.ms < t.ms) ↔ ∀ c, (series.since window).getLast? = some c → c.time.ms < t.ms := by
  constructor
  · exact fun older c last => older c (List.mem_filter.mp (List.mem_of_getLast? last)).1
  · intro older c listed
    by_cases shown : window.ms ≤ c.time.ms
    · have there : c ∈ series.since window := List.mem_filter.mpr ⟨listed, decide_eq_true shown⟩
      obtain ⟨newest, last⟩ := Option.isSome_iff_exists.mp (List.getLast?_isSome.mpr (List.ne_nil_of_mem there))
      obtain ⟨before, split⟩ := List.getLast?_eq_some_iff.mp last
      have order := ascending_since filed window
      rw [split] at there order
      have := older newest last
      rcases List.mem_append.mp there with earlier | same
      · have := (List.pairwise_append.mp order).2.2 c earlier newest (List.mem_singleton.mpr rfl)
        omega
      · rwa [List.mem_singleton.mp same]
    · omega

/-- Merging loses no time: where there was a bar, old or new, there is one. -/
theorem exists_mem_since_merge {series : BarSeries} (filed : series.Filed) {bars : List (Bar Float)} {t : Instant}
    {a : Bar Float} (inside : t.ms ≤ a.time.ms) (h : a ∈ series.since t ∨ a ∈ bars) :
    ∃ c ∈ (series.merge bars).since t, c.time = a.time := by
  have present : ∃ c, (series.merge bars).find? a.time = some c := by
    rw [find?_merge]
    rcases h with old | new
    · rw [((mem_since filed).mp old).1]
      cases lastAt a.time bars <;> exact ⟨_, rfl⟩
    · obtain ⟨c, last⟩ := lastAt_isSome new
      exact ⟨c, by rw [last, Option.some_or]⟩
  obtain ⟨c, found⟩ := present
  have merged := filed_merge filed bars
  have same : c.time = a.time := (merged.keyed _ ((Table.find?_eq_some merged.ascending).mp found)).symm
  refine ⟨c, (mem_since merged).mpr ?_, same⟩
  rw [same]
  exact ⟨found, inside⟩

/-- A series that more bars were merged into lists just a history that took some of these
bars, if and only if the history holds the last bar that came for each time. -/
theorem since_merge_eq_iff {series : BarSeries} (filed : series.Filed) {t : Instant}
    {bars taken : List (Bar Float)} (some_old : series.since t ≠ []) (given : ∀ b ∈ taken, b ∈ bars)
    (turn : InTurn (series.since t ++ taken)) :
    (series.merge bars).since t = series.since t ++ taken ↔
      ∀ u b, lastAt u bars = some b → t.ms ≤ u.ms → b ∈ series.since t ++ taken := by
  constructor
  · intro agree u b last inside
    obtain ⟨-, rfl⟩ := lastAt_eq_some last
    rw [← agree, mem_since_merge filed, last]
    exact ⟨rfl, inside⟩
  · intro latest
    have listed : ∀ a ∈ (series.merge bars).since t, a ∈ series.since t ++ taken := by
      intro a ha
      obtain ⟨found, inside⟩ := (mem_since_merge filed).mp ha
      cases last : lastAt a.time bars with
      | some c =>
        rw [last, Option.some_or] at found
        obtain rfl := Option.some.inj found
        exact latest c.time c last inside
      | none =>
        rw [last, Option.none_or] at found
        exact List.mem_append_left _ ((mem_since filed).mpr ⟨found, inside⟩)
    have inside : ∀ a ∈ series.since t ++ taken, t.ms ≤ a.time.ms := by
      intro a ha
      rcases List.mem_append.mp ha with old | new
      · exact ((mem_since filed).mp old).2
      · -- what was taken is newer than the bars that are left of the old ones
        obtain ⟨first, hfirst⟩ := List.exists_mem_of_ne_nil _ some_old
        have := ((mem_since filed).mp hfirst).2
        have := (List.pairwise_append.mp turn.ascending).2.2 first hfirst a new
        omega
    have held : ∀ a ∈ series.since t ++ taken, a ∈ (series.merge bars).since t := by
      intro a ha
      obtain ⟨c, hc, same⟩ := exists_mem_since_merge filed (inside a ha)
        ((List.mem_append.mp ha).imp_right (given a))
      rwa [turn.eq_of_time ha (listed c hc) (congrArg Instant.ms same.symm)]
    have irreflexive : Std.Irrefl fun a b : Bar Float => a.time.ms < b.time.ms := ⟨fun _ => Int.lt_irrefl _⟩
    have antisymmetric : Std.Antisymm fun a b : Bar Float => a.time.ms < b.time.ms :=
      ⟨fun _ _ h h' => absurd h (Int.lt_asymm h')⟩
    exact List.Pairwise.eq_of_mem_iff (ascending_since (filed_merge filed bars) t) turn.ascending
      fun a => ⟨listed a, held a⟩

end BarSeries

/-! ### Writing batches -/

/-- The bars of a symbol among some jobs, in turn. -/
def archived (symbol : String) (jobs : List WriteJob) : List (Bar Float) :=
  jobs.filterMap fun
    | .archive b => if b.symbol = symbol then some b else none
    | .patterns _ => none

@[simp] theorem archived_append (symbol : String) (a b : List WriteJob) :
    archived symbol (a ++ b) = archived symbol a ++ archived symbol b :=
  List.filterMap_append

namespace Batch

theorem ofJobs_concat (jobs : List WriteJob) (job : WriteJob) :
    ofJobs (jobs ++ [job]) = (ofJobs jobs).add job :=
  List.foldl_append

/-- A batch has the bars of each symbol in the order of the jobs. -/
theorem bars_ofJobs (jobs : List WriteJob) :
    (ofJobs jobs).bars.Ascending ∧ ∀ symbol, (ofJobs jobs).bars.findD symbol [] = archived symbol jobs := by
  induction jobs using List.reverseRecOn with
  | nil => exact ⟨Table.ascending_empty, fun _ => rfl⟩
  | append_singleton jobs job ih =>
    obtain ⟨ascending, found⟩ := ih
    rw [ofJobs_concat]
    cases job with
    | patterns u =>
      refine ⟨ascending, fun symbol => ?_⟩
      rw [archived_append, ← found]
      exact (List.append_nil _).symm
    | archive b =>
      refine ⟨Table.ascending_insert ascending _ _, fun symbol => ?_⟩
      rw [archived_append, ← found]
      by_cases own : b.symbol = symbol
      · subst own
        simp [add, Table.findD, archived]
      · simp [add, Table.findD, archived, own]

end Batch

namespace MemoryStore
open Writer

theorem series_saveBars (s : MemoryStore) (name symbol : String) (bars : List (Bar Float)) :
    (s.saveBars name bars).series symbol =
      if name = symbol then (s.series symbol).merge bars else s.series symbol := by
  by_cases own : name = symbol
  · subst own
    simp [saveBars, series, Table.findD]
  · simp [saveBars, series, Table.findD, own]

theorem series_writeBars {entries : List (String × List (Bar Float))} (apart : (entries.map (·.1)).Nodup)
    (s : MemoryStore) (symbol : String) :
    (writeEach (fun s e => Store.saveBars s e.1 e.2) s entries).1.series symbol =
      (s.series symbol).merge ((Table.lookup symbol entries).getD []) := by
  induction entries generalizing s with
  | nil => rfl
  | cons e rest ih =>
    obtain ⟨first, others⟩ := List.nodup_cons.mp apart
    have saved : (Store.saveBars s e.1 e.2).1 = s.saveBars e.1 e.2 := rfl
    rw [writeEach_cons, ih others, saved, series_saveBars, Table.lookup]
    split
    · rename_i own
      -- the entries behind are of other symbols
      have absent : Table.lookup symbol rest = none := by
        refine Option.eq_none_iff_forall_ne_some.mpr fun bars found => first ?_
        exact List.mem_map.mpr ⟨_, Table.mem_of_lookup found, own.symm⟩
      rw [absent]
      rfl
    · rfl

theorem series_writePatterns (s : MemoryStore) (u : PatternUpdate Float) (symbol : String) :
    (writePatterns s u).1.series symbol = s.series symbol := by
  unfold writePatterns
  split <;> rfl

theorem series_writeLists (s : MemoryStore) (us : List (PatternUpdate Float)) (symbol : String) :
    (writeEach writePatterns s us).1.series symbol = s.series symbol := by
  induction us generalizing s with
  | nil => rfl
  | cons u rest ih => rw [writeEach_cons, ih, series_writePatterns]

/-- Writing a batch merges the bars of each symbol in the order of the jobs. -/
theorem series_writeBatch (s : MemoryStore) (jobs : List WriteJob) (symbol : String) :
    (writeBatch s jobs).1.series symbol = (s.series symbol).merge (archived symbol jobs) := by
  obtain ⟨ascending, found⟩ := Batch.bars_ofJobs jobs
  have written : (writeBatch s jobs).1 = (writeEach writePatterns
      (writeEach (fun s e => Store.saveBars s e.1 e.2) s (Batch.ofJobs jobs).bars.entries).1
      (Batch.ofJobs jobs).patterns).1 := rfl
  rw [written, series_writeLists, series_writeBars (Table.nodup_keys ascending), ← found]
  rfl

end MemoryStore
end TickerBoard

import Mathlib.Data.List.Nodup
import TickerBoard.Proofs.Storage.Series

/-! What batches make of the lists in them.

In a batch only the last list of a symbol and a chart label is written, though
lists are stored by day. So batches leave what the lists that stand leave
(`slot_writeBatch`), those that no other of their symbol and label follows in
the batch. Nothing is lost as long as the lists of one symbol and label in a
batch are all of one day; across a midnight one may be (`overnight_list_lost`).
Bars are all kept. `coalescing_drops_replaced` says this of any store that shows
what the store in memory holds. -/
namespace TickerBoard

/-! ### The last list of a slot -/

namespace PatternUpdate

/-- What a batch tells lists apart by. -/
def slot (u : PatternUpdate Float) : String × String := (u.symbol, u.label)

/-- The day that a list is stored under. -/
def day? (u : PatternUpdate Float) : Option Day := u.divergences.getLast?.map (·.day)

end PatternUpdate

/-- The lists among some jobs, in turn. -/
def listed (jobs : List WriteJob) : List (PatternUpdate Float) :=
  jobs.filterMap fun
    | .archive _ => none
    | .patterns u => some u

@[simp] theorem listed_append (a b : List WriteJob) : listed (a ++ b) = listed a ++ listed b :=
  List.filterMap_append

theorem listed_flatMap {α : Type} (f : α → List WriteJob) (as : List α) :
    listed (as.flatMap f) = as.flatMap fun a => listed (f a) :=
  List.filterMap_flatMap ..

theorem flatMap_listed (batches : List (List WriteJob)) : batches.flatMap listed = listed batches.flatten := by
  rw [← List.flatMap_id, listed_flatMap]
  rfl

/-- The jobs without the lists that another of their slot follows. -/
def unreplaced : List WriteJob → List WriteJob
  | [] => []
  | .archive b :: rest => .archive b :: unreplaced rest
  | .patterns u :: rest =>
    if u.slot ∈ (listed rest).map (·.slot) then unreplaced rest else .patterns u :: unreplaced rest

section Slots
variable (slot : String × String) (day : Day)

/-- The last of some lists that is of a slot. -/
def newestOf (us : List (PatternUpdate Float)) : Option (PatternUpdate Float) :=
  us.reverse.find? fun u => u.slot = slot

/-- What is stored of a slot under a day once some lists are written, one after the other. -/
def heldAfter (held : Option (List (Divergence Float))) (us : List (PatternUpdate Float)) :
    Option (List (Divergence Float)) :=
  us.foldl (fun held u => if u.slot = slot ∧ u.day? = some day then some u.divergences else held) held

theorem newestOf_cons (u : PatternUpdate Float) (us : List (PatternUpdate Float)) :
    newestOf slot (u :: us) = (newestOf slot us).or (if u.slot = slot then some u else none) := by
  rw [newestOf, List.reverse_cons, List.find?_append, ← newestOf]
  by_cases own : u.slot = slot <;> simp [own]

theorem newestOf_concat (us : List (PatternUpdate Float)) (u : PatternUpdate Float) :
    newestOf slot (us ++ [u]) = if u.slot = slot then some u else newestOf slot us := by
  rw [newestOf, List.reverse_concat, List.find?_cons, ← newestOf]
  by_cases own : u.slot = slot <;> simp [own]

variable {slot} in
theorem newestOf_eq_none {us : List (PatternUpdate Float)} : newestOf slot us = none ↔ slot ∉ us.map (·.slot) := by
  simp [newestOf]

variable {slot} in
theorem newestOf_eq_some {us : List (PatternUpdate Float)} {u : PatternUpdate Float} (h : newestOf slot us = some u) :
    u ∈ us ∧ u.slot = slot :=
  ⟨List.mem_reverse.mp (List.mem_of_find?_eq_some h), by simpa using List.find?_some h⟩

theorem heldAfter_append (held : Option (List (Divergence Float))) (a b : List (PatternUpdate Float)) :
    heldAfter slot day held (a ++ b) = heldAfter slot day (heldAfter slot day held a) b :=
  List.foldl_append

/-- The lists of a slot are of one day. -/
def OneDay (us : List (PatternUpdate Float)) : Prop :=
  ∀ u ∈ us, ∀ v ∈ us, u.slot = slot → v.slot = slot → u.day? = v.day?

theorem oneDay_of_nodup {us : List (PatternUpdate Float)} (h : (us.map (·.slot)).Nodup) : OneDay slot us :=
  fun _ hu _ hv own own' => by rw [List.inj_on_of_nodup_map h hu hv (own.trans own'.symm)]

/-- Of lists of one day only the last counts. -/
theorem heldAfter_of_oneDay {us : List (PatternUpdate Float)} (h : OneDay slot us)
    (held : Option (List (Divergence Float))) :
    heldAfter slot day held us =
      match newestOf slot us with
      | some u => if u.day? = some day then some u.divergences else held
      | none => held := by
  induction us using List.reverseRecOn with
  | nil => rfl
  | append_singleton us u ih =>
    have earlier : OneDay slot us := fun a ha b hb =>
      h a (List.mem_append_left _ ha) b (List.mem_append_left _ hb)
    rw [heldAfter_append, ih earlier, newestOf_concat]
    show (if u.slot = slot ∧ u.day? = some day then some u.divergences else _) = _
    by_cases own : u.slot = slot
    · rw [if_pos own]
      by_cases today : u.day? = some day
      · simp [own, today]
      · simp only [own, today, and_false, if_false]
        -- the lists before it are of its day, and none of them was stored under `day`
        cases before : newestOf slot us with
        | none => rfl
        | some v =>
          obtain ⟨hv, same⟩ := newestOf_eq_some before
          have days := h v (List.mem_append_left _ hv) u (by simp) same own
          dsimp only
          rw [if_neg (by rw [days]; exact today)]
    · simp [own]

end Slots

/-! ### Batches -/

namespace Batch

theorem sameSlot_iff {a b : PatternUpdate Float} : sameSlot a b = true ↔ a.slot = b.slot := by
  simp [sameSlot, PatternUpdate.slot]

theorem slots_place (u : PatternUpdate Float) (us : List (PatternUpdate Float)) :
    (place u us).map (·.slot) =
      if u.slot ∈ us.map (·.slot) then us.map (·.slot) else us.map (·.slot) ++ [u.slot] := by
  induction us with
  | nil => rfl
  | cons v rest ih =>
    rw [place]
    split
    · rename_i same
      simp [sameSlot_iff.mp same]
    · rename_i other
      have other : u.slot ≠ v.slot := fun same => other (sameSlot_iff.mpr same.symm)
      simp only [List.map_cons, ih, List.mem_cons, other, false_or]
      split <;> rfl

theorem newestOf_place (slot : String × String) (u : PatternUpdate Float) {us : List (PatternUpdate Float)}
    (apart : (us.map (·.slot)).Nodup) : newestOf slot (place u us) = newestOf slot (us ++ [u]) := by
  induction us with
  | nil => rfl
  | cons v rest ih =>
    obtain ⟨other, apart⟩ := List.nodup_cons.mp apart
    rw [newestOf_concat, place]
    split
    · rename_i same
      have same := sameSlot_iff.mp same
      rw [newestOf_cons, newestOf_cons, same]
      by_cases own : u.slot = slot
      · have none : newestOf slot rest = none := newestOf_eq_none.mpr (by rw [← own, ← same]; exact other)
        simp [own, none]
      · simp [own]
    · rw [newestOf_cons, ih apart, newestOf_concat, newestOf_cons]
      split <;> simp

/-- A batch has the last list of every slot, and one for each. -/
theorem patterns_ofJobs (jobs : List WriteJob) :
    ((ofJobs jobs).patterns.map (·.slot)).Nodup ∧
      ∀ slot, newestOf slot (ofJobs jobs).patterns = newestOf slot (listed jobs) := by
  induction jobs using List.reverseRecOn with
  | nil => exact ⟨.nil, fun _ => rfl⟩
  | append_singleton jobs job ih =>
    obtain ⟨apart, newest⟩ := ih
    rw [ofJobs_concat, listed_append]
    cases job with
    | archive b => exact ⟨apart, fun slot => (newest slot).trans (congrArg _ (List.append_nil _).symm)⟩
    | patterns u =>
      refine ⟨?_, fun slot => ?_⟩
      · show ((place u (ofJobs jobs).patterns).map (·.slot)).Nodup
        rw [slots_place]
        split
        · exact apart
        · rename_i new
          exact List.nodup_append.mpr ⟨apart, List.nodup_singleton _, by simpa using new⟩
      · show newestOf slot (place u (ofJobs jobs).patterns) = newestOf slot (listed jobs ++ [u])
        rw [newestOf_place slot u apart, newestOf_concat, newestOf_concat, newest]

end Batch

/-- So have the lists that no other of their slot follows. -/
theorem listed_unreplaced (jobs : List WriteJob) :
    ((listed (unreplaced jobs)).map (·.slot)).Nodup ∧
      ∀ slot, newestOf slot (listed (unreplaced jobs)) = newestOf slot (listed jobs) := by
  induction jobs with
  | nil => exact ⟨.nil, fun _ => rfl⟩
  | cons job rest ih =>
    obtain ⟨apart, newest⟩ := ih
    cases job with
    | archive b => exact ⟨apart, newest⟩
    | patterns u =>
      rw [unreplaced, show listed (.patterns u :: rest) = u :: listed rest from rfl]
      split
      · rename_i replaced
        refine ⟨apart, fun slot => ?_⟩
        rw [newest, newestOf_cons]
        by_cases own : u.slot = slot
        · cases later : newestOf slot (listed rest) with
          | none => exact absurd (own ▸ replaced) (newestOf_eq_none.mp later)
          | some v => rfl
        · rw [if_neg own, Option.or_none]
      · rename_i last
        refine ⟨List.nodup_cons.mpr ⟨?_, apart⟩, fun slot => ?_⟩
        · have unlisted := newestOf_eq_none.mpr last
          rw [← newest] at unlisted
          exact newestOf_eq_none.mp unlisted
        · rw [show listed (.patterns u :: unreplaced rest) = u :: listed (unreplaced rest) from rfl, newestOf_cons,
            newestOf_cons, newest]

/-- A batch leaves in every slot what its unreplaced lists leave there. -/
theorem heldAfter_patterns (slot : String × String) (day : Day) (held : Option (List (Divergence Float)))
    (jobs : List WriteJob) :
    heldAfter slot day held (Batch.ofJobs jobs).patterns = heldAfter slot day held (listed (unreplaced jobs)) := by
  obtain ⟨apart, newest⟩ := Batch.patterns_ofJobs jobs
  obtain ⟨apart', newest'⟩ := listed_unreplaced jobs
  rw [heldAfter_of_oneDay slot day (oneDay_of_nodup slot apart),
    heldAfter_of_oneDay slot day (oneDay_of_nodup slot apart'), newest, newest']

/-- If the lists of a slot are of one day, that is what all of its lists leave. -/
theorem heldAfter_patterns_of_oneDay (slot : String × String) (day : Day) (held : Option (List (Divergence Float)))
    {jobs : List WriteJob} (one : OneDay slot (listed jobs)) :
    heldAfter slot day held (Batch.ofJobs jobs).patterns = heldAfter slot day held (listed jobs) := by
  obtain ⟨apart, newest⟩ := Batch.patterns_ofJobs jobs
  rw [heldAfter_of_oneDay slot day (oneDay_of_nodup slot apart), heldAfter_of_oneDay slot day one, newest]

/-! ### Batches in memory -/

section Batches
variable {σ : Type} [Store σ]

/-- Writes batches one after the other. -/
def writeBatches (s : σ) (batches : List (List WriteJob)) : σ :=
  batches.foldl (fun s jobs => (Writer.writeBatch s jobs).1) s

/-- A batch for each job. -/
def alone (jobs : List WriteJob) : List (List WriteJob) := jobs.map ([·])

@[simp] theorem flatten_alone (jobs : List WriteJob) : (alone jobs).flatten = jobs := by
  rw [alone, ← List.flatMap_def, List.flatMap_singleton']

end Batches

namespace MemoryStore
open Writer

theorem slot_writePatterns (s : MemoryStore) (u : PatternUpdate Float) (slot : String × String) (day : Day) :
    Store.slot (writePatterns s u).1 slot.1 slot.2 day = heldAfter slot day (Store.slot s slot.1 slot.2 day) [u] := by
  show ((writePatterns s u).1.record slot.1 day).find? slot.2 =
    if u.slot = slot ∧ u.day? = some day then some u.divergences else (s.record slot.1 day).find? slot.2
  rw [PatternUpdate.day?]
  cases newest : u.divergences.getLast? with
  | none => simp [writePatterns, newest]
  | some d =>
    have written : (writePatterns s u).1 =
        s.saveRecord u.symbol d.day ((s.record u.symbol d.day).insert u.label u.divergences) := by
      rw [writePatterns, newest]
      rfl
    obtain ⟨symbol, label⟩ := slot
    rw [written, record_saveRecord]
    by_cases saved : symbol = u.symbol ∧ day = d.day
    · obtain ⟨rfl, rfl⟩ := saved
      rw [if_pos ⟨rfl, rfl⟩, Table.find?_insert]
      simp [PatternUpdate.slot]
    · rw [if_neg saved, if_neg]
      simp only [PatternUpdate.slot, Prod.mk.injEq, Option.map_some, Option.some.injEq]
      exact fun h => saved ⟨h.1.1.symm, h.2.symm⟩

theorem slot_writeLists (s : MemoryStore) (us : List (PatternUpdate Float)) (slot : String × String) (day : Day) :
    Store.slot (writeEach writePatterns s us).1 slot.1 slot.2 day =
      heldAfter slot day (Store.slot s slot.1 slot.2 day) us := by
  induction us generalizing s with
  | nil => rfl
  | cons u rest ih =>
    rw [writeEach_cons, ih, slot_writePatterns]
    rfl

theorem slot_writeBars (s : MemoryStore) (entries : List (String × List (Bar Float))) (slot : String × String)
    (day : Day) :
    Store.slot (writeEach (fun s e => Store.saveBars s e.1 e.2) s entries).1 slot.1 slot.2 day =
      Store.slot s slot.1 slot.2 day := by
  induction entries generalizing s with
  | nil => rfl
  | cons e rest ih =>
    rw [writeEach_cons, ih]
    rfl

theorem slot_writeBatch (s : MemoryStore) (jobs : List WriteJob) (slot : String × String) (day : Day) :
    Store.slot (writeBatch s jobs).1 slot.1 slot.2 day =
      heldAfter slot day (Store.slot s slot.1 slot.2 day) (Batch.ofJobs jobs).patterns := by
  rw [← slot_writeBars s (Batch.ofJobs jobs).bars.entries, ← slot_writeLists]
  rfl

/-- Batches leave in a slot what lists that count for them leave there. -/
theorem slot_writeBatches (s : MemoryStore) (slot : String × String) (day : Day)
    (counting : List WriteJob → List (PatternUpdate Float)) {batches : List (List WriteJob)}
    (h : ∀ jobs ∈ batches, ∀ held, heldAfter slot day held (Batch.ofJobs jobs).patterns =
      heldAfter slot day held (counting jobs)) :
    Store.slot (writeBatches s batches) slot.1 slot.2 day =
      heldAfter slot day (Store.slot s slot.1 slot.2 day) (batches.flatMap counting) := by
  induction batches generalizing s with
  | nil => rfl
  | cons jobs rest ih =>
    obtain ⟨own, others⟩ := List.forall_mem_cons.mp h
    rw [List.flatMap_cons, heldAfter_append, ← own, ← slot_writeBatch]
    exact ih _ others

theorem series_writeBatches (s : MemoryStore) (batches : List (List WriteJob)) (symbol : String) :
    (writeBatches s batches).series symbol = (s.series symbol).merge (archived symbol batches.flatten) := by
  induction batches generalizing s with
  | nil => rfl
  | cons jobs rest ih =>
    rw [List.flatten_cons, archived_append, BarSeries.merge_append, ← series_writeBatch]
    exact ih _

end MemoryStore

/-! ### Stores that show what memory holds -/

section Mirrors
variable {σ : Type} [Store σ]

/-- A store whose writes all succeed. What it shows is that of a store in memory that is
written alike: of the bars of a symbol some part, such as those within a retention, and of a
record every list. -/
structure Store.Mirrors (shown : BarSeries → Instant → List (Bar Float)) (R : σ → MemoryStore → Prop) : Prop where
  bars : ∀ {s t}, R s t → ∀ symbol since, loadBars s symbol since = .ok (shown (t.series symbol) since)
  record : ∀ {s t}, R s t → ∀ symbol day, ∃ r, loadRecord s symbol day = .ok r ∧
    ∀ label, r.find? label = (t.record symbol day).find? label
  saveBars : ∀ {s t}, R s t → ∀ symbol bars,
    (saveBars s symbol bars).2 = .ok () ∧ R (saveBars s symbol bars).1 (t.saveBars symbol bars)
  saveRecord : ∀ {s t}, R s t → ∀ symbol day r r', (∀ label, r.find? label = r'.find? label) →
    (saveRecord s symbol day r).2 = .ok () ∧ R (saveRecord s symbol day r).1 (t.saveRecord symbol day r')

/-- A store shows what `t` held with some jobs carried out in turn. -/
structure Store.Shows (shown : BarSeries → Instant → List (Bar Float)) (t : MemoryStore) (jobs : List WriteJob)
    (s : σ) : Prop where
  bars : ∀ symbol since,
    loadBars s symbol since = .ok (shown ((t.series symbol).merge (archived symbol jobs)) since)
  lists : ∀ slot day, ∃ r, loadRecord s slot.1 day = .ok r ∧
    r.find? slot.2 = heldAfter slot day (Store.slot t slot.1 slot.2 day) (listed jobs)

/-- Two stores show the same bars. -/
def SameBars (s s' : σ) : Prop :=
  ∀ symbol since, ∃ bars, Store.loadBars s symbol since = .ok bars ∧ Store.loadBars s' symbol since = .ok bars

/-- Two stores show the same lists of a slot, whatever the day. -/
def SameLists (slot : String × String) (s s' : σ) : Prop :=
  ∀ day, ∃ r r', Store.loadRecord s slot.1 day = .ok r ∧ Store.loadRecord s' slot.1 day = .ok r' ∧
    r.find? slot.2 = r'.find? slot.2

/-- Mirrors show the same lists if memory holds them. -/
theorem Store.Mirrors.sameLists {shown : BarSeries → Instant → List (Bar Float)} {R : σ → MemoryStore → Prop}
    (mirrors : Mirrors shown R) {s s' : σ} {t t' : MemoryStore} (h : R s t) (h' : R s' t') {slot : String × String}
    (same : ∀ day, Store.slot t slot.1 slot.2 day = Store.slot t' slot.1 slot.2 day) : SameLists slot s s' := by
  intro day
  obtain ⟨r, load, own⟩ := mirrors.record h slot.1 day
  obtain ⟨r', load', own'⟩ := mirrors.record h' slot.1 day
  refine ⟨r, r', load, load', ?_⟩
  rw [own, own']
  exact same day

end Mirrors

namespace MemoryStore

/-- Stores in memory of the same bars and lists. -/
structure Alike (s t : MemoryStore) : Prop where
  series : ∀ symbol, s.series symbol = t.series symbol
  record : ∀ symbol day label, (s.record symbol day).find? label = (t.record symbol day).find? label

theorem mirrors_alike : Store.Mirrors BarSeries.since Alike where
  bars h symbol since := by
    rw [← h.series]
    rfl
  record h symbol day := ⟨_, rfl, h.record symbol day⟩
  saveBars {s t} h symbol bars := by
    refine ⟨rfl, ⟨fun symbol' => ?_, h.record⟩⟩
    show (s.saveBars symbol bars).series symbol' = (t.saveBars symbol bars).series symbol'
    rw [series_saveBars, series_saveBars, h.series]
  saveRecord {s t} h symbol day r r' same := by
    refine ⟨rfl, ⟨h.series, fun symbol' day' label => ?_⟩⟩
    show ((s.saveRecord symbol day r).record symbol' day').find? label = _
    rw [record_saveRecord, record_saveRecord]
    split
    · exact same label
    · exact h.record symbol' day' label

end MemoryStore

namespace Writer
variable {σ : Type}

/-- Writes that succeed and keep a store the mirror of another do so one after the other. -/
theorem mirrors_writeEach {α : Type} {R : σ → MemoryStore → Prop} {write : σ → α → σ × Except StoreFault Unit}
    {write' : MemoryStore → α → MemoryStore × Except StoreFault Unit}
    (step : ∀ {s t}, R s t → ∀ a, (write s a).2 = .ok () ∧ R (write s a).1 (write' t a).1) {s : σ} {t : MemoryStore}
    (h : R s t) (as : List α) :
    (writeEach write s as).2 = 0 ∧ R (writeEach write s as).1 (writeEach write' t as).1 := by
  induction as generalizing s t with
  | nil => exact ⟨rfl, h⟩
  | cons a rest ih =>
    obtain ⟨written, h⟩ := step h a
    obtain ⟨none, h⟩ := ih h
    refine ⟨?_, h⟩
    simp only [writeEach, written]
    exact none

variable [Store σ] {shown : BarSeries → Instant → List (Bar Float)} {R : σ → MemoryStore → Prop} {s : σ}
  {t : MemoryStore}

theorem mirrors_writePatterns (mirrors : Store.Mirrors shown R) (h : R s t) (u : PatternUpdate Float) :
    (writePatterns s u).2 = .ok () ∧ R (writePatterns s u).1 (writePatterns t u).1 := by
  cases newest : u.divergences.getLast? with
  | none =>
    simp only [writePatterns, newest]
    exact ⟨trivial, h⟩
  | some d =>
    obtain ⟨r, load, same⟩ := mirrors.record h u.symbol d.day
    simp only [writePatterns, newest, load]
    refine mirrors.saveRecord h u.symbol d.day _ _ fun label => ?_
    rw [Table.find?_insert, Table.find?_insert, same]

/-- Writes bars by symbol, then lists, and counts the writes that fail. -/
def writeGroups (s : σ) (groups : List (String × List (Bar Float))) (lists : List (PatternUpdate Float)) : σ × Nat :=
  let (s, failedBars) := writeEach (fun s e => Store.saveBars s e.1 e.2) s groups
  let (s, failedLists) := writeEach writePatterns s lists
  (s, failedBars + failedLists)

/-- A batch writes its bars in the order of the symbols. -/
theorem writeBatch_eq (s : σ) (jobs : List WriteJob) :
    writeBatch s jobs =
      let batch := Batch.ofJobs jobs
      let (s, failed) := writeGroups s batch.bars.entries batch.patterns
      (s, if failed = 0 then .ok () else .error ⟨failed, batch.size⟩) := rfl

theorem mirrors_writeGroups (mirrors : Store.Mirrors shown R) (h : R s t)
    (groups : List (String × List (Bar Float))) (lists : List (PatternUpdate Float)) :
    (writeGroups s groups lists).2 = 0 ∧ R (writeGroups s groups lists).1 (writeGroups t groups lists).1 := by
  have saves : ∀ {s : σ} {t : MemoryStore}, R s t → ∀ e : String × List (Bar Float),
      (Store.saveBars s e.1 e.2).2 = .ok () ∧ R (Store.saveBars s e.1 e.2).1 (Store.saveBars t e.1 e.2).1 :=
    fun h e => mirrors.saveBars h e.1 e.2
  obtain ⟨noBars, h⟩ := mirrors_writeEach saves h groups
  obtain ⟨noLists, h⟩ := mirrors_writeEach (mirrors_writePatterns mirrors) h lists
  refine ⟨?_, h⟩
  simp only [writeGroups, noBars, noLists]

/-- A batch succeeds on a mirror, and what it leaves mirrors what it leaves in memory. -/
theorem mirrors_writeBatch (mirrors : Store.Mirrors shown R) (h : R s t) (jobs : List WriteJob) :
    (writeBatch s jobs).2 = .ok () ∧ R (writeBatch s jobs).1 (writeBatch t jobs).1 := by
  obtain ⟨none, h⟩ := mirrors_writeGroups mirrors h (Batch.ofJobs jobs).bars.entries (Batch.ofJobs jobs).patterns
  refine ⟨?_, h⟩
  simp only [writeBatch_eq, none]
  rfl

theorem mirrors_writeBatches (mirrors : Store.Mirrors shown R) (h : R s t) (batches : List (List WriteJob)) :
    R (writeBatches s batches) (writeBatches t batches) := by
  induction batches generalizing s t with
  | nil => exact h
  | cons jobs rest ih => exact ih (mirrors_writeBatch mirrors h jobs).2

end Writer

/-! ### Coalescing -/

/-- Jobs that are written alone leave in a slot what all of their lists leave there. -/
theorem MemoryStore.slot_writeAlone (t : MemoryStore) (slot : String × String) (day : Day) (jobs : List WriteJob) :
    Store.slot (writeBatches t (alone jobs)) slot.1 slot.2 day =
      heldAfter slot day (Store.slot t slot.1 slot.2 day) (listed jobs) := by
  have own : ∀ batch ∈ alone jobs, ∀ held, heldAfter slot day held (Batch.ofJobs batch).patterns =
      heldAfter slot day held (listed batch) := by
    intro batch hb held
    obtain ⟨job, -, rfl⟩ := List.mem_map.mp hb
    refine heldAfter_patterns_of_oneDay slot day held fun u hu v hv _ _ => ?_
    cases job with
    | archive b => cases hu
    | patterns w => rw [List.mem_singleton.mp hu, List.mem_singleton.mp hv]
  rw [slot_writeBatches t slot day listed own, flatMap_listed, flatten_alone]

/-- **Batches drop the lists that they replace, and nothing else.** Jobs that are each written
alone, in turn, into a store whose writes all succeed are carried out in turn. Write them in
batches, however they are cut. The bars are those that writing each job alone would leave. The
lists are those that writing alone the unreplaced jobs would leave: without the lists that
another of their symbol and label follows in their batch. So those of a symbol and label are
what all jobs would leave, too, if in every batch the lists of this symbol and label have their
newest divergences on one day. -/
theorem coalescing_drops_replaced {σ : Type} [Store σ] {shown : BarSeries → Instant → List (Bar Float)}
    {R : σ → MemoryStore → Prop} (mirrors : Store.Mirrors shown R) {s : σ} {t : MemoryStore} (h : R s t)
    (batches : List (List WriteJob)) :
    (∀ jobs, Store.Shows shown t jobs (writeBatches s (alone jobs))) ∧
      SameBars (writeBatches s batches) (writeBatches s (alone batches.flatten)) ∧
      (∀ slot, SameLists slot (writeBatches s batches) (writeBatches s (alone (batches.flatMap unreplaced)))) ∧
      ∀ slot, (∀ jobs ∈ batches, OneDay slot (listed jobs)) →
        SameLists slot (writeBatches s batches) (writeBatches s (alone batches.flatten)) := by
  have mirrored := Writer.mirrors_writeBatches mirrors h
  refine ⟨fun jobs => ⟨fun symbol since => ?_, fun slot day => ?_⟩,
    fun symbol since => ⟨_, mirrors.bars (mirrored batches) symbol since, ?_⟩,
    fun slot => mirrors.sameLists (mirrored _) (mirrored _) fun day => ?_,
    fun slot one => mirrors.sameLists (mirrored _) (mirrored _) fun day => ?_⟩
  · rw [mirrors.bars (mirrored (alone jobs)), MemoryStore.series_writeBatches, flatten_alone]
  · obtain ⟨r, load, own⟩ := mirrors.record (mirrored (alone jobs)) slot.1 day
    refine ⟨r, load, ?_⟩
    rw [own, ← MemoryStore.slot_writeAlone]
    rfl
  · rw [mirrors.bars (mirrored (alone batches.flatten)), MemoryStore.series_writeBatches,
      MemoryStore.series_writeBatches, flatten_alone]
  · rw [MemoryStore.slot_writeAlone, MemoryStore.slot_writeBatches t slot day (fun jobs => listed (unreplaced jobs))
      fun jobs _ held => heldAfter_patterns slot day held jobs, listed_flatMap]
  · rw [MemoryStore.slot_writeAlone, MemoryStore.slot_writeBatches t slot day listed
      fun jobs hj held => heldAfter_patterns_of_oneDay slot day held (one jobs hj), flatMap_listed]

/-- The only finding of a day, between its first two candles. -/
def nightly (day : Day) : PatternUpdate Float :=
  let opening := day.number * 86400000
  ⟨"XYZ", "5Min", [⟨"XYZ", .bullish, day, ⟨opening⟩, 2, 30, ⟨opening + 300000⟩, 1, 40⟩]⟩

/-- A list that comes again, and after a cut the list of the next day. -/
def nights : List (List WriteJob) :=
  [[.patterns (nightly ⟨0⟩), .archive (Bar.mk "XYZ" ⟨0⟩ 1 1 1 1 1), .patterns (nightly ⟨0⟩)], [.patterns (nightly ⟨1⟩)]]

theorem coalescing_drops_replaced_nightly :
    Store.Mirrors BarSeries.since MemoryStore.Alike ∧ MemoryStore.Alike .empty .empty ∧
      (∀ slot, ∀ jobs ∈ nights, OneDay slot (listed jobs)) ∧
      (∀ jobs, Store.Shows BarSeries.since .empty jobs (writeBatches MemoryStore.empty (alone jobs))) ∧
      SameBars (writeBatches MemoryStore.empty nights) (writeBatches MemoryStore.empty (alone nights.flatten)) ∧
      (∀ slot, SameLists slot (writeBatches MemoryStore.empty nights)
        (writeBatches MemoryStore.empty (alone (nights.flatMap unreplaced)))) ∧
      ∀ slot, SameLists slot (writeBatches MemoryStore.empty nights)
        (writeBatches MemoryStore.empty (alone nights.flatten)) := by
  have alike : MemoryStore.Alike .empty .empty := ⟨fun _ => rfl, fun _ _ _ => rfl⟩
  have one : ∀ slot, ∀ jobs ∈ nights, OneDay slot (listed jobs) := by
    intro slot jobs hj u hu v hv _ _
    have days : ∀ jobs ∈ nights, ∃ day, ∀ u ∈ listed jobs, u.day? = some day := by
      simp [nights, listed, nightly, PatternUpdate.day?]
    obtain ⟨day, all⟩ := days jobs hj
    rw [all u hu, all v hv]
  obtain ⟨carried, bars, unreplaced, all⟩ := coalescing_drops_replaced MemoryStore.mirrors_alike alike nights
  exact ⟨MemoryStore.mirrors_alike, alike, one, carried, bars, unreplaced, fun slot => all slot (one slot)⟩

/-- Without the cut the first day's list is lost, while alone it would be stored. -/
theorem overnight_list_lost :
    (∀ u ∈ listed [.patterns (nightly ⟨0⟩), .patterns (nightly ⟨1⟩)], u.divergences ≠ []) ∧
      ¬ SameLists ("XYZ", "5Min")
        (writeBatches MemoryStore.empty [[.patterns (nightly ⟨0⟩), .patterns (nightly ⟨1⟩)]])
        (writeBatches MemoryStore.empty (alone [.patterns (nightly ⟨0⟩), .patterns (nightly ⟨1⟩)])) := by
  refine ⟨by simp [listed, nightly], fun same => ?_⟩
  obtain ⟨r, r', load, load', same⟩ := same ⟨0⟩
  have lost : (r.find? "5Min").isSome = false := by
    rw [← Except.ok.inj load]
    decide +kernel
  have stored : (r'.find? "5Min").isSome = true := by
    rw [← Except.ok.inj load']
    decide +kernel
  rw [← same, lost] at stored
  cases stored

end TickerBoard

import TickerBoard.Storage.Faulty
import TickerBoard.Proofs.Storage.Coalescing

/-! Batches of which some writes fail.

In a `FaultyStore` the bars of some symbols cannot be written, and the records
of some. What such a store leaves out of a batch are the jobs of these symbols
(`spares`): `carried` says that writing the other jobs, on a store whose writes
succeed, leaves the same store. So what no job that is left writes stays as it
was, and a batch fails just if it tries a write that fails
(`failures_stay_local`). -/
namespace TickerBoard

/-! ### Jobs of some symbols -/

/-- Whether a job is one for bars of some symbols, or for lists of some. -/
def WriteJob.within (bars lists : String → Bool) : WriteJob → Bool
  | .archive b => bars b.symbol
  | .patterns u => lists u.symbol

namespace Batch

theorem place_filter (p : String → Bool) (u : PatternUpdate Float) (us : List (PatternUpdate Float)) :
    (place u us).filter (fun u => p u.symbol) =
      if p u.symbol then place u (us.filter fun u => p u.symbol) else us.filter fun u => p u.symbol := by
  induction us with
  | nil => cases admitted : p u.symbol <;> simp [place, admitted]
  | cons v rest ih =>
    rw [place]
    by_cases same : sameSlot v u = true
    · have symbols : v.symbol = u.symbol := congrArg Prod.fst (sameSlot_iff.mp same)
      cases admitted : p u.symbol <;> simp [place, same, symbols, admitted]
    · rw [if_neg same, List.filter_cons, ih, List.filter_cons]
      cases p u.symbol <;> cases p v.symbol <;> simp [place, same]

/-- The batch of the jobs of some symbols is what a batch has of these symbols. -/
theorem ofJobs_filter (p q : String → Bool) (jobs : List WriteJob) :
    ofJobs (jobs.filter (WriteJob.within p q)) =
      ⟨(ofJobs jobs).bars.filter fun symbol _ => p symbol, (ofJobs jobs).patterns.filter fun u => q u.symbol⟩ := by
  induction jobs using List.reverseRecOn with
  | nil => rfl
  | append_singleton jobs job ih =>
    have ascending := (bars_ofJobs jobs).1
    rw [ofJobs_concat, List.filter_append]
    cases job with
    | archive b =>
      simp only [add, Table.upsert, Table.filter_insert ascending]
      cases admitted : p b.symbol with
      | true =>
        have held : ((ofJobs jobs).bars.filter fun symbol _ => p symbol).find? b.symbol =
            (ofJobs jobs).bars.find? b.symbol := by
          rw [Table.find?_filter ascending]
          cases (ofJobs jobs).bars.find? b.symbol <;> simp [admitted]
        simp [WriteJob.within, admitted, ofJobs_concat, ih, add, Table.upsert, held]
      | false => simp [WriteJob.within, admitted, ih]
    | patterns u =>
      simp only [add, place_filter]
      cases admitted : q u.symbol with
      | true => simp [WriteJob.within, admitted, ofJobs_concat, ih, add]
      | false => simp [WriteJob.within, admitted, ih]

end Batch

/-! ### Bars of symbols in any order -/

namespace Writer
variable {σ : Type}

/-- Writes are carried out and counted one after the other. -/
theorem writeEach_cons_eq {α : Type} (write : σ → α → σ × Except StoreFault Unit) (s : σ) (a : α) (rest : List α) :
    writeEach write s (a :: rest) =
      ((writeEach write (writeEach write s [a]).1 rest).1,
        (writeEach write s [a]).2 + (writeEach write (writeEach write s [a]).1 rest).2) := by
  simp only [writeEach]
  cases (write s a).2 with
  | ok => rw [Nat.zero_add]
  | error e => rw [Nat.zero_add, Nat.add_comm]

end Writer

namespace MemoryStore
open Writer

theorem series_writeGroups (s : MemoryStore) {groups : List (String × List (Bar Float))}
    (apart : (groups.map (·.1)).Nodup) (lists : List (PatternUpdate Float)) (symbol : String) :
    (writeGroups s groups lists).1.series symbol =
      (s.series symbol).merge ((Table.lookup symbol groups).getD []) :=
  (series_writeLists _ lists symbol).trans (series_writeBars apart s symbol)

theorem slot_writeGroups (s : MemoryStore) (groups : List (String × List (Bar Float)))
    (lists : List (PatternUpdate Float)) (slot : String × String) (day : Day) :
    Store.slot (writeGroups s groups lists).1 slot.1 slot.2 day =
      heldAfter slot day (Store.slot s slot.1 slot.2 day) lists :=
  (slot_writeLists _ lists slot day).trans (by rw [slot_writeBars])

/-- The order of the symbols does not matter. -/
theorem alike_writeGroups (s : MemoryStore) {groups groups' : List (String × List (Bar Float))}
    (same : groups.Perm groups') (apart : (groups.map (·.1)).Nodup) (lists : List (PatternUpdate Float)) :
    Alike (writeGroups s groups lists).1 (writeGroups s groups' lists).1 where
  series symbol := by
    have apart' : (groups'.map (·.1)).Nodup := (same.map _).nodup_iff.mp apart
    have found : Table.lookup symbol groups = Table.lookup symbol groups' := by
      ext bars
      rw [Table.lookup_eq_some apart, Table.lookup_eq_some apart', same.mem_iff]
    rw [series_writeGroups s apart, series_writeGroups s apart', found]
  record symbol day label := by
    show Store.slot (writeGroups s groups lists).1 symbol label day =
      Store.slot (writeGroups s groups' lists).1 symbol label day
    rw [slot_writeGroups s groups lists (symbol, label), slot_writeGroups s groups' lists (symbol, label)]

end MemoryStore

/-- Lists of other slots, or of other days, leave a slot as it is. -/
theorem heldAfter_others {slot : String × String} {day : Day} {us : List (PatternUpdate Float)}
    (others : ∀ u ∈ us, u.slot = slot → u.day? ≠ some day) (held : Option (List (Divergence Float))) :
    heldAfter slot day held us = held := by
  induction us with
  | nil => rfl
  | cons u rest ih =>
    obtain ⟨first, others⟩ := List.forall_mem_cons.mp others
    rw [heldAfter, List.foldl_cons, if_neg fun own => first own.1 own.2]
    exact ih others

/-! ### Writes that fail -/

/-- What is written: the bars of a symbol, or its record of a day. -/
inductive WriteTarget
  | bars (symbol : String)
  | record (symbol : String) (day : Day)
deriving Repr, DecidableEq

def WriteAttempt.target : WriteAttempt → WriteTarget
  | .bars symbol _ => .bars symbol
  | .record symbol day _ => .record symbol day

/-- The record that a list is written into; an empty list is not written. -/
def PatternUpdate.target? (u : PatternUpdate Float) : Option WriteTarget := u.day?.map (.record u.symbol ·)

/-- What a batch writes: the bars of each symbol, then the record of each list. -/
def Batch.targets (b : Batch) : List WriteTarget := b.bars.keys.map .bars ++ b.patterns.filterMap (·.target?)

namespace FaultyStore
open Writer
variable {σ : Type}

/-- Whether a write fails. -/
def fails (s : FaultyStore σ) : WriteTarget → Bool
  | .bars symbol => s.failingBars.contains symbol
  | .record symbol _ => s.failingRecords.contains symbol

/-- Whether no write of a job's symbol and kind fails. -/
def spares (s : FaultyStore σ) : WriteJob → Bool :=
  WriteJob.within (fun symbol => !s.failingBars.contains symbol) (fun symbol => !s.failingRecords.contains symbol)

/-- Some writes were tried, of which those that did not fail left `inner`, and the others were counted. -/
def Leaves (s : FaultyStore σ) (targets : List WriteTarget) (inner : σ) (out : FaultyStore σ × Nat) : Prop :=
  ∃ tried, out = (⟨inner, s.failingBars, s.failingRecords, s.attempts ++ tried⟩, targets.countP s.fails) ∧
    tried.map (·.target) = targets

theorem Leaves.state {s : FaultyStore σ} {targets : List WriteTarget} {inner : σ} {out : FaultyStore σ × Nat}
    (h : s.Leaves targets inner out) :
    out.1.inner = inner ∧ out.1.failingBars = s.failingBars ∧ out.1.failingRecords = s.failingRecords := by
  obtain ⟨tried, rfl, -⟩ := h
  exact ⟨rfl, rfl, rfl⟩

theorem Leaves.trans {s : FaultyStore σ} {a b : List WriteTarget} {inner inner' : σ} {out out' : FaultyStore σ × Nat}
    (first : s.Leaves a inner out) (second : out.1.Leaves b inner' out') :
    s.Leaves (a ++ b) inner' (out'.1, out.2 + out'.2) := by
  obtain ⟨tried, rfl, listed⟩ := first
  obtain ⟨tried', rfl, listed'⟩ := second
  refine ⟨tried ++ tried', ?_, by rw [List.map_append, listed, listed']⟩
  rw [List.countP_append, List.append_assoc]
  rfl

/-- Writes on a store with failures do, unless they fail, what writes on the store within do. -/
structure Guards {α : Type} (I : σ → Prop) (keeps : List String → List String → α → Bool)
    (targets : α → List WriteTarget) (write : FaultyStore σ → α → FaultyStore σ × Except StoreFault Unit)
    (write' : σ → α → σ × Except StoreFault Unit) : Prop where
  kept : ∀ {inner}, I inner → ∀ a, I (write' inner a).1
  leaves : ∀ {s : FaultyStore σ}, I s.inner → ∀ a, s.Leaves (targets a)
    (if keeps s.failingBars s.failingRecords a then (write' s.inner a).1 else s.inner) (writeEach write s [a])

theorem Guards.leaves_writeEach {α : Type} {I : σ → Prop} {keeps : List String → List String → α → Bool}
    {targets : α → List WriteTarget} {write : FaultyStore σ → α → FaultyStore σ × Except StoreFault Unit}
    {write' : σ → α → σ × Except StoreFault Unit} (guards : Guards I keeps targets write write') (as : List α)
    {s : FaultyStore σ} (h : I s.inner) :
    I (writeEach write' s.inner (as.filter (keeps s.failingBars s.failingRecords))).1 ∧
      s.Leaves (as.flatMap targets)
        (writeEach write' s.inner (as.filter (keeps s.failingBars s.failingRecords))).1 (writeEach write s as) := by
  induction as generalizing s with
  | nil => exact ⟨h, [], by simp [writeEach], rfl⟩
  | cons a rest ih =>
    have first := guards.leaves h a
    obtain ⟨inner, bars, records⟩ := first.state
    have held : I (writeEach write s [a]).1.inner := by
      rw [inner]
      split
      · exact guards.kept h a
      · exact h
    have later := ih held
    have same :
        (writeEach write' (writeEach write s [a]).1.inner (rest.filter (keeps s.failingBars s.failingRecords))).1 =
          (writeEach write' s.inner ((a :: rest).filter (keeps s.failingBars s.failingRecords))).1 := by
      rw [inner, List.filter_cons]
      split <;> rfl
    rw [bars, records, same] at later
    rw [writeEach_cons_eq]
    exact ⟨later.1, first.trans later.2⟩

/-- A write of a symbol fails if it is one of those whose writes fail, and has no effect then. -/
theorem leaves_attempt {α : Type} {write : FaultyStore σ → α → FaultyStore σ × Except StoreFault Unit}
    {s : FaultyStore σ} {x : α} (a : WriteAttempt) {failing : List String} {symbol : String}
    (write' : σ → σ × Except StoreFault Unit) (asked : write s x = (s.tried a).attempt failing symbol write')
    (own : s.fails a.target = failing.contains symbol) (written : (write' s.inner).2 = .ok ()) :
    s.Leaves [a.target] (if !failing.contains symbol then (write' s.inner).1 else s.inner)
      (writeEach write s [x]) := by
  refine ⟨[a], ?_, rfl⟩
  rw [List.countP_singleton, own]
  simp only [writeEach, asked, attempt, tried]
  cases failing.contains symbol with
  | true => rfl
  | false => simp [written]

variable [Store σ] {shown : BarSeries → Instant → List (Bar Float)} {R : σ → MemoryStore → Prop}

theorem guards_saveBars (mirrors : Store.Mirrors shown R) :
    Guards (fun inner => ∃ t, R inner t) (fun failing _ e => !failing.contains e.1) (fun e => [.bars e.1])
      (fun s (e : String × List (Bar Float)) => Store.saveBars s e.1 e.2)
      (fun s e => Store.saveBars s e.1 e.2) where
  kept := fun ⟨_, h⟩ e => ⟨_, (mirrors.saveBars h e.1 e.2).2⟩
  leaves := fun ⟨_, h⟩ e =>
    leaves_attempt (.bars e.1 e.2.length) (Store.saveBars · e.1 e.2) rfl rfl (mirrors.saveBars h e.1 e.2).1

theorem guards_writePatterns (mirrors : Store.Mirrors shown R) :
    Guards (fun inner => ∃ t, R inner t) (fun _ failing u => !failing.contains u.symbol) (fun u => u.target?.toList)
      writePatterns writePatterns where
  kept := fun ⟨_, h⟩ u => ⟨_, (mirrors_writePatterns mirrors h u).2⟩
  leaves := by
    rintro s ⟨t, h⟩ u
    cases newest : u.divergences.getLast? with
    | none =>
      simp [PatternUpdate.target?, PatternUpdate.day?, newest, writePatterns, writeEach, Leaves]
    | some d =>
      obtain ⟨r, load, -⟩ := mirrors.record h u.symbol d.day
      have loaded : Store.loadRecord s u.symbol d.day = .ok r := load
      have saves := (mirrors_writePatterns mirrors h u).1
      have within : writePatterns s.inner u =
          Store.saveRecord s.inner u.symbol d.day (r.insert u.label u.divergences) := by
        simp only [writePatterns, newest, load]
      have target : u.target? = some (.record u.symbol d.day) := by
        simp [PatternUpdate.target?, PatternUpdate.day?, newest]
      rw [within] at saves ⊢
      rw [target]
      let record := r.insert u.label u.divergences
      refine leaves_attempt (.record u.symbol d.day record.keys) (Store.saveRecord · u.symbol d.day record) ?_ rfl saves
      simp only [writePatterns, newest, loaded]
      rfl

/-- Written in any order of the symbols, a batch leaves what its jobs that are spared leave on the store within. -/
theorem leaves_writeGroups (mirrors : Store.Mirrors shown R) {s : FaultyStore σ} {t : MemoryStore}
    (h : R s.inner t) (groups : List (String × List (Bar Float))) (lists : List (PatternUpdate Float)) :
    s.Leaves (groups.map (fun e => .bars e.1) ++ lists.filterMap (·.target?))
      (writeGroups s.inner (groups.filter fun e => !s.failingBars.contains e.1)
        (lists.filter fun u => !s.failingRecords.contains u.symbol)).1
      (writeGroups s groups lists) := by
  obtain ⟨held, bars⟩ := (guards_saveBars mirrors).leaves_writeEach groups ⟨t, h⟩
  obtain ⟨inner, -, records⟩ := bars.state
  rw [← inner] at held
  have written := ((guards_writePatterns mirrors).leaves_writeEach lists held).2
  rw [records, inner] at written
  rw [List.map_eq_flatMap, List.filterMap_eq_flatMap_toList]
  exact bars.trans written

/-- A batch is what it spares on the store within, and fails just if a write that it tries does. -/
theorem leaves_writeBatch (mirrors : Store.Mirrors shown R) {s : FaultyStore σ} {t : MemoryStore}
    (h : R s.inner t) (jobs : List WriteJob) :
    ∃ failed, s.Leaves (Batch.ofJobs jobs).targets (writeBatch s.inner (jobs.filter s.spares)).1
        ((writeBatch s jobs).1, failed) ∧
      (writeBatch s jobs).2 = if failed = 0 then .ok () else .error ⟨failed, (Batch.ofJobs jobs).size⟩ := by
  have written := leaves_writeGroups mirrors h (Batch.ofJobs jobs).bars.entries (Batch.ofJobs jobs).patterns
  refine ⟨(writeGroups s (Batch.ofJobs jobs).bars.entries (Batch.ofJobs jobs).patterns).2, ?_, rfl⟩
  rw [writeBatch_eq s.inner, spares, Batch.ofJobs_filter, Batch.targets, Table.keys, List.map_map]
  exact written

/-- The jobs that are spared all succeed on the store within, which stays the mirror of one in memory. -/
theorem writeBatch_spared (mirrors : Store.Mirrors shown R) {s : FaultyStore σ} {t : MemoryStore}
    (h : R s.inner t) (jobs : List WriteJob) :
    writeBatch s.inner (jobs.filter s.spares) = ((writeBatch s jobs).1.inner, .ok ()) ∧
      R (writeBatch s jobs).1.inner (writeBatch t (jobs.filter s.spares)).1 := by
  obtain ⟨failed, left, -⟩ := leaves_writeBatch mirrors h jobs
  obtain ⟨written, mirrored⟩ := mirrors_writeBatch mirrors h (jobs.filter s.spares)
  rw [left.state.1]
  exact ⟨Prod.ext rfl written, mirrored⟩

/-- A mirror has in a slot what memory has there. -/
theorem slot_eq (mirrors : Store.Mirrors shown R) {s : FaultyStore σ} {t : MemoryStore} (h : R s.inner t)
    (slot : String × String) (day : Day) :
    Store.slot s slot.1 slot.2 day = Store.slot t slot.1 slot.2 day := by
  obtain ⟨r, load, same⟩ := mirrors.record h slot.1 day
  exact (Store.slot_of_load (s := s) load slot.2).trans (same slot.2)

omit [Store σ] in
/-- The order of the symbols does not matter for what is spared of a batch. -/
theorem alike_filtered (t : MemoryStore) (s : FaultyStore σ) {jobs : List WriteJob}
    {groups : List (String × List (Bar Float))} (same : groups.Perm (Batch.ofJobs jobs).bars.entries) :
    MemoryStore.Alike
      (writeGroups t (groups.filter fun e => !s.failingBars.contains e.1)
        ((Batch.ofJobs jobs).patterns.filter fun u => !s.failingRecords.contains u.symbol)).1
      (writeBatch t (jobs.filter s.spares)).1 := by
  have apart : (groups.map (·.1)).Nodup :=
    (same.map _).nodup_iff.mpr (Table.nodup_keys (Batch.bars_ofJobs jobs).1)
  have kept := MemoryStore.alike_writeGroups t (same.filter fun e => !s.failingBars.contains e.1)
    (apart.sublist (List.filter_sublist.map _))
    ((Batch.ofJobs jobs).patterns.filter fun u => !s.failingRecords.contains u.symbol)
  rw [writeBatch_eq, spares, Batch.ofJobs_filter]
  exact kept

theorem sameBars_of_alike (mirrors : Store.Mirrors shown R) {s s' : FaultyStore σ} {t t' : MemoryStore}
    (h : R s.inner t) (h' : R s'.inner t') (alike : MemoryStore.Alike t t') :
    SameBars s s' ∧ ∀ slot, SameLists slot s s' := by
  refine ⟨fun symbol since => ⟨_, mirrors.bars h symbol since, ?_⟩, fun slot =>
    mirrors.sameLists h h' fun day => alike.record slot.1 day slot.2⟩
  rw [alike.series]
  exact mirrors.bars h' symbol since

/-- **Failed writes stay local.** In a store whose writes all succeed, let those of the bars of
some symbols and of the records of some fail. A batch leaves it as the jobs that are spared
leave the store without failures, where they all succeed. So the bars of a symbol stay as they
were if no job that is spared has some, and so does the list of a symbol and label under a day
if no list that is written there is spared: the other days, the other labels of the record, the
other symbols. What is tried are the bars of each symbol, and the record of each list that is
not empty, and the batch fails just if one of these fails; it tells how many did. It all does
not depend on the order in which the symbols of the bars are written. -/
theorem failures_stay_local (mirrors : Store.Mirrors shown R) {s : FaultyStore σ} {t : MemoryStore}
    (h : R s.inner t) (jobs : List WriteJob) :
    writeBatch s.inner (jobs.filter s.spares) = ((writeBatch s jobs).1.inner, .ok ()) ∧
      (∀ symbol, (∀ b, .archive b ∈ jobs.filter s.spares → b.symbol ≠ symbol) → ∀ since,
        Store.loadBars (writeBatch s jobs).1 symbol since = Store.loadBars s symbol since) ∧
      (∀ slot day, (∀ u ∈ (Batch.ofJobs (jobs.filter s.spares)).patterns, u.slot = slot → u.day? ≠ some day) →
        Store.slot (writeBatch s jobs).1 slot.1 slot.2 day = Store.slot s slot.1 slot.2 day) ∧
      (∃ tried, (writeBatch s jobs).1.attempts = s.attempts ++ tried ∧
        tried.map (·.target) = (Batch.ofJobs jobs).targets ∧
        ((∃ f, (writeBatch s jobs).2 = .error f) ↔ ∃ a ∈ tried, s.fails a.target = true) ∧
        ∀ f, (writeBatch s jobs).2 = .error f →
          f = ⟨tried.countP fun a => s.fails a.target, (Batch.ofJobs jobs).size⟩) ∧
      ∀ groups : List (String × List (Bar Float)), groups.Perm (Batch.ofJobs jobs).bars.entries →
        SameBars (writeGroups s groups (Batch.ofJobs jobs).patterns).1 (writeBatch s jobs).1 ∧
          (∀ slot, SameLists slot (writeGroups s groups (Batch.ofJobs jobs).patterns).1 (writeBatch s jobs).1) ∧
          (writeGroups s groups (Batch.ofJobs jobs).patterns).2 = (Batch.ofJobs jobs).targets.countP s.fails := by
  obtain ⟨failed, left, result⟩ := leaves_writeBatch mirrors h jobs
  obtain ⟨spared, mirrored⟩ := writeBatch_spared mirrors h jobs
  refine ⟨spared, fun symbol others since => ?_, fun slot day others => ?_, ?_, fun groups same => ?_⟩
  · have unchanged : archived symbol (jobs.filter s.spares) = [] := by
      refine List.filterMap_eq_nil_iff.mpr fun job hj => ?_
      cases job with
      | archive b => exact if_neg (others b hj)
      | patterns u => rfl
    refine (mirrors.bars mirrored symbol since).trans ?_
    rw [MemoryStore.series_writeBatch, unchanged]
    exact (mirrors.bars h symbol since).symm
  · rw [slot_eq mirrors mirrored, MemoryStore.slot_writeBatch, heldAfter_others others, slot_eq mirrors h]
  · obtain ⟨tried, out, listed⟩ := left
    obtain ⟨state, count⟩ := Prod.mk.inj out
    have failed_eq : failed = tried.countP fun a => s.fails a.target := by
      rw [count, ← listed, List.countP_map]
      rfl
    refine ⟨tried, congrArg FaultyStore.attempts state, listed, ?_, ?_⟩
    · rw [result, ← List.countP_pos_iff, ← failed_eq, Nat.pos_iff_ne_zero]
      split
      · rename_i none
        exact ⟨fun ⟨_, failed⟩ => (by cases failed), fun some => absurd none some⟩
      · rename_i some
        exact ⟨fun _ => some, fun _ => ⟨_, rfl⟩⟩
    · intro f hf
      rw [result] at hf
      split at hf
      · cases hf
      · rw [← failed_eq]
        exact (Except.error.inj hf).symm
  · have written := leaves_writeGroups mirrors h groups (Batch.ofJobs jobs).patterns
    obtain ⟨bars, lists⟩ := sameBars_of_alike mirrors (s := (writeGroups s groups (Batch.ofJobs jobs).patterns).1)
      (by rw [written.state.1]; exact (mirrors_writeGroups mirrors h _ _).2) mirrored (alike_filtered t s same)
    refine ⟨bars, lists, ?_⟩
    obtain ⟨tried, out, -⟩ := written
    rw [congrArg Prod.snd out]
    refine List.Perm.countP_eq _ (List.Perm.append_right _ ?_)
    rw [Table.keys, List.map_map]
    exact same.map _

/-- Bars of one symbol fail to be written, and records of another. -/
def halfBroken : FaultyStore MemoryStore := ⟨.empty, ["ABC"], ["ABX"], []⟩

/-- Bars of both symbols, and lists of a broken and of a whole one. -/
def mixed : List WriteJob :=
  [.archive (Bar.mk "ABC" ⟨0⟩ 1 1 1 1 1), .patterns { nightly ⟨0⟩ with symbol := "ABX" },
    .archive (Bar.mk "XYZ" ⟨0⟩ 1 1 1 1 1), .patterns (nightly ⟨0⟩)]

theorem failures_stay_local_mixed :
    Store.Mirrors BarSeries.since MemoryStore.Alike ∧ MemoryStore.Alike halfBroken.inner .empty ∧
      (writeBatch halfBroken mixed).2 = .error ⟨2, 4⟩ ∧
      writeBatch halfBroken.inner (mixed.filter halfBroken.spares) = ((writeBatch halfBroken mixed).1.inner, .ok ()) ∧
      ∀ since, Store.loadBars (writeBatch halfBroken mixed).1 "ABC" since = Store.loadBars halfBroken "ABC" since := by
  have alike : MemoryStore.Alike halfBroken.inner .empty := ⟨fun _ => rfl, fun _ _ _ => rfl⟩
  obtain ⟨spared, bars, -, -, -⟩ := failures_stay_local MemoryStore.mirrors_alike alike mixed
  refine ⟨MemoryStore.mirrors_alike, alike, by decide +kernel, spared, bars "ABC" ?_⟩
  simp [mixed, spares, WriteJob.within, halfBroken]

end FaultyStore
end TickerBoard

import TickerBoard.Proofs.Json.Doubles
import TickerBoard.Proofs.Storage.Interruption
import TickerBoard.Proofs.Storage.Retention

/-! The bars of a file as a series.

A file carries whole seconds and shortest decimals, so what is loaded is what was
saved, each bar as its text is read (`Bar.reread`). The bars of a file are in order
after any run of saves (`InFile`, kept by one save in `InFile.leaves` and by all in
`Loaded.saveEach`), but bars of one second come back with one time, and a bar whose
time is no whole second is not found again under the time that it was given.
`series_loaded` says what holds all the same, and `series_repeated` what does not. -/
namespace TickerBoard
open Directory

/-! ### What is read of a bar that was written -/

/-- The second that an instant lies in. -/
def Instant.toSecond (t : Instant) : Instant := ⟨t.seconds * 1000⟩

theorem Instant.toSecond_inCalendar {t : Instant} (inside : t.inCalendar = true) : t.toSecond.inCalendar = true := by
  have first : first.ms = -8334601228800000 := by decide
  rw [inCalendar_iff] at *
  simp only [toSecond, seconds]
  omega

theorem Instant.seconds_toSecond (t : Instant) : t.toSecond.seconds = t.seconds := by
  simp only [toSecond, seconds]
  omega

theorem Instant.toSecond_toSecond (t : Instant) : t.toSecond.toSecond = t.toSecond :=
  congrArg (fun n => Instant.mk (n * 1000)) t.seconds_toSecond

theorem Instant.toSecond_le {a b : Instant} (h : a.ms ≤ b.ms) : a.toSecond.ms ≤ b.toSecond.ms := by
  simp only [toSecond, seconds]
  omega

/-- The instant is a whole second. -/
def Instant.IsWhole (t : Instant) : Prop := t.toSecond = t

namespace Bar
open Json (ReadsAs reread_spec readsAs_seconds readsAs_nat)

/-- A bar with finite prices, at a time of the calendar and with a volume of one word. -/
structure Fileable (b : Bar Float) : Prop where
  time : b.time.inCalendar = true
  opening : b.opening.isFinite = true
  high : b.high.isFinite = true
  low : b.low.isFinite = true
  closing : b.closing.isFinite = true
  volume : b.volume < Word.size 64

/-- The bar as its text is read. -/
def reread (b : Bar Float) : Bar Float where
  symbol := b.symbol
  time := b.time.toSecond
  opening := Json.reread b.opening
  high := Json.reread b.high
  low := Json.reread b.low
  closing := Json.reread b.closing
  volume := b.volume

/-- A second reading changes nothing in what is read of the bar. -/
def Settled (b : Bar Float) : Prop := b.reread.reread = b.reread

theorem fileable_reread {b : Bar Float} (h : b.Fileable) : b.reread.Fileable where
  time := Instant.toSecond_inCalendar h.time
  opening := (reread_spec h.opening).2
  high := (reread_spec h.high).2
  low := (reread_spec h.low).2
  closing := (reread_spec h.closing).2
  volume := h.volume

theorem readsAs_reread {b : Bar Float} (h : b.Fileable) : ReadsAs ofWritten? b.json b.reread := by
  have time := readsAs_seconds (Instant.toSecond_inCalendar h.time) (show (b.time.seconds * 1000) % 1000 = 0 by omega)
  rw [Instant.seconds_toSecond] at time
  exact readsAs_parts rfl time (reread_spec h.opening).1 (reread_spec h.high).1 (reread_spec h.low).1
    (reread_spec h.closing).1 (readsAs_nat h.volume)

end Bar
namespace FileStore

/-! ### What a save leaves in the file -/

section Write
variable {s s' : FileStore} {symbol : String} {kept : List (Bar Float)}

/-- Bars that were written are loaded as their texts are read. -/
theorem bars_of_writeFile (fileable : ∀ b ∈ kept, b.Fileable)
    (written : s.writeFile (barsFile symbol) (.listOf Bar.json kept) = (s', .ok ())) :
    s'.bars symbol = .ok (kept.map Bar.reread) := by
  have replaced := replace_of_writeFile written
  have rewritten := replace_rewritten s.disk (barsFile symbol).temporary (barsFile symbol).path
    (Json.listOf Bar.json kept).compact
  rw [replaced] at rewritten
  obtain ⟨source, place, beside, final, nodes⟩ := replace_ok replaced
  have reached := (filePlace?_eq_some.mp final).1
  have file : s'.disk.get? (barsFile symbol).path = some (.file (some (Json.listOf Bar.json kept).compact)) := by
    rw [get?, walk_congr rewritten.folders, reached, Option.bind_some, nodes, if_pos rfl]
  have read := (Json.readsAs_map (g := Bar.reread) fun b hb => Bar.readsAs_reread (fileable b hb)).ofText?
  rw [bars, readFile, contains, read?, file]
  simp only [Option.isSome_some, Bool.not_true, Bool.false_eq_true, if_false, read]
  rfl

/-- The disk failed, not the calendar, and no file says anything unknown. -/
def OfDisk : StoreFault → Prop
  | .outsideCalendar | .parse _ => False
  | _ => True

/-- The bars that are loaded after a save: those before it and the new ones, less what the
retention drops, as their texts are read. A retention that begins before the calendar stops the
save. -/
def leaves (retention : Option Int) (old new : List (Bar Float)) : List (Bar Float) :=
  if new = [] then old
  else
    match retained? retention (BarSeries.merge (BarSeries.merge .empty old) new).values with
    | none => old
    | some kept => kept.map Bar.reread

theorem mem_merged {old new : List (Bar Float)} {b : Bar Float}
    (h : b ∈ (BarSeries.merge (BarSeries.merge .empty old) new).values) : b ∈ old ∨ b ∈ new :=
  (BarSeries.mem_or_mem_of_mem_values_merge (BarSeries.filed_merge BarSeries.filed_empty old) h).imp_left
    BarSeries.mem_of_mem_merge

theorem retained?_sublist {retention : Option Int} {bars kept : List (Bar Float)} (h : retained? retention bars = some kept) :
    kept.Sublist bars := by
  unfold retained? at h
  split at h
  · obtain ⟨cutoff, -, rfl⟩ := Option.map_eq_some_iff.mp h
    exact List.filter_sublist
  · obtain rfl := Option.some.inj h
    exact .refl _

theorem ofDisk_of_writeFile {t : Target} {j : Json} {e : StoreFault} (h : s.writeFile t j = (s', .error e)) :
    OfDisk e := by
  rw [writeFile] at h
  split at h <;> cases h <;> exact trivial

theorem saveBars_of_bars {old new : List (Bar Float)} (stored : s.bars symbol = .ok old) (some_new : new ≠ []) :
    s.saveBars symbol new =
      match retained? s.retention (BarSeries.merge (BarSeries.merge .empty old) new).values with
      | none => (s, .error .outsideCalendar)
      | some kept => s.writeFile (barsFile symbol) (.listOf Bar.json kept) := by
  have nonempty : ¬ new.isEmpty = true := by simpa using some_new
  cases kept : retained? s.retention (BarSeries.merge (BarSeries.merge .empty old) new).values <;>
    simp only [saveBars_eq, if_neg nonempty, stored, kept]

/-- The disk fails no save under a symbol that is its own file name, if that is not too long. -/
theorem saveBars_named (tidy : Tidy s.disk) (named : Named symbol) (short : Short (symbol ++ ".json.tmp"))
    {old : List (Bar Float)} (stored : s.bars symbol = .ok old) (new : List (Bar Float)) :
    Tidy (s.saveBars symbol new).1.disk ∧ ∀ fault, (s.saveBars symbol new).2 = .error fault → ¬ OfDisk fault := by
  by_cases nothing : new = []
  · subst nothing
    exact ⟨tidy, fun _ => nofun⟩
  · rw [saveBars_of_bars stored nothing]
    split
    · exact ⟨tidy, by rintro _ ⟨⟩ ⟨⟩⟩
    · rename_i kept retained
      have stem : (barsFile symbol).stem = symbol := named.own
      obtain ⟨s', written, keeps, -⟩ := writeFile_spec tidy (usable_bars named) tidy.bars (by rwa [stem])
        (Json.listOf Bar.json kept)
      rw [written]
      exact ⟨keeps.tidy, fun _ => nofun⟩

/-- Saving bars changes the bars under its stem only. -/
theorem bars_saveBars (opened : Opened s.disk) {old new : List (Bar Float)} (stored : s.bars symbol = .ok old)
    (hold : ∀ b ∈ old, b.Fileable) (hnew : ∀ b ∈ new, b.Fileable)
    (unfailing : ∀ e, (s.saveBars symbol new).2 = .error e → ¬ OfDisk e) (other : String) :
    (s.saveBars symbol new).1.bars other =
      if stem other = stem symbol then .ok (leaves s.retention old new) else s.bars other := by
  have same_file : ∀ {t : FileStore}, stem other = stem symbol → t.bars other = t.bars symbol := fun same => by
    rw [bars, bars, barsFile, barsFile, same]
  split
  · rename_i same
    rw [same_file same]
    by_cases nothing : new = []
    · subst nothing
      exact stored
    · have saved := saveBars_of_bars stored nothing
      rw [saved] at unfailing ⊢
      rw [leaves, if_neg nothing]
      cases retained : retained? s.retention (BarSeries.merge (BarSeries.merge .empty old) new).values with
      | none => exact stored
      | some kept =>
        rw [retained] at unfailing
        dsimp only at unfailing ⊢
        rcases written : s.writeFile (barsFile symbol) (.listOf Bar.json kept) with ⟨s', e | done⟩
        · exact absurd (ofDisk_of_writeFile written) (unfailing e (congrArg Prod.snd written))
        · refine bars_of_writeFile (fun b hb => ?_) written
          exact (mem_merged ((retained?_sublist retained).subset hb)).elim (hold b) (hnew b)
  · rename_i apart
    obtain ⟨root, touched⟩ := touched_save opened symbol (.bars new)
    exact congrArg _ (readFile_of_get? root (get?_bars_of_touched (Ne.symm apart) touched))

end Write

/-! ### The bars of one file -/

/-- The bars of a file that some bars were saved into. -/
structure InFile (saved bars : List (Bar Float)) : Prop where
  fileable : ∀ b ∈ bars, b.Fileable
  whole : ∀ b ∈ bars, b.time.IsWhole
  ordered : bars.Pairwise fun a b => a.time.ms ≤ b.time.ms
  keyed : (∀ b ∈ saved, b.time.IsWhole) → bars.Pairwise fun a b => a.time.ms < b.time.ms
  settled : (∀ b ∈ saved, b.Settled) → ∀ b ∈ bars, b.reread = b

theorem inFile_nil : InFile [] [] := ⟨nofun, nofun, .nil, fun _ => .nil, fun _ => nofun⟩

theorem InFile.leaves {saved old new : List (Bar Float)} (h : InFile saved old) (fileable : ∀ b ∈ new, b.Fileable)
    (retention : Option Int) : InFile (saved ++ new) (leaves retention old new) := by
  have unchanged : InFile (saved ++ new) old :=
    { h with
      keyed := fun all => h.keyed fun b hb => all b (List.mem_append_left _ hb)
      settled := fun all => h.settled fun b hb => all b (List.mem_append_left _ hb) }
  unfold FileStore.leaves
  split
  · exact unchanged
  split
  · exact unchanged
  rename_i kept retained
  have came (b : Bar Float) (hb : b ∈ kept) : b ∈ old ∨ b ∈ new := mem_merged ((retained?_sublist retained).subset hb)
  have order : kept.Pairwise fun a b => a.time.ms < b.time.ms :=
    (BarSeries.ascending_values (BarSeries.filed_merge (BarSeries.filed_merge BarSeries.filed_empty old) new)).sublist
      (retained?_sublist retained)
  constructor
  · refine List.forall_mem_map.mpr fun b hb => Bar.fileable_reread ?_
    exact (came b hb).elim (h.fileable b) (fileable b)
  · exact List.forall_mem_map.mpr fun b hb => b.time.toSecond_toSecond
  · exact List.pairwise_map.mpr (order.imp fun earlier => Instant.toSecond_le (Int.le_of_lt earlier))
  · -- whole seconds are read as they are
    intro whole
    have same (b : Bar Float) (hb : b ∈ kept) : b.reread.time = b.time :=
      (came b hb).elim (h.whole b) fun here => whole b (List.mem_append_right _ here)
    refine List.pairwise_map.mpr (order.imp_of_mem fun ha hb earlier => ?_)
    rwa [same _ ha, same _ hb]
  · intro settled
    refine List.forall_mem_map.mpr fun b hb => ?_
    rcases came b hb with before | here
    · have same := unchanged.settled settled b before
      rw [same, same]
    · exact settled b (List.mem_append_right _ here)

/-! ### Saving the same bars again -/

/-- Where bars were retained, the retention begins in the calendar. -/
theorem inside_of_retained? {retention : Option Int} {series : BarSeries} (h : series.Filed) {kept : List (Bar Float)}
    (retained : retained? retention series.values = some kept) :
    ∀ keep n, retention = some keep → newest series.keys = some n → (⟨n - keep⟩ : Instant).inCalendar = true := by
  rintro keep n rfl top
  obtain ⟨⟨t, listed, -⟩, -⟩ := newest_eq_some.mp top
  have some_value : series.values ≠ [] := by
    intro nothing
    rw [BarSeries.keys_eq h, nothing] at listed
    cases listed
  have last := List.getLast?_eq_some_getLast some_value
  have same := Option.some.inj (top.symm.trans (BarSeries.newest_keys h last))
  simp only [retained?, last] at retained
  obtain ⟨cutoff, begins, -⟩ := Option.map_eq_some_iff.mp retained
  rw [Instant.plus?, ← Int.sub_eq_add_neg, ← same, Instant.ofMs?, Option.ite_none_right_eq_some] at begins
  exact begins.1

section Again
variable {retention : Option Int} {old new : List (Bar Float)}

/-- A series whose bars are read back. -/
def rereadSeries (series : BarSeries) : BarSeries := series.mapValues Bar.reread

theorem values_rereadSeries (series : BarSeries) : (rereadSeries series).values = series.values.map Bar.reread := by
  simp [rereadSeries, Table.values, Table.mapValues]

theorem find?_rereadSeries (series : BarSeries) (t : Instant) :
    (rereadSeries series).find? t = (series.find? t).map Bar.reread :=
  Table.find?_mapValues ..

theorem filed_rereadSeries {series : BarSeries} (h : series.Filed) (whole : ∀ b ∈ series.values, b.time.IsWhole) :
    (rereadSeries series).Filed := by
  refine ⟨Table.ascending_of_keys h.ascending (Table.keys_mapValues ..), fun e he => ?_⟩
  obtain ⟨e, there, rfl⟩ := List.mem_map.mp he
  exact (h.keyed e there).trans (whole e.2 (List.mem_map.mpr ⟨e, there, rfl⟩)).symm

/-- A retention that counts ahead of the newest bar leaves none. -/
theorem values_recent_eq_nil {series : BarSeries} (h : series.Filed) {keep : Int} (ahead : keep < 0) :
    (series.recent (some keep)).values = [] := by
  rw [BarSeries.values_recent h, List.filter_eq_nil_iff]
  intro b listed reached
  have there : b.time ∈ series.keys := by
    rw [BarSeries.keys_eq h]
    exact List.mem_map.mpr ⟨b, listed, rfl⟩
  have := reaches_iff.mp reached keep rfl b.time there
  omega

theorem leaves_eq {kept : BarSeries} (h : kept.Filed) (some_new : new ≠ [])
    (inside : ∀ keep n, retention = some keep → newest (kept.merge new).keys = some n →
      (⟨n - keep⟩ : Instant).inCalendar = true) :
    leaves retention kept.values new = ((kept.merge new).recent retention).values.map Bar.reread := by
  rw [leaves, if_neg some_new, BarSeries.merge_values h, retained?_values (BarSeries.filed_merge h new) inside]

theorem leaves_leaves (fixed : ∀ b ∈ old, b.reread = b)
    (whole : ∀ b ∈ new, b.time.IsWhole) :
    leaves retention (leaves retention old new) new = leaves retention old new := by
  by_cases nothing : new = []
  · rw [leaves, if_pos nothing]
  have filed := BarSeries.filed_merge (BarSeries.filed_merge BarSeries.filed_empty old) new
  generalize merged : BarSeries.merge (BarSeries.merge .empty old) new = series at filed
  cases retained : retained? retention series.values with
  | none =>
    have stopped : leaves retention old new = old := by rw [leaves, if_neg nothing, merged, retained]
    rw [stopped, stopped]
  | some kept =>
    have inside := inside_of_retained? filed retained
    have left : leaves retention old new = (rereadSeries (series.recent retention)).values := by
      rw [values_rereadSeries, leaves, if_neg nothing, merged, retained?_values filed inside]
    have came (b : Bar Float) (hb : b ∈ (series.recent retention).values) : b ∈ old ∨ b ∈ new := by
      rw [BarSeries.values_recent filed] at hb
      exact mem_merged (merged ▸ List.mem_of_mem_filter hb)
    have filed' := filed_rereadSeries (BarSeries.filed_recent retention filed) fun b hb =>
      (came b hb).elim (fun before => congrArg Bar.time (fixed b before)) (whole b)
    rw [left]
    by_cases forward : ∀ keep ∈ retention, 0 ≤ keep
    · have top : newest ((rereadSeries (series.recent retention)).merge new).keys = newest series.keys := by
        have ofNew (u : Instant) (hu : u ∈ new.map (·.time)) : u ∈ series.keys := by
          rw [← merged]
          exact (BarSeries.mem_keys_merge (BarSeries.filed_merge BarSeries.filed_empty old)).mpr (.inr hu)
        refine newest_congr (fun u hu => ?_) fun u hu => ?_
        · refine ((BarSeries.mem_keys_merge filed').mp hu).elim (fun kept => ?_) (ofNew u)
          rw [rereadSeries, Table.keys_mapValues] at kept
          exact ((BarSeries.mem_keys_recent filed).mp kept).1
        · obtain ⟨v, kept, newer⟩ := BarSeries.newest_recent filed forward hu
          refine ⟨v, (BarSeries.mem_keys_merge filed').mpr (.inl ?_), newer⟩
          rwa [rereadSeries, Table.keys_mapValues]
      rw [leaves_eq filed' nothing fun keep n some_keep found => inside keep n some_keep (top ▸ found),
        ← values_rereadSeries]
      refine congrArg Table.values ?_
      have again := BarSeries.filed_recent retention (BarSeries.filed_merge filed' new)
      refine Table.ext_find? (Table.ascending_of_keys again.ascending (Table.keys_mapValues ..)) filed'.ascending
        fun t => ?_
      rw [find?_rereadSeries, BarSeries.find?_recent (BarSeries.filed_merge filed' new), reaches_congr top,
        BarSeries.find?_merge, find?_rereadSeries, BarSeries.find?_recent filed]
      have found : series.find? t = (BarSeries.lastAt t new).or (BarSeries.lastAt t old) := by
        rw [← merged, BarSeries.find?_merge, BarSeries.find?_merge, Table.find?_empty, Option.or_none]
      -- a new bar replaces the old one both times, and an old one is read as it is
      cases last : BarSeries.lastAt t new with
      | some c => rw [found, last, Option.some_or, Option.some_or]
      | none =>
        rw [found, last, Option.none_or, Option.none_or]
        cases before : BarSeries.lastAt t old with
        | none => rfl
        | some b =>
          have same := fixed b (BarSeries.lastAt_eq_some before).1
          cases reached : reaches retention series.keys t with
          | false => rfl
          | true => exact congrArg some (congrArg Bar.reread same)
    · obtain ⟨keep, rfl, ahead⟩ : ∃ keep, retention = some keep ∧ keep < 0 := by simpa using forward
      rw [values_rereadSeries, values_recent_eq_nil filed ahead, List.map_nil, leaves, if_neg nothing]
      split
      · rfl
      · rename_i again
        have filed'' := BarSeries.filed_merge (BarSeries.filed_merge BarSeries.filed_empty []) new
        rw [retained?_values filed'' (inside_of_retained? filed'' again), values_recent_eq_nil filed'' ahead] at again
        rw [← Option.some.inj again, List.map_nil]

end Again

/-! ### Runs of saves -/

section Run
variable {root : String} {retention : Option Int} {s : FileStore} {saves : List (String × List (Bar Float))}

/-- The store after some saves, each of bars for a symbol. -/
def saveEach (s : FileStore) (saves : List (String × List (Bar Float))) : FileStore :=
  saves.foldl (fun s e => (s.saveBars e.1 e.2).1) s

/-- The bars of the saves that go to the file of a symbol. -/
def savedTo (symbol : String) (saves : List (String × List (Bar Float))) : List (Bar Float) :=
  (saves.filter fun e => stem symbol = stem e.1).flatMap (·.2)

/-- The disk fails none of the saves. -/
def Unfailing (s : FileStore) : List (String × List (Bar Float)) → Prop
  | [] => True
  | e :: rest => (∀ fault, (s.saveBars e.1 e.2).2 = .error fault → ¬ OfDisk fault) ∧ Unfailing (s.saveBars e.1 e.2).1 rest

theorem saveEach_append (s : FileStore) (saves more : List (String × List (Bar Float))) :
    s.saveEach (saves ++ more) = (s.saveEach saves).saveEach more :=
  List.foldl_append

theorem savedTo_append (symbol : String) (saves more : List (String × List (Bar Float))) :
    savedTo symbol (saves ++ more) = savedTo symbol saves ++ savedTo symbol more := by
  rw [savedTo, List.filter_append, List.flatMap_append]
  rfl

theorem savedTo_singleton (symbol : String) (e : String × List (Bar Float)) :
    savedTo symbol [e] = if stem symbol = stem e.1 then e.2 else [] := by
  by_cases own : stem symbol = stem e.1 <;> simp [savedTo, own]

theorem unfailing_append {more : List (String × List (Bar Float))} :
    Unfailing s (saves ++ more) ↔ Unfailing s saves ∧ Unfailing (s.saveEach saves) more := by
  induction saves generalizing s with
  | nil => simp [Unfailing, saveEach]
  | cons e rest ih => simp only [List.cons_append, Unfailing, ih, saveEach, List.foldl_cons, and_assoc]

theorem retention_saveBars (s : FileStore) (symbol : String) (new : List (Bar Float)) :
    (s.saveBars symbol new).1.retention = s.retention := by
  rw [saveBars_eq]
  split
  · rfl
  · split
    · rfl
    · split
      · rfl
      · rw [writeFile_fst]

/-- What all files say after some saves. -/
structure Loaded (retention : Option Int) (saves : List (String × List (Bar Float))) (s : FileStore) : Prop where
  opened : Opened s.disk
  limit : s.retention = retention
  bars : ∀ symbol, ∃ bars, s.bars symbol = .ok bars ∧ InFile (savedTo symbol saves) bars

theorem loaded_created (made : create? root retention = some s) : Loaded retention [] s := by
  obtain rfl := eq_fresh_of_create? made
  refine ⟨opened_fresh root, rfl, fun symbol => ⟨[], ?_, inFile_nil⟩⟩
  rw [bars, readFile, contains, get?_bars_fresh]
  rfl

theorem Loaded.save (h : Loaded retention saves s) {e : String × List (Bar Float)} (fileable : ∀ b ∈ e.2, b.Fileable)
    (unfailing : ∀ fault, (s.saveBars e.1 e.2).2 = .error fault → ¬ OfDisk fault) :
    Loaded retention (saves ++ [e]) (s.saveBars e.1 e.2).1 := by
  obtain ⟨old, stored, inFile⟩ := h.bars e.1
  refine ⟨(touched_save h.opened e.1 (.bars e.2)).2.opened h.opened, ?_, fun symbol => ?_⟩
  · rw [retention_saveBars, h.limit]
  · rw [bars_saveBars h.opened stored inFile.fileable fileable unfailing, savedTo_append, savedTo_singleton]
    split
    · rename_i own
      refine ⟨_, rfl, ?_⟩
      rw [savedTo, own]
      exact inFile.leaves fileable s.retention
    · rw [List.append_nil]
      exact h.bars symbol

theorem Loaded.saveEach {earlier : List (String × List (Bar Float))} (h : Loaded retention earlier s)
    (fileable : ∀ e ∈ saves, ∀ b ∈ e.2, b.Fileable) (unfailing : Unfailing s saves) :
    Loaded retention (earlier ++ saves) (s.saveEach saves) := by
  induction saves generalizing earlier s with
  | nil => rwa [List.append_nil]
  | cons e rest ih =>
    have next := ih (h.save (fileable e (List.mem_cons_self ..)) unfailing.1)
      (fun x hx => fileable x (List.mem_cons_of_mem _ hx)) unfailing.2
    rwa [List.append_assoc, List.singleton_append] at next

theorem Loaded.unfailing {earlier : List (String × List (Bar Float))} (h : Loaded retention earlier s)
    (tidy : Tidy s.disk) (named : ∀ e ∈ saves, Named e.1 ∧ Short (e.1 ++ ".json.tmp"))
    (fileable : ∀ e ∈ saves, ∀ b ∈ e.2, b.Fileable) : Unfailing s saves := by
  induction saves generalizing earlier s with
  | nil => trivial
  | cons e rest ih =>
    obtain ⟨own, short⟩ := named e (List.mem_cons_self ..)
    obtain ⟨old, stored, -⟩ := h.bars e.1
    obtain ⟨tidy', unfailing⟩ := saveBars_named tidy own short stored e.2
    exact ⟨unfailing, ih (h.save (fileable e (List.mem_cons_self ..)) unfailing) tidy'
      (fun x hx => named x (List.mem_cons_of_mem _ hx)) fun x hx => fileable x (List.mem_cons_of_mem _ hx)⟩

/-- A save that is made twice leaves what it leaves once, if its times are whole seconds and the bars before
it have settled. -/
theorem Loaded.bars_twice (h : Loaded retention saves s) {e : String × List (Bar Float)}
    (fileable : ∀ b ∈ e.2, b.Fileable) (unfailing : Unfailing s [e, e])
    (settled : ∀ b ∈ savedTo e.1 saves, b.Settled) (whole : ∀ b ∈ e.2, b.time.IsWhole) (symbol : String) :
    (s.saveEach [e, e]).bars symbol = (s.saveEach [e]).bars symbol := by
  obtain ⟨old, stored, inFile⟩ := h.bars e.1
  have once := h.save fileable unfailing.1
  have left := bars_saveBars h.opened stored inFile.fileable fileable unfailing.1 e.1
  rw [if_pos rfl] at left
  have again := bars_saveBars once.opened left (inFile.leaves fileable _).fileable fileable unfailing.2.1 symbol
  show ((s.saveBars e.1 e.2).1.saveBars e.1 e.2).1.bars symbol = (s.saveBars e.1 e.2).1.bars symbol
  rw [again, retention_saveBars, leaves_leaves (inFile.settled settled) whole]
  split
  · rename_i own
    rw [bars_saveBars h.opened stored inFile.fileable fileable unfailing.1, if_pos own]
  · rfl

/-- **A file of bars as a series.** Files carry whole seconds, so what is loaded after any run of saves is
ordered by time, but two bars of one second come back with one time: no time comes twice where all bars saved to
the file were at whole seconds. There a save that is made twice in turn also leaves what it leaves once, on
condition that the prices of the bars saved before it are read back the same a second time. -/
theorem series_loaded (made : create? root retention = some s) (fileable : ∀ e ∈ saves, ∀ b ∈ e.2, b.Fileable)
    (unfailing : Unfailing s saves) :
    (∀ symbol since, ∃ bars, Store.loadBars (s.saveEach saves) symbol since = .ok bars ∧
      bars.Pairwise (fun a b => a.time.ms ≤ b.time.ms) ∧
      ((∀ b ∈ savedTo symbol saves, b.time.IsWhole) → bars.Pairwise fun a b => a.time.ms < b.time.ms)) ∧
    ∀ earlier e, saves = earlier ++ [e, e] → (∀ b ∈ e.2, b.time.IsWhole) → (∀ b ∈ savedTo e.1 earlier, b.Settled) →
      ∀ symbol since,
        Store.loadBars (s.saveEach saves) symbol since = Store.loadBars (s.saveEach (earlier ++ [e])) symbol since := by
  refine ⟨fun symbol since => ?_, ?_⟩
  · obtain ⟨bars, stored, inFile⟩ := ((loaded_created made).saveEach fileable unfailing).bars symbol
    refine ⟨bars.filter fun b => since.ms ≤ b.time.ms, congrArg (Except.map _) stored, inFile.ordered.filter _, ?_⟩
    exact fun whole => (inFile.keyed whole).filter _
  · rintro earlier e rfl whole settled symbol since
    obtain ⟨before, twice⟩ := unfailing_append.mp unfailing
    have loaded := (loaded_created made).saveEach (fun x hx => fileable x (List.mem_append_left _ hx)) before
    have same := loaded.bars_twice (fileable e (by simp)) twice settled whole symbol
    rw [saveEach_append, saveEach_append]
    exact congrArg (Except.map _) same

end Run

/-- A bar at a price of one. -/
def unitBar (ms : Int) : Bar Float := ⟨"XYZ", ⟨ms⟩, 1, 1, 1, 1, 5⟩

theorem fileable_unitBar {ms : Int} (inside : (⟨ms⟩ : Instant).inCalendar = true) : (unitBar ms).Fileable := by
  have price : (1 : Float).isFinite = true := by decide +kernel
  exact ⟨inside, price, price, price, price, by show 5 < Word.size 64; decide⟩

theorem settled_unitBar (ms : Int) : (unitBar ms).Settled := by
  have price : Json.reread 1 = 1 := by decide +kernel
  simp only [Bar.Settled, Bar.reread, unitBar, price, Instant.toSecond_toSecond]

/-- Two bars a second apart, the later of which is saved twice. -/
theorem series_loaded_twice :
    (∃ bars, Store.loadBars ((fresh "data").saveEach
        [("XYZ", [unitBar 1000]), ("XYZ", [unitBar 2000]), ("XYZ", [unitBar 2000])]) "XYZ" ⟨0⟩ = .ok bars ∧
      bars.Pairwise fun a b => a.time.ms < b.time.ms) ∧
    Store.loadBars ((fresh "data").saveEach
        [("XYZ", [unitBar 1000]), ("XYZ", [unitBar 2000]), ("XYZ", [unitBar 2000])]) "XYZ" ⟨0⟩ =
      Store.loadBars ((fresh "data").saveEach [("XYZ", [unitBar 1000]), ("XYZ", [unitBar 2000])]) "XYZ" ⟨0⟩ := by
  have fileable : ∀ e ∈ [("XYZ", [unitBar 1000]), ("XYZ", [unitBar 2000]), ("XYZ", [unitBar 2000])],
      ∀ b ∈ e.2, b.Fileable := by
    have both : ∀ ms ∈ [1000, 2000], (unitBar ms).Fileable := fun ms listed =>
      fileable_unitBar (by rcases List.mem_pair.mp listed with rfl | rfl <;> decide)
    simp [both]
  have made := create?_fresh "data"
  have named : Named "XYZ" := ⟨by decide +kernel, plain_of_length (by decide)⟩
  have unfailing : Unfailing (fresh "data") [("XYZ", [unitBar 1000]), ("XYZ", [unitBar 2000]), ("XYZ", [unitBar 2000])] :=
    (loaded_created made).unfailing (create?_spec made).1 (by simp [named]; decide) fileable
  obtain ⟨loads, twice⟩ := series_loaded made fileable unfailing
  refine ⟨?_, twice [("XYZ", [unitBar 1000])] _ rfl ?_ ?_ "XYZ" ⟨0⟩⟩
  · obtain ⟨bars, loaded, -, keyed⟩ := loads "XYZ" ⟨0⟩
    refine ⟨bars, loaded, keyed ?_⟩
    simp [savedTo, unitBar, Instant.IsWhole, Instant.toSecond, Instant.seconds]
  · exact List.forall_mem_singleton.mpr rfl
  · simp [savedTo, settled_unitBar]

/-- Bars half a second apart come back at one time, and a bar that is not at a whole second comes back twice
when it is saved twice. -/
theorem series_repeated :
    ((fresh "data").saveEach [("XYZ", [unitBar 1000, unitBar 1500])]).bars "XYZ" = .ok [unitBar 1000, unitBar 1000] ∧
    ((fresh "data").saveEach [("XYZ", [unitBar 2500])]).bars "XYZ" = .ok [unitBar 2000] ∧
    ((fresh "data").saveEach [("XYZ", [unitBar 2500]), ("XYZ", [unitBar 2500])]).bars "XYZ" =
      .ok [unitBar 2000, unitBar 2000] := by
  refine ⟨?_, ?_, ?_⟩ <;> decide +kernel

end FileStore
end TickerBoard

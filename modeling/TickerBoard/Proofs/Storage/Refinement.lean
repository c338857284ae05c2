import TickerBoard.Proofs.Storage.Layout
import TickerBoard.Proofs.Storage.Retention

/-! A store in files against one in memory.

Whatever a program asks of a store in files, it is answered as by a store in
memory that was asked the same, but that of the bars of a symbol only those are
shown that the retention reaches from the newest ever saved
(`files_refine_memory`). `Refines` is the invariant that a request keeps: the
files say what the memory holds, less what the retention dropped. Names, times
and numbers must be such as files carry (`Request.Fits`); then no write fails. -/
namespace TickerBoard
open Directory

/-! ### Asking a store -/

namespace Store

inductive Request
  | instruments
  | saveInstrument (symbol : String)
  | deleteInstrument (symbol : String)
  | loadBars (symbol : String) (since : Instant)
  | latestBar (symbol : String) (since : Instant)
  | saveBars (symbol : String) (bars : List (Bar Float))
  | loadRecord (symbol : String) (day : Day)
  | saveRecord (symbol : String) (day : Day) (r : DayRecord)
  | reopen

inductive Reply
  | done
  | instruments (names : List String)
  | bars (bars : List (Bar Float))
  | bar (latest : Option (Bar Float))
  | record (r : DayRecord)

section Serve
variable {σ : Type} [Store σ]

def acknowledge (step : σ × Except StoreFault Unit) : σ × Except StoreFault Reply :=
  (step.1, step.2.map fun () => .done)

/-- The store after a request, and the reply; `reopen` opens what the store left behind. -/
def serve (reopen : σ → σ × Except StoreFault Unit) (s : σ) : Request → σ × Except StoreFault Reply
  | .instruments => (s, (instruments s).map .instruments)
  | .saveInstrument symbol => acknowledge (saveInstrument s symbol)
  | .deleteInstrument symbol => acknowledge (deleteInstrument s symbol)
  | .loadBars symbol since => (s, (loadBars s symbol since).map .bars)
  | .latestBar symbol since => (s, (latestBar s symbol since).map .bar)
  | .saveBars symbol bars => acknowledge (saveBars s symbol bars)
  | .loadRecord symbol day => (s, (loadRecord s symbol day).map .record)
  | .saveRecord symbol day r => acknowledge (saveRecord s symbol day r)
  | .reopen => acknowledge (reopen s)

/-- The store after some requests. -/
def after (reopen : σ → σ × Except StoreFault Unit) (s : σ) (requests : List Request) : σ :=
  requests.foldl (fun s request => (serve reopen s request).1) s

theorem after_concat (reopen : σ → σ × Except StoreFault Unit) (s : σ) (requests : List Request) (request : Request) :
    after reopen s (requests ++ [request]) = (serve reopen (after reopen s requests) request).1 :=
  List.foldl_append

end Serve

/-- The bars of a symbol that requests saved, in turn. -/
def saved (symbol : String) (requests : List Request) : List (Bar Float) :=
  requests.flatMap fun
    | .saveBars name bars => if name = symbol then bars else []
    | _ => []

theorem saved_append (symbol : String) (a b : List Request) : saved symbol (a ++ b) = saved symbol a ++ saved symbol b :=
  List.flatMap_append

theorem saved_saveBars (symbol name : String) (bars : List (Bar Float)) :
    saved symbol [.saveBars name bars] = if name = symbol then bars else [] :=
  List.flatMap_singleton ..

end Store

open Store

namespace MemoryStore

/-- The reply of a memory store that shows only some of its bars. A memory store is not closed, and so
it is not opened again. -/
def reply (shown : String → Instant → Bool) (m : MemoryStore) : Request → Except StoreFault Reply
  | .loadBars symbol since => (loadBars m symbol since).map fun bars => .bars (bars.filter fun b => shown symbol b.time)
  | .latestBar symbol since =>
    (loadBars m symbol since).map fun bars => .bar (bars.filter fun b => shown symbol b.time).getLast?
  | request => (serve (fun m => (m, .ok ())) m request).2

def after (m : MemoryStore) (requests : List Request) : MemoryStore := Store.after (fun m => (m, .ok ())) m requests

end MemoryStore

namespace FileStore

/-! ### Requests whose values files carry -/

/-- The file system takes the names of a request that comes after others, and files carry its values. -/
def Request.Fits (retention : Option Int) (earlier : List Request) : Request → Prop
  | .loadBars symbol _ | .latestBar symbol _ => Named symbol
  | .saveBars symbol bars => Named symbol ∧ (bars ≠ [] → Short (symbol ++ ".json.tmp") ∧ (∀ b ∈ bars, b.Encodable) ∧
      ∀ keep n, retention = some keep → newest ((saved symbol earlier ++ bars).map (·.time)) = some n →
        (⟨n - keep⟩ : Instant).inCalendar = true)
  | .loadRecord symbol day => Named symbol ∧ day.inCalendar = true
  | .saveRecord symbol day r => Named symbol ∧ Short symbol ∧ day.inCalendar = true ∧ r.Encodable
  | _ => True

/-- Every request of a run does. -/
def Fits (retention : Option Int) (requests : List Request) : Prop :=
  ∀ before request later, requests = before ++ request :: later → Request.Fits retention before request

theorem fits_nil {retention : Option Int} : Fits retention [] := fun before request later split => by
  cases before <;> cases split

theorem fits_concat {retention : Option Int} {requests : List Request} (fits : Fits retention requests)
    (request : Request) (next : Request.Fits retention requests request) : Fits retention (requests ++ [request]) := by
  intro before other later split
  rcases List.eq_nil_or_concat later with rfl | ⟨later, last, rfl⟩
  · obtain ⟨rfl, rfl⟩ := List.append_singleton_inj.mp split
    exact next
  · rw [List.concat_eq_append, ← List.cons_append, ← List.append_assoc] at split
    exact fits before other later (List.append_singleton_inj.mp split).1

def after (s : FileStore) (requests : List Request) : FileStore := Store.after prepare s requests

/-! ### What the files say -/

/-- After some requests, the files say what the memory holds, less what the retention dropped. -/
structure Refines (retention : Option Int) (requests : List Request) (s : FileStore) (m : MemoryStore) : Prop where
  tidy : Tidy s.disk
  limit : s.retention = retention
  instruments : s.instruments = .ok m.instruments
  ascending : m.instruments.Ascending
  series : ∀ symbol, m.series symbol = BarSeries.merge .empty (saved symbol requests)
  encodable : ∀ symbol, ∀ b ∈ saved symbol requests, b.Encodable
  bars : ∀ symbol, Named symbol → s.bars symbol = .ok ((m.series symbol).recent retention).values
  records : ∀ symbol day, Named symbol → day.inCalendar = true → s.record symbol day = .ok (m.record symbol day)

namespace Keeps
variable {s s' : FileStore} {changed : Target → Prop}

theorem instruments_eq (keeps : Keeps s s' changed) (other : ¬ changed instrumentsFile) :
    s'.instruments = s.instruments := by
  rw [FileStore.instruments, keeps.others instrumentsOf? usable_instruments other]
  rfl

theorem bars_eq (keeps : Keeps s s' changed) {symbol : String} (named : Named symbol)
    (other : ¬ changed (barsFile symbol)) : s'.bars symbol = s.bars symbol := by
  rw [FileStore.bars, keeps.others _ (usable_bars named) other]
  rfl

theorem record_eq (keeps : Keeps s s' changed) {symbol : String} (named : Named symbol) {day : Day}
    (other : ¬ changed (recordFile symbol day)) : s'.record symbol day = s.record symbol day := by
  rw [FileStore.record, keeps.others DayRecord.ofWritten? (usable_record named day) other]
  rfl

end Keeps

/-- Saving bars merges them with those that are left of the symbol, and drops what the retention does
not reach any more. -/
theorem saveBars_spec {s : FileStore} (tidy : Tidy s.disk) {symbol : String} (named : Named symbol) {series : BarSeries}
    (filed : series.Filed) (stored : s.bars symbol = .ok (series.recent s.retention).values)
    (forward : ∀ keep ∈ s.retention, 0 ≤ keep) {new : List (Bar Float)} (some_new : new ≠ [])
    (short : Short (symbol ++ ".json.tmp")) (encodable : ∀ b ∈ (series.merge new).values, b.Encodable)
    (inside : ∀ keep n, s.retention = some keep → newest (series.merge new).keys = some n →
      (⟨n - keep⟩ : Instant).inCalendar = true) :
    ∃ s', s.saveBars symbol new = (s', .ok ()) ∧ Keeps s s' (· = barsFile symbol) ∧
      s'.bars symbol = .ok ((series.merge new).recent s.retention).values := by
  have kept := BarSeries.filed_recent s.retention filed
  have left : retained? s.retention ((series.recent s.retention).merge new).values =
      some ((series.merge new).recent s.retention).values := by
    rw [retained?_values (BarSeries.filed_merge kept new), BarSeries.recent_merge filed forward]
    rwa [BarSeries.newest_merge_recent filed forward]
  have usable := usable_bars named
  have stem : (barsFile symbol).stem = symbol := named.own
  obtain ⟨s', written, keeps, own⟩ := writeFile_spec tidy usable tidy.bars (by rwa [stem])
    (.listOf Bar.json ((series.merge new).recent s.retention).values)
  refine ⟨s', ?_, keeps, ?_⟩
  · rw [saveBars_eq, if_neg (by simpa using some_new), stored]
    simp only [BarSeries.merge_values kept, left]
    exact written
  · rw [bars, own (readsAs_bars fun b hb => encodable b ?_)]
    · rfl
    · rw [BarSeries.values_recent (BarSeries.filed_merge filed new)] at hb
      exact List.mem_of_mem_filter hb

/-! ### One request -/

namespace Refines
variable {retention : Option Int} {earlier : List Request} {s : FileStore} {m : MemoryStore}

theorem filed (refines : Refines retention earlier s m) (symbol : String) : (m.series symbol).Filed := by
  rw [refines.series]
  exact BarSeries.filed_merge BarSeries.filed_empty _

/-- The retention reaches as far from the newest bar that was ever saved as from the newest in memory. -/
theorem newest_keys (refines : Refines retention earlier s m) (symbol : String) :
    newest (m.series symbol).keys = newest ((saved symbol earlier).map (·.time)) := by
  rw [refines.series]
  exact BarSeries.newest_merge_empty _

/-- A request that saves no bars adds nothing to what was saved. -/
theorem quiet (refines : Refines retention earlier s m) {request : Request}
    (none : ∀ symbol, saved symbol [request] = []) : Refines retention (earlier ++ [request]) s m := by
  have same : ∀ symbol, saved symbol (earlier ++ [request]) = saved symbol earlier := fun symbol => by
    rw [saved_append, none, List.append_nil]
  exact { refines with
    series := fun symbol => by rw [same, refines.series]
    encodable := fun symbol => by rw [same]; exact refines.encodable symbol }

theorem changing (refines : Refines retention earlier s m) (op : Operation) {change : Instruments → Instruments}
    (calls : s.calls op = s.changing change) (ascending : (change m.instruments).Ascending) :
    ∃ s', s.perform op [] = (s', .ok ()) ∧
      Refines retention earlier s' { m with instruments := change m.instruments } := by
  obtain ⟨s', written, keeps, stored⟩ := changing_spec refines.tidy refines.instruments calls ascending
  refine ⟨s', written, { refines with
    tidy := keeps.tidy
    limit := keeps.retention.trans refines.limit
    instruments := stored
    ascending := ascending
    bars := fun symbol named => ?_
    records := fun symbol day named inside => ?_ }⟩
  · rw [keeps.bars_eq named nofun]
    exact refines.bars symbol named
  · rw [keeps.record_eq named nofun]
    exact refines.records symbol day named inside

theorem saveRecord (refines : Refines retention earlier s m) {symbol : String} {day : Day} {r : DayRecord}
    (fits : Request.Fits retention earlier (.saveRecord symbol day r)) :
    ∃ s', s.saveRecord symbol day r = (s', .ok ()) ∧ Refines retention earlier s' (m.saveRecord symbol day r) := by
  obtain ⟨named, short, inside, encodable⟩ := fits
  obtain ⟨s', written, keeps, stored⟩ := saveRecord_spec refines.tidy named short inside encodable
  refine ⟨s', written, { refines with
    tidy := keeps.tidy
    limit := keeps.retention.trans refines.limit
    instruments := (keeps.instruments_eq nofun).trans refines.instruments
    bars := fun symbol' named' => ?_
    records := fun symbol' day' named' inside' => ?_ }⟩
  · rw [keeps.bars_eq named' (barsFile_ne_recordFile _ _ _)]
    exact refines.bars symbol' named'
  · rw [MemoryStore.record_saveRecord]
    split
    · rename_i own
      rw [own.1, own.2, stored]
    · rename_i other
      rw [keeps.record_eq named' fun same => other (recordFile_inj named' named inside' inside same)]
      exact refines.records symbol' day' named' inside'

theorem bars_saved (refines : Refines retention earlier s m) {s' : FileStore} {symbol : String} (named : Named symbol)
    (keeps : Keeps s s' (· = barsFile symbol)) {bars : List (Bar Float)} (encodable : ∀ b ∈ bars, b.Encodable)
    (stored : s'.bars symbol = .ok (((m.series symbol).merge bars).recent retention).values) :
    Refines retention (earlier ++ [.saveBars symbol bars]) s' (m.saveBars symbol bars) where
  tidy := keeps.tidy
  limit := keeps.retention.trans refines.limit
  instruments := (keeps.instruments_eq nofun).trans refines.instruments
  ascending := refines.ascending
  series symbol' := by
    rw [MemoryStore.series_saveBars, saved_append, saved_saveBars, BarSeries.merge_append, ← refines.series]
    split <;> rfl
  encodable symbol' := by
    rw [saved_append, saved_saveBars]
    refine List.forall_mem_append.mpr ⟨refines.encodable symbol', fun b hb => ?_⟩
    split at hb
    · exact encodable b hb
    · cases hb
  bars symbol' named' := by
    rw [MemoryStore.series_saveBars]
    split
    · rename_i own
      rw [← own, stored]
    · rename_i other
      rw [keeps.bars_eq named' fun same => other (barsFile_inj named' named same).symm]
      exact refines.bars symbol' named'
  records symbol' day' named' inside' := by
    rw [keeps.record_eq named' (barsFile_ne_recordFile _ _ _).symm]
    exact refines.records symbol' day' named' inside'

theorem saveBars (refines : Refines retention earlier s m) (forward : ∀ keep ∈ retention, 0 ≤ keep) {symbol : String}
    {bars : List (Bar Float)} (fits : Request.Fits retention earlier (.saveBars symbol bars)) :
    ∃ s', s.saveBars symbol bars = (s', .ok ()) ∧
      Refines retention (earlier ++ [.saveBars symbol bars]) s' (m.saveBars symbol bars) := by
  obtain ⟨named, carried⟩ := fits
  by_cases none : bars = []
  · subst none
    have keeps : Keeps s s (· = barsFile symbol) := ⟨refines.tidy, rfl, fun _ _ _ _ => rfl⟩
    exact ⟨s, rfl, refines.bars_saved named keeps nofun (refines.bars symbol named)⟩
  obtain ⟨short, encodable, inside⟩ := carried none
  have merged : (m.series symbol).merge bars = BarSeries.merge .empty (saved symbol earlier ++ bars) := by
    rw [BarSeries.merge_append, ← refines.series]
  have readable : ∀ b ∈ ((m.series symbol).merge bars).values, b.Encodable := by
    intro b listed
    rw [merged] at listed
    exact (List.mem_append.mp (BarSeries.mem_of_mem_merge listed)).elim (refines.encodable symbol b) (encodable b)
  have limit := refines.limit
  subst limit
  obtain ⟨s', written, keeps, stored⟩ := saveBars_spec refines.tidy named (refines.filed symbol)
    (refines.bars symbol named) forward none short readable fun keep n some_keep found => by
      rw [merged, BarSeries.newest_merge_empty] at found
      exact inside keep n some_keep found
  exact ⟨s', written, refines.bars_saved named keeps encodable stored⟩

/-- Of the bars of a symbol, those that the retention reaches are shown. -/
theorem loadBars_eq (refines : Refines retention earlier s m) {symbol : String} (named : Named symbol) (since : Instant) :
    Store.loadBars s symbol since = .ok (((m.series symbol).since since).filter fun b =>
      reaches retention ((saved symbol earlier).map (·.time)) b.time) := by
  have listed : Store.loadBars s symbol since = .ok (((m.series symbol).recent retention).since since) := by
    show (s.bars symbol).map _ = _
    rw [refines.bars symbol named]
    rfl
  rw [listed, BarSeries.since_recent (refines.filed symbol)]
  simp only [reaches_congr (refines.newest_keys symbol)]

/-- A request is replied to as the memory would, and what the files say stays what the memory holds. -/
theorem serve (refines : Refines retention earlier s m) (forward : ∀ keep ∈ retention, 0 ≤ keep) {request : Request}
    (fits : Request.Fits retention earlier request) :
    (Store.serve prepare s request).2 =
        m.reply (fun symbol t => reaches retention ((saved symbol earlier).map (·.time)) t) request ∧
      Refines retention (earlier ++ [request]) (Store.serve prepare s request).1
        (Store.serve (fun m => (m, .ok ())) m request).1 := by
  cases request with
  | instruments =>
    refine ⟨?_, refines.quiet fun _ => rfl⟩
    show (s.instruments.map Table.keys).map Reply.instruments = _
    rw [refines.instruments]
    rfl
  | saveInstrument symbol =>
    obtain ⟨s', written, kept⟩ := refines.changing (.saveInstrument symbol) rfl
      (Table.ascending_insert refines.ascending symbol ())
    have served : Store.serve prepare s (.saveInstrument symbol) = (s', .ok .done) := congrArg acknowledge written
    rw [served]
    exact ⟨rfl, kept.quiet fun _ => rfl⟩
  | deleteInstrument symbol =>
    obtain ⟨s', written, kept⟩ := refines.changing (.deleteInstrument symbol) rfl
      (Table.ascending_erase refines.ascending symbol)
    have served : Store.serve prepare s (.deleteInstrument symbol) = (s', .ok .done) := congrArg acknowledge written
    rw [served]
    exact ⟨rfl, kept.quiet fun _ => rfl⟩
  | loadBars symbol since =>
    refine ⟨?_, refines.quiet fun _ => rfl⟩
    show (Store.loadBars s symbol since).map Reply.bars = _
    rw [refines.loadBars_eq fits]
    rfl
  | latestBar symbol since =>
    refine ⟨?_, refines.quiet fun _ => rfl⟩
    show ((Store.loadBars s symbol since).map List.getLast?).map Reply.bar = _
    rw [refines.loadBars_eq fits]
    rfl
  | saveBars symbol bars =>
    obtain ⟨s', written, kept⟩ := refines.saveBars forward fits
    have served : Store.serve prepare s (.saveBars symbol bars) = (s', .ok .done) := congrArg acknowledge written
    rw [served]
    exact ⟨rfl, kept⟩
  | loadRecord symbol day =>
    refine ⟨?_, refines.quiet fun _ => rfl⟩
    show (s.record symbol day).map Reply.record = _
    rw [refines.records symbol day fits.1 fits.2]
    rfl
  | saveRecord symbol day r =>
    obtain ⟨s', written, kept⟩ := refines.saveRecord fits
    have served : Store.serve prepare s (.saveRecord symbol day r) = (s', .ok .done) := congrArg acknowledge written
    rw [served]
    exact ⟨rfl, kept.quiet fun _ => rfl⟩
  | reopen =>
    have served : Store.serve prepare s .reopen = (s, .ok .done) := congrArg acknowledge (prepare_spec refines.tidy)
    rw [served]
    exact ⟨rfl, refines.quiet fun _ => rfl⟩

end Refines

/-! ### A run of requests -/

section Run
variable {root : String} {retention : Option Int} {s : FileStore}

theorem refines_created (made : create? root retention = some s) : Refines retention [] s .empty := by
  obtain ⟨tidy, limit, missing⟩ := create?_spec made
  refine ⟨tidy, limit, ?_, Table.ascending_empty, fun _ => rfl, fun _ => nofun, fun symbol named => ?_,
    fun symbol day named _ => ?_⟩
  · rw [instruments, missing instrumentsOf? usable_instruments]
    rfl
  · rw [bars, missing _ (usable_bars named)]
    rfl
  · rw [record, missing DayRecord.ofWritten? (usable_record named day)]
    rfl

theorem fits_of_append {before later : List Request} (fits : Fits retention (before ++ later)) : Fits retention before :=
  fun first request next split => fits first request (next ++ later)
    (by rw [split, List.append_assoc, List.cons_append])

/-- The files say what the memory holds after every run of requests whose values files carry. -/
theorem refines_after (made : create? root retention = some s) (forward : ∀ keep ∈ retention, 0 ≤ keep)
    {requests : List Request} (fits : Fits retention requests) :
    Refines retention requests (s.after requests) (MemoryStore.empty.after requests) := by
  induction requests using List.reverseRecOn with
  | nil => exact refines_created made
  | append_singleton requests request ih =>
    rw [after, MemoryStore.after, after_concat, after_concat]
    exact ((ih (fits_of_append fits)).serve forward (fits requests request [] rfl)).2

/-- **A store in files refines one in memory.** Started without files, it replies to every request of a
run as the memory does, of whose bars of a symbol it shows those that the retention reaches from the
newest ever saved. What it shows depends only on the last bar that was saved for each time, not on how
the bars came. -/
theorem files_refine_memory (made : create? root retention = some s) (forward : ∀ keep ∈ retention, 0 ≤ keep)
    {requests : List Request} (fits : Fits retention requests) :
    (∀ before request later, requests = before ++ request :: later →
      (serve prepare (s.after before) request).2 = (MemoryStore.empty.after before).reply
        (fun symbol t => reaches retention ((saved symbol before).map (·.time)) t) request) ∧
    ∀ requests', Fits retention requests' → ∀ symbol, Named symbol →
      (∀ t, BarSeries.lastAt t (saved symbol requests) = BarSeries.lastAt t (saved symbol requests')) →
      ∀ since, loadBars (s.after requests) symbol since = loadBars (s.after requests') symbol since ∧
        latestBar (s.after requests) symbol since = latestBar (s.after requests') symbol since := by
  refine ⟨fun before request later split => ?_, fun requests' fits' symbol named same since => ?_⟩
  · subst split
    exact ((refines_after made forward (fits_of_append fits)).serve forward (fits before request later rfl)).1
  · have series : BarSeries.merge .empty (saved symbol requests) = BarSeries.merge .empty (saved symbol requests') :=
      BarSeries.merge_empty_congr same
    have shown : loadBars (s.after requests) symbol since = loadBars (s.after requests') symbol since := by
      have one := refines_after made forward fits
      have other := refines_after made forward fits'
      have reach : newest ((saved symbol requests).map (·.time)) = newest ((saved symbol requests').map (·.time)) := by
        rw [← one.newest_keys, ← other.newest_keys, one.series, other.series, series]
      rw [one.loadBars_eq named, other.loadBars_eq named, one.series, other.series, series]
      simp only [reaches_congr reach]
    exact ⟨shown, by rw [latestBar, shown, latestBar]⟩

end Run

/-- A bar of a minute in which the price did not move. -/
def steadyBar (minute : Int) : Bar Float := ⟨"XYZ", ⟨minute * 60000⟩, 1.5, 1.5, 1.5, 1.5, 10⟩

theorem encodable_steadyBar : ∀ minute ∈ [0, 2], (steadyBar minute).Encodable := by
  have price : Json.ReadsBack 1.5 := by
    refine ⟨by decide +kernel, ⟨false, [1], some [5], none⟩, ?_, ?_⟩ <;> decide +kernel
  have times : ∀ minute ∈ [0, 2], (steadyBar minute).time.Encodable := by
    intro minute listed
    rcases List.mem_pair.mp listed with rfl | rfl <;> exact ⟨by decide, by decide⟩
  exact fun minute listed => ⟨times minute listed, price, price, price, price, by show 10 < Word.size 64; decide⟩

/-- With a minute of retention, a bar that comes late by two is not kept, as if it had come first. -/
theorem files_refine_memory_late :
    ∃ s, create? "data" (some 60000) = some s ∧
      (serve prepare (s.after [.saveBars "XYZ" [steadyBar 2], .saveBars "XYZ" [steadyBar 0], .reopen])
        (.loadBars "XYZ" ⟨0⟩)).2 = .ok (.bars [steadyBar 2]) ∧
      ∀ since, loadBars (s.after [.saveBars "XYZ" [steadyBar 2], .saveBars "XYZ" [steadyBar 0], .reopen,
          .loadBars "XYZ" ⟨0⟩]) "XYZ" since =
        loadBars (s.after [.saveBars "XYZ" [steadyBar 0, steadyBar 2]]) "XYZ" since := by
  have named : Named "XYZ" := ⟨by decide +kernel, plain_of_length (by decide)⟩
  have fits : ∀ earlier, ∀ minutes ⊆ [0, 2],
      newest ((saved "XYZ" earlier ++ minutes.map steadyBar).map (·.time)) = some 120000 →
      Request.Fits (some 60000) earlier (.saveBars "XYZ" (minutes.map steadyBar)) := by
    intro earlier minutes listed last
    refine ⟨named, fun _ => ⟨by decide, fun b hb => ?_, fun keep n some_keep found => ?_⟩⟩
    · obtain ⟨minute, here, rfl⟩ := List.mem_map.mp hb
      exact encodable_steadyBar minute (listed here)
    · obtain rfl := Option.some.inj some_keep
      obtain rfl := Option.some.inj (last.symm.trans found)
      decide
  obtain ⟨s, made⟩ : ∃ s, create? "data" (some 60000) = some s := ⟨_, if_pos (by decide)⟩
  have late : Fits (some 60000) [.saveBars "XYZ" [steadyBar 2], .saveBars "XYZ" [steadyBar 0]] :=
    fits_concat (fits_concat fits_nil _ (fits _ [2] (by decide) rfl)) _ (fits _ [0] (by decide) rfl)
  have apart : Fits (some 60000) [.saveBars "XYZ" [steadyBar 2], .saveBars "XYZ" [steadyBar 0], .reopen,
      .loadBars "XYZ" ⟨0⟩] :=
    fits_concat (fits_concat late .reopen trivial) (.loadBars "XYZ" ⟨0⟩) named
  have together : Fits (some 60000) [.saveBars "XYZ" [steadyBar 0, steadyBar 2]] :=
    fits_concat fits_nil _ (fits _ [0, 2] (by decide) rfl)
  obtain ⟨replies, shown⟩ := files_refine_memory made (by decide) apart
  refine ⟨s, made, replies _ _ [] rfl, fun since => (shown _ together "XYZ" named (fun t => ?_) since).1⟩
  show BarSeries.lastAt t [steadyBar 2, steadyBar 0] = BarSeries.lastAt t [steadyBar 0, steadyBar 2]
  by_cases first : (steadyBar 0).time = t
  · subst first
    rfl
  · simp [BarSeries.lastAt, List.find?_cons, first]

end FileStore
end TickerBoard

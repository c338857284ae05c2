import Mathlib.Data.List.SplitBy
import TickerBoard.Proofs.Chart.Findings

/-! Which divergences stay beside each other.

A new divergence may take the place of the newest findings, one after the other
as long as they are of its kind. A finding of the other kind ends that, so it
seals all findings below it (`absorbed_append`): nothing recorded later reaches
them. The findings of any recording are therefore those of its runs of one kind,
one run after the other (`findings_by_runs`). Within a run neighbours are apart;
divergences of one kind from different runs are never compared. -/
namespace TickerBoard.Chart
variable {α : Type}

/-- The later divergence begins after the earlier one has ended, and ends more than one
interval after it. -/
def Apart (interval : Int) (earlier later : Divergence α) : Prop :=
  earlier.finish.ms < later.start.ms ∧ interval < later.finish.ms - earlier.finish.ms

/-- In a list with the oldest first, every divergence is apart from the next one of its
kind, whatever stands between them. -/
def Spaced (interval : Int) (ds : List (Divergence α)) : Prop :=
  ∀ kind, (ds.filter (·.kind = kind)).IsChain (Apart interval)

theorem apart_of_not_supersedes {interval : Int} {d former : Divergence α} (same : former.kind = d.kind)
    (h : supersedes interval d former = false) : Apart interval former d := by
  simp only [supersedes, same, beq_self_eq_true, Bool.true_and, Bool.or_eq_false_iff,
    decide_eq_false_iff_not] at h
  exact ⟨by omega, by omega⟩

theorem not_supersedes_of_kind {interval : Int} {d former : Divergence α} (other : former.kind ≠ d.kind) :
    supersedes interval d former = false := by
  simp [supersedes, other]

/-! ### Runs of one kind -/

/-- The stretches of neighbours of one kind. -/
def kindRuns (ds : List (Divergence α)) : List (List (Divergence α)) :=
  ds.splitBy fun a b => a.kind = b.kind

/-- Lists of one kind each, neighbours of different kinds. -/
structure Alternating (runs : List (List (Divergence α))) : Prop where
  occupied : [] ∉ runs
  uniform : ∀ run ∈ runs, ∀ a ∈ run, ∀ b ∈ run, a.kind = b.kind
  changing : runs.IsChain fun r₁ r₂ => ∀ a ∈ r₁, ∀ b ∈ r₂, a.kind ≠ b.kind

theorem Alternating.tail {run : List (Divergence α)} {runs : List (List (Divergence α))}
    (h : Alternating (run :: runs)) : Alternating runs :=
  ⟨fun empty => h.occupied (List.mem_cons_of_mem _ empty),
    fun r hr => h.uniform r (List.mem_cons_of_mem _ hr), h.changing.of_cons⟩

theorem alternating_kindRuns (ds : List (Divergence α)) : Alternating (kindRuns ds) := by
  have uniform : ∀ run ∈ kindRuns ds, ∀ a ∈ run, ∀ b ∈ run, a.kind = b.kind := by
    intro run hrun a ha b hb
    have chain : (run.map (·.kind)).IsChain (· = ·) := by
      rw [List.isChain_map]
      simpa using List.isChain_of_mem_splitBy hrun
    have all := List.isChain_iff_pairwise.mp chain
    by_cases same : a.kind = b.kind
    · exact same
    · exact all.forall (List.mem_map_of_mem ha) (List.mem_map_of_mem hb) same
  refine ⟨List.nil_notMem_splitBy _ _, uniform, ?_⟩
  refine (List.isChain_getLast_head_splitBy _ ds).imp_of_mem_imp fun r₁ r₂ h₁ h₂ border a ha b hb => ?_
  obtain ⟨some₁, some₂, border⟩ := border
  have border : (r₁.getLast some₁).kind ≠ (r₂.head some₂).kind := by simpa using border
  rwa [uniform r₁ h₁ a ha _ (List.getLast_mem some₁), uniform r₂ h₂ b hb _ (List.head_mem some₂)]

/-! ### Recording one after the other -/

section Recording
variable [BEq α]

/-- The chart after it has recorded some divergences in turn. -/
def recordAll (c : Chart α) (ds : List (Divergence α)) : Chart α := ds.foldl (fun c d => (c.record d).1) c

/-- The findings, newest first, after some divergences were taken in turn. -/
def absorbedAll (interval : Int) (findings : List (Divergence α)) (ds : List (Divergence α)) :
    List (Divergence α) :=
  ds.foldl (fun findings d => absorbed interval findings (some d)) findings

theorem record_fst (c : Chart α) (d : Divergence α) :
    (c.record d).1 = { c with findings := absorbed c.interval c.findings (some d) } := by
  rw [record, absorbed]
  split <;> rfl

theorem recordAll_eq (c : Chart α) (ds : List (Divergence α)) :
    c.recordAll ds = { c with findings := absorbedAll c.interval c.findings ds } := by
  induction ds generalizing c with
  | nil => rfl
  | cons d rest ih =>
    show (c.record d).1.recordAll rest = _
    rw [ih, record_fst]
    rfl

theorem absorbedAll_append (interval : Int) (findings : List (Divergence α)) (a b : List (Divergence α)) :
    absorbedAll interval findings (a ++ b) = absorbedAll interval (absorbedAll interval findings a) b :=
  List.foldl_append

theorem mem_absorbedAll {interval : Int} {findings ds : List (Divergence α)} {d : Divergence α}
    (h : d ∈ absorbedAll interval findings ds) : d ∈ findings ∨ d ∈ ds := by
  induction ds generalizing findings with
  | nil => exact .inl h
  | cons e rest ih =>
    rcases ih h with old | new
    · rcases mem_absorbed old with old | own
      · exact .inl old
      · obtain rfl := Option.some.inj own
        exact .inr (List.mem_cons_self ..)
    · exact .inr (List.mem_cons_of_mem _ new)

theorem absorbed_ne_nil (interval : Int) (findings : List (Divergence α)) (d : Divergence α) :
    absorbed interval findings (some d) ≠ [] := by
  rw [absorbed]
  split
  · rintro rfl
    simp_all [isNewest]
  · exact List.cons_ne_nil _ _

theorem absorbedAll_ne_nil {interval : Int} {findings ds : List (Divergence α)} (some_new : ds ≠ []) :
    absorbedAll interval findings ds ≠ [] := by
  obtain ⟨rest, d, rfl⟩ := (List.eq_nil_or_concat ds).resolve_left some_new
  rw [List.concat_eq_append, absorbedAll_append]
  exact absorbed_ne_nil interval _ d

/-! ### What a finding of the other kind seals -/

/-- A divergence does not reach what lies below a finding of the other kind. -/
theorem absorbed_append {interval : Int} {below : List (Divergence α)} {d : Divergence α}
    (other : ∀ e ∈ below.head?, e.kind ≠ d.kind) (above : List (Divergence α)) :
    absorbed interval (above ++ below) (some d) = absorbed interval above (some d) ++ below := by
  have newest : isNewest (above ++ below) d = isNewest above d := by
    cases above with
    | cons e rest => rfl
    | nil =>
      cases below with
      | nil => rfl
      | cons e rest => simp [isNewest, Divergence.same, other e rfl]
  have stopped : below.dropWhile (supersedes interval d) = below := by
    cases below with
    | nil => rfl
    | cons e rest =>
      exact List.dropWhile_cons_of_neg (by rw [not_supersedes_of_kind (other e rfl)]; decide)
  have dropped : (above ++ below).dropWhile (supersedes interval d) =
      above.dropWhile (supersedes interval d) ++ below := by
    rw [List.dropWhile_append, stopped]
    split
    · rename_i all
      rw [List.isEmpty_iff.mp all, List.nil_append]
    · rfl
  rw [absorbed, absorbed, newest, recorded, recorded, dropped]
  split <;> rfl

theorem absorbedAll_sealed {interval : Int} {below ds : List (Divergence α)}
    (other : ∀ e ∈ below.head?, ∀ d ∈ ds, e.kind ≠ d.kind) (above : List (Divergence α)) :
    absorbedAll interval (above ++ below) ds = absorbedAll interval above ds ++ below := by
  induction ds generalizing above with
  | nil => rfl
  | cons d rest ih =>
    show absorbedAll interval (absorbed interval (above ++ below) (some d)) rest = _
    rw [absorbed_append fun e he => other e he d (List.mem_cons_self ..)]
    exact ih (fun e he x hx => other e he x (List.mem_cons_of_mem _ hx)) _

/-- Every run lies, sealed, below the next one. -/
theorem absorbedAll_flatten {interval : Int} {runs : List (List (Divergence α))} (h : Alternating runs)
    {below : List (Divergence α)} (other : ∀ e ∈ below.head?, ∀ run ∈ runs.head?, ∀ d ∈ run, e.kind ≠ d.kind) :
    absorbedAll interval below runs.flatten =
      (runs.map (absorbedAll interval [])).reverse.flatten ++ below := by
  induction runs generalizing below with
  | nil => rfl
  | cons run rest ih =>
    have own : absorbedAll interval below run = absorbedAll interval [] run ++ below :=
      absorbedAll_sealed (fun e he => other e he run rfl) []
    have some_kept : absorbedAll interval [] run ≠ [] :=
      absorbedAll_ne_nil fun empty => h.occupied (empty ▸ List.mem_cons_self ..)
    obtain ⟨newest, others, top⟩ := List.exists_cons_of_ne_nil some_kept
    have of_run : newest ∈ run := by
      have listed : newest ∈ absorbedAll interval [] run := top ▸ List.mem_cons_self ..
      exact (mem_absorbedAll listed).resolve_left List.not_mem_nil
    have next : ∀ e ∈ (absorbedAll interval [] run ++ below).head?, ∀ r ∈ rest.head?, ∀ d ∈ r, e.kind ≠ d.kind := by
      intro e he r hr d hd
      rw [top] at he
      obtain rfl := Option.some.inj he
      exact (List.isChain_cons.mp h.changing).1 r hr newest of_run d hd
    rw [List.flatten_cons, absorbedAll_append, own, ih h.tail next]
    simp [List.append_assoc]

/-! ### Within a run -/

/-- A divergence that is taken is apart from the finding that it meets. -/
theorem chain_absorbed {interval : Int} {findings : List (Divergence α)} {d : Divergence α}
    (uniform : ∀ e ∈ findings, e.kind = d.kind)
    (h : findings.IsChain fun later earlier => Apart interval earlier later) :
    (absorbed interval findings (some d)).IsChain fun later earlier => Apart interval earlier later := by
  rw [absorbed]
  split
  · exact h
  · refine List.isChain_cons.mpr ⟨fun e met => ?_, h.suffix (List.dropWhile_suffix _)⟩
    have stands := List.head?_dropWhile_not (supersedes interval d) findings
    rw [Option.mem_def.mp met] at stands
    exact apart_of_not_supersedes (uniform e ((List.dropWhile_subset _) (List.mem_of_mem_head? met))) stands

theorem chain_absorbedAll {interval : Int} {run : List (Divergence α)}
    (uniform : ∀ a ∈ run, ∀ b ∈ run, a.kind = b.kind) :
    (absorbedAll interval [] run).reverse.IsChain (Apart interval) := by
  rw [List.isChain_reverse]
  induction run using List.reverseRecOn with
  | nil => exact .nil
  | append_singleton run d ih =>
    have earlier := ih fun a ha b hb => uniform a (by simp [ha]) b (by simp [hb])
    rw [absorbedAll_append]
    refine chain_absorbed (fun e he => ?_) earlier
    exact uniform e (by simp [(mem_absorbedAll he).resolve_left List.not_mem_nil]) d (by simp)

/-! ### All runs -/

/-- The divergences, oldest first, of a chart that had none and recorded some in turn. -/
def kept (settings : ChartSettings) (ds : List (Divergence α)) : List (Divergence α) :=
  ((start settings []).recordAll ds).divergences

theorem kept_eq (settings : ChartSettings) (ds : List (Divergence α)) :
    kept settings ds = (absorbedAll (start settings [] : Chart α).interval [] ds).reverse := by
  have none : (start settings [] : Chart α).findings = [] := by simp [start]
  rw [kept, recordAll_eq, none]
  rfl

theorem mem_kept {settings : ChartSettings} {ds : List (Divergence α)} {d : Divergence α}
    (h : d ∈ kept settings ds) : d ∈ ds := by
  rw [kept_eq, List.mem_reverse] at h
  exact (mem_absorbedAll h).resolve_left List.not_mem_nil

theorem kept_flatten (settings : ChartSettings) {runs : List (List (Divergence α))} (h : Alternating runs) :
    kept settings runs.flatten = (runs.map (kept settings)).flatten := by
  have each : kept settings = List.reverse ∘ absorbedAll (start settings [] : Chart α).interval [] :=
    funext fun ds => kept_eq settings ds
  rw [kept_eq, absorbedAll_flatten h (fun _ none => by cases none), List.append_nil, List.reverse_flatten, each]
  simp

/-- The divergences of a kind are those of the runs of that kind. -/
theorem filter_kept (settings : ChartSettings) {runs : List (List (Divergence α))} (h : Alternating runs)
    (kind : Divergence.Kind) :
    (runs.map (kept settings)).flatten.filter (·.kind = kind) =
      ((runs.filter fun run => ∀ d ∈ run, d.kind = kind).map (kept settings)).flatten := by
  induction runs with
  | nil => rfl
  | cons run rest ih =>
    rw [List.map_cons, List.flatten_cons, List.filter_append, ih h.tail, List.filter_cons]
    obtain ⟨first, others, split⟩ := List.exists_cons_of_ne_nil
      fun empty : run = [] => h.occupied (empty ▸ List.mem_cons_self ..)
    have alike : ∀ d ∈ run, d.kind = first.kind := fun d hd =>
      h.uniform run (List.mem_cons_self ..) d hd first (split ▸ List.mem_cons_self ..)
    by_cases own : first.kind = kind
    · have all : ∀ d ∈ run, d.kind = kind := fun d hd => (alike d hd).trans own
      have every : (kept settings run).filter (·.kind = kind) = kept settings run :=
        List.filter_eq_self.mpr fun d hd => decide_eq_true (all d (mem_kept hd))
      rw [every, if_pos (decide_eq_true all)]
      rfl
    · have none : (kept settings run).filter (·.kind = kind) = [] :=
        List.filter_eq_nil_iff.mpr fun d hd of_kind =>
          own ((alike d (mem_kept hd)).symm.trans (of_decide_eq_true of_kind))
      have not_all : ¬∀ d ∈ run, d.kind = kind := fun all => own (all first (split ▸ List.mem_cons_self ..))
      rw [none, if_neg (by simpa using not_all)]
      rfl

/-- **What a chart keeps is decided run by run.** Whatever divergences are recorded in turn by a
chart without any, the list comes out as if each stretch of neighbours of one kind had been
recorded for itself, and within a stretch every divergence kept is apart from the next. So
all divergences of a kind are apart from the next one of it if and only if the last of each
stretch is apart from the first of the next stretch of that kind; the recording does not see to that. -/
theorem kept_by_runs (settings : ChartSettings) (ds : List (Divergence α)) :
    kept settings ds = (kindRuns ds).flatMap (kept settings) ∧
      (∀ run ∈ kindRuns ds, (kept settings run).IsChain (Apart (start settings [] : Chart α).interval)) ∧
      (Spaced (start settings [] : Chart α).interval (kept settings ds) ↔
        ∀ kind, (((kindRuns ds).filter fun run => ∀ d ∈ run, d.kind = kind).map (kept settings)).IsChain
          fun earlier later => ∀ a ∈ earlier.getLast?, ∀ b ∈ later.head?,
            Apart (start settings [] : Chart α).interval a b) := by
  have runs := alternating_kindRuns ds
  have whole : kept settings ds = ((kindRuns ds).map (kept settings)).flatten := by
    rw [← kept_flatten settings runs, kindRuns, List.flatten_splitBy]
  have within : ∀ run ∈ kindRuns ds, (kept settings run).IsChain (Apart (start settings [] : Chart α).interval) :=
    fun run hrun => kept_eq settings run ▸ chain_absorbedAll (runs.uniform run hrun)
  refine ⟨whole, within, forall_congr' fun kind => ?_⟩
  rw [whole, filter_kept settings runs kind, List.isChain_flatten, and_iff_right]
  · intro list listed
    obtain ⟨run, hrun, rfl⟩ := List.mem_map.mp listed
    exact within run (List.mem_filter.mp hrun).1
  · intro empty
    obtain ⟨run, hrun, nothing⟩ := List.mem_map.mp empty
    rw [kept_eq, List.reverse_eq_nil_iff] at nothing
    exact absorbedAll_ne_nil (fun none => runs.occupied (none ▸ (List.mem_filter.mp hrun).1)) nothing

end Recording

/-- A bearish divergence, a bullish one, and a bearish one that begins before the first has ended. -/
def crossing : List (Divergence Float) :=
  [⟨"XYZ", .bearish, ⟨20229⟩, ⟨1747836000000⟩, 100, 75, ⟨1747838400000⟩, 101, 70⟩,
    ⟨"XYZ", .bullish, ⟨20229⟩, ⟨1747837800000⟩, 99, 25, ⟨1747838700000⟩, 98, 30⟩,
    ⟨"XYZ", .bearish, ⟨20229⟩, ⟨1747838100000⟩, 101, 74, ⟨1747839600000⟩, 102, 69⟩]

/-- In a five-minute chart both bearish divergences stay, although the second overlaps the first. -/
theorem overlap_across_runs_stays :
    crossing.Pairwise (fun a b => a.finish.ms ≤ b.finish.ms) ∧ (∀ d ∈ crossing, d.start.ms ≤ d.finish.ms) ∧
      kept ⟨"5Min", 5, 0, 0, true⟩ crossing = crossing ∧
      ¬Spaced (start ⟨"5Min", 5, 0, 0, true⟩ [] : Chart Float).interval
        (kept ⟨"5Min", 5, 0, 0, true⟩ crossing) := by
  have all : kept ⟨"5Min", 5, 0, 0, true⟩ crossing = crossing := by
    rw [kept_eq]
    rfl
  refine ⟨by decide, by decide, all, fun spaced => ?_⟩
  have bearish := spaced .bearish
  rw [all] at bearish
  have overlapping := (List.isChain_pair.mp bearish).1
  exact absurd overlapping (by decide)

end TickerBoard.Chart

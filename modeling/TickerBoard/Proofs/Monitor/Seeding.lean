import Mathlib.Data.List.TakeWhile
import TickerBoard.Monitor
import TickerBoard.Proofs.Chart.Candles

/-! What a monitor is seeded from.

Whatever bars are given, the usable ones come in turn (`inTurn_usable`), and
bars that come in turn are all usable (`usable_of_inTurn`). They are, in the
order of time, the traded ones that are the first listed of their time
(`firstTraded_iff`). With labels that are told apart, each chart starts from the
stored list of its own label (`startCharts_eq`). -/
namespace TickerBoard.Monitor
variable {α : Type}

theorem firstOfEach_sublist (bars : List (Bar α)) : (firstOfEach bars).Sublist bars := by
  induction bars using firstOfEach.induct with
  | case1 => simp [firstOfEach]
  | case2 b rest ih =>
    rw [firstOfEach]
    exact (ih.trans (List.dropWhile_sublist _)).cons_cons b

theorem ascending_firstOfEach {bars : List (Bar α)} (h : bars.Pairwise fun a b => a.time.ms ≤ b.time.ms) :
    (firstOfEach bars).Pairwise fun a b => a.time.ms < b.time.ms := by
  induction bars using firstOfEach.induct with
  | case1 => simp [firstOfEach]
  | case2 b rest ih =>
    obtain ⟨first, others⟩ := List.pairwise_cons.mp h
    rw [firstOfEach]
    refine List.pairwise_cons.mpr ⟨fun c hc => ?_, ih (others.sublist (List.dropWhile_sublist _))⟩
    have hc := (firstOfEach_sublist _).subset hc
    have kept := others.sublist (List.dropWhile_sublist fun c => c.time == b.time)
    have next := List.head?_dropWhile_not (fun c => c.time == b.time) rest
    cases left : rest.dropWhile fun c => c.time == b.time with
    | nil =>
      rw [left] at hc
      cases hc
    | cons x later =>
      rw [left] at hc kept next
      have hx := first x ((List.dropWhile_sublist _).subset (left ▸ List.mem_cons_self ..))
      have apart : b.time.ms ≠ x.time.ms := by
        intro same
        have : x.time = b.time := congrArg Instant.mk same.symm
        simp [this] at next
      rcases List.mem_cons.mp hc with rfl | hc
      · omega
      · have := (List.pairwise_cons.mp kept).1 c hc
        omega

theorem before_trans (a b c : Bar α) (h : decide (a.time.ms ≤ b.time.ms) = true)
    (h' : decide (b.time.ms ≤ c.time.ms) = true) : decide (a.time.ms ≤ c.time.ms) = true :=
  decide_eq_true (Int.le_trans (of_decide_eq_true h) (of_decide_eq_true h'))

theorem before_total (a b : Bar α) : (decide (a.time.ms ≤ b.time.ms) || decide (b.time.ms ≤ a.time.ms)) = true := by
  simp only [Bool.or_eq_true, decide_eq_true_eq]
  omega

theorem sorted_traded (bars : List (Bar α)) :
    ((bars.filter Bar.isTraded).mergeSort fun a b => a.time.ms ≤ b.time.ms).Pairwise
      fun a b => a.time.ms ≤ b.time.ms :=
  (List.pairwise_mergeSort before_trans before_total _).imp of_decide_eq_true

theorem inTurn_usable (bars : List (Bar α)) : InTurn (usable bars) := by
  refine ⟨fun b hb => ?_, ascending_firstOfEach (sorted_traded bars)⟩
  exact (List.mem_filter.mp (List.mem_mergeSort.mp ((firstOfEach_sublist _).subset hb))).2

theorem firstOfEach_of_ascending {bars : List (Bar α)} (h : bars.Pairwise fun a b => a.time.ms < b.time.ms) :
    firstOfEach bars = bars := by
  induction bars using firstOfEach.induct with
  | case1 => simp [firstOfEach]
  | case2 b rest ih =>
    obtain ⟨first, others⟩ := List.pairwise_cons.mp h
    have apart : rest.dropWhile (fun c => c.time == b.time) = rest := by
      refine List.dropWhile_eq_self_iff.mpr fun some => ?_
      have := first rest[0] (List.getElem_mem some)
      have : rest[0].time ≠ b.time := by
        intro same
        rw [same] at this
        omega
      simpa using this
    rw [firstOfEach, apart]
    rw [apart] at ih
    rw [ih others]

theorem usable_of_inTurn {bars : List (Bar α)} (h : InTurn bars) : usable bars = bars := by
  have traded : bars.filter Bar.isTraded = bars := List.filter_eq_self.mpr h.traded
  have sorted : bars.mergeSort (fun a b => a.time.ms ≤ b.time.ms) = bars :=
    List.mergeSort_of_pairwise (h.ascending.imp fun before => decide_eq_true (Int.le_of_lt before))
  rw [usable, traded, sorted, firstOfEach_of_ascending h.ascending]

theorem mem_of_mem_usable {bars : List (Bar α)} {b : Bar α} (h : b ∈ usable bars) : b ∈ bars :=
  (List.mem_filter.mp (List.mem_mergeSort.mp ((firstOfEach_sublist _).subset h))).1

/-! ### Which bars are usable -/

/-- Sorting leaves the order of elements that are not told apart. -/
theorem find?_mergeSort {β : Type} {le : β → β → Bool} {p : β → Bool}
    (trans : ∀ a b c, le a b = true → le b c = true → le a c = true) (total : ∀ a b, (le a b || le b a) = true)
    (alike : ∀ a b, p a = true → p b = true → le a b = true) (l : List β) :
    (l.mergeSort le).find? p = l.find? p := by
  have ordered : (l.filter p).Pairwise fun a b => le a b = true :=
    List.pairwise_of_forall_mem_list fun a ha b hb => alike a b (List.mem_filter.mp ha).2 (List.mem_filter.mp hb).2
  have kept : (l.filter p).Sublist ((l.mergeSort le).filter p) := by
    simpa using (List.sublist_mergeSort trans total ordered List.filter_sublist).filter p
  have same : l.filter p = (l.mergeSort le).filter p :=
    kept.eq_of_length ((List.mergeSort_perm l le).filter p).symm.length_eq
  rw [← List.head?_filter, ← same, List.head?_filter]

theorem mem_firstOfEach {bars : List (Bar α)} (h : bars.Pairwise fun a b => a.time.ms ≤ b.time.ms) {b : Bar α} :
    b ∈ firstOfEach bars ↔ bars.find? (fun c => c.time == b.time) = some b := by
  induction bars using firstOfEach.induct with
  | case1 => simp [firstOfEach]
  | case2 x rest ih =>
    have ascending := ascending_firstOfEach h
    have sorted := (List.pairwise_cons.mp h).2.sublist (List.dropWhile_sublist fun c => c.time == x.time)
    rw [firstOfEach] at ascending ⊢
    rw [List.mem_cons]
    by_cases same : x.time = b.time
    · rw [List.find?_cons_of_pos (by simpa using same), Option.some.injEq]
      refine ⟨fun h => ?_, fun h => .inl h.symm⟩
      rcases h with rfl | later
      · rfl
      · have := (List.pairwise_cons.mp ascending).1 b later
        rw [same] at this
        omega
    · have other : x ≠ b := fun h => same (congrArg Bar.time h)
      have skipped : (rest.takeWhile fun c => c.time == x.time).find? (fun c => c.time == b.time) = none := by
        refine List.find?_eq_none.mpr fun c hc found => same ?_
        have own := List.mem_takeWhile_imp hc
        rw [← eq_of_beq own, eq_of_beq found]
      rw [List.find?_cons_of_neg (by simpa using same), ← List.takeWhile_append_dropWhile (l := rest)
        (p := fun c => c.time == x.time), List.find?_append, skipped, Option.none_or, ← ih sorted,
        List.takeWhile_append_dropWhile]
      exact or_iff_right (Ne.symm other)

/-- A list of bars by time that has of the traded bars of each time the one listed first. -/
structure FirstTraded (bars history : List (Bar α)) : Prop where
  ascending : history.Pairwise fun a b => a.time.ms < b.time.ms
  mem : ∀ b, b ∈ history ↔ bars.find? (fun c => c.isTraded && c.time == b.time) = some b

/-- No two lists are that. -/
theorem FirstTraded.unique {bars history history' : List (Bar α)} (h : FirstTraded bars history)
    (h' : FirstTraded bars history') : history = history' := by
  have apart : ∀ {l : List (Bar α)}, l.Pairwise (fun a b => a.time.ms < b.time.ms) → l.Nodup := fun ascending =>
    ascending.imp fun earlier same => absurd (congrArg (fun b : Bar α => b.time.ms) same) (Int.ne_of_lt earlier)
  refine List.Perm.eq_of_pairwise (fun a b _ _ before after => ?_) h.ascending h'.ascending
    ((List.perm_ext_iff_of_nodup (apart h.ascending) (apart h'.ascending)).mpr fun b => (h.mem b).trans (h'.mem b).symm)
  exact absurd before (Int.not_lt.mpr (Int.le_of_lt after))

/-- The usable bars are that. -/
theorem firstTraded_iff {bars history : List (Bar α)} : FirstTraded bars history ↔ history = usable bars := by
  have usable : FirstTraded bars (usable bars) := by
    refine ⟨(inTurn_usable bars).ascending, fun b => ?_⟩
    have alike : ∀ a c : Bar α, (a.time == b.time) = true → (c.time == b.time) = true →
        decide (a.time.ms ≤ c.time.ms) = true := fun a c ha hc => by
      rw [eq_of_beq ha, eq_of_beq hc]
      exact decide_eq_true (Int.le_refl _)
    rw [Monitor.usable, mem_firstOfEach (sorted_traded bars), find?_mergeSort before_trans before_total alike,
      List.find?_filter]
    simp only [Bool.decide_and, Bool.decide_eq_true]
  refine ⟨fun h => h.unique usable, ?_⟩
  rintro rfl
  exact usable

theorem usable_ne_nil {bars : List (Bar α)} (traded : ∃ b ∈ bars, b.isTraded = true) : usable bars ≠ [] := by
  obtain ⟨b, hb, traded⟩ := traded
  obtain ⟨c, first⟩ : ∃ c, bars.find? (fun c => c.isTraded && c.time == b.time) = some c :=
    Option.isSome_iff_exists.mp (List.find?_isSome.mpr ⟨b, hb, by simp [traded]⟩)
  have same : c.time = b.time := by
    have found := List.find?_some first
    simp only [Bool.and_eq_true, beq_iff_eq] at found
    exact found.2
  rw [← same] at first
  exact List.ne_nil_of_mem (((firstTraded_iff.mpr rfl).mem c).mpr first)

theorem startCharts_eq {settings : List ChartSettings} (distinct : (settings.map (·.label)).Nodup)
    (stored : Table String (List (Divergence α))) :
    startCharts settings stored = settings.map fun s => Chart.start s (stored.findD s.label []) := by
  induction settings generalizing stored with
  | nil => rfl
  | cons s rest ih =>
    obtain ⟨other, distinct⟩ := List.nodup_cons.mp distinct
    rw [startCharts, ih distinct, List.map_cons]
    refine congrArg _ (List.map_congr_left fun t ht => ?_)
    have apart : s.label ≠ t.label := fun same => other (List.mem_map.mpr ⟨t, ht, same.symm⟩)
    simp [Table.findD, apart]

theorem settings_startCharts (settings : List ChartSettings) (stored : Table String (List (Divergence α))) :
    (startCharts settings stored).map (·.settings) = settings := by
  induction settings generalizing stored with
  | nil => rfl
  | cons s rest ih => rw [startCharts, List.map_cons, ih, Chart.start]

/-- A monitor that is seeded has derived its charts from the usable bars. -/
theorem seed_eq_ok [Angular α] {rules : AnalysisRules α} {symbol : String} {bars : List (Bar α)}
    {stored : Table String (List (Divergence α))} {m : Monitor α} {us : List (PatternUpdate α)} :
    seed rules symbol bars stored = .ok (m, us) ↔
      ∃ earlier latest d, usable bars = earlier ++ [latest] ∧
        (⟨symbol, rules, earlier, latest, startCharts rules.charts stored, [], none⟩ : Monitor α).derive? =
          some d ∧
        (⟨symbol, rules, earlier, latest, startCharts rules.charts stored, [], none⟩ : Monitor α).apply d =
          (m, us) := by
  cases found : (usable bars).reverse with
  | nil =>
    have none : usable bars = [] := List.reverse_eq_nil_iff.mp found
    constructor
    · intro h
      simp only [seed, found] at h
      cases h
    · rintro ⟨earlier, latest, d, split, -⟩
      rw [none] at split
      exact absurd split.symm (List.append_ne_nil_of_right_ne_nil earlier (List.cons_ne_nil _ _))
  | cons latest earlier =>
    have split : usable bars = earlier.reverse ++ [latest] := by
      rw [← List.reverse_reverse (usable bars), found, List.reverse_cons]
    simp only [seed, found]
    constructor
    · intro h
      cases derived : (⟨symbol, rules, earlier.reverse, latest, startCharts rules.charts stored, [], none⟩ :
          Monitor α).derive? with
      | none =>
        rw [derived] at h
        cases h
      | some d =>
        rw [derived] at h
        exact ⟨earlier.reverse, latest, d, split, derived, Except.ok.inj h⟩
    · rintro ⟨earlier', latest', d, split', derived, applied⟩
      obtain ⟨rfl, same⟩ := List.append_inj' (split.symm.trans split') rfl
      obtain rfl := List.singleton_inj.mp same
      rw [derived]
      exact congrArg Except.ok applied

end TickerBoard.Monitor

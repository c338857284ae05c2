import TickerBoard.Proofs.Chart.Closed
import TickerBoard.Proofs.Chart.Detected
import TickerBoard.Proofs.Chart.Findings

/-! The order of a chart's divergences in time.

A divergence runs from one candle to a later one, neither of them the first that is
shown, and every such candle starts with its interval (`Reads.spans`). It ends at the
candle that `Candle.mark` names, which never moves back. While that candle stays the
same so does the pattern of the closed candles (`pattern_concat`), and with it the
kind that may be found there: what is found at the same end again takes the place of
the finding before it (`Chronicled.before`). So the ends of the findings strictly
ascend, which `Chronicled` says in a form that every bar and every update keeps. -/
namespace TickerBoard

/-! ### Candles that start with their intervals -/

namespace Candle
variable {α : Type}

/-- The instant is the start of an interval of some minutes. -/
def OnGrid (minutes : Nat) (t : Instant) : Prop := (width minutes * 1000 : Int) ∣ t.ms

instance (minutes : Nat) (t : Instant) : Decidable (OnGrid minutes t) :=
  inferInstanceAs (Decidable (_ ∣ _))

/-- The candle of a first bar starts with its interval, unless the interval starts before
the calendar does. -/
theorem start_ofBar_cases (minutes : Nat) {b : Bar α} (dated : b.time.inCalendar = true) :
    let c := ofBar (intervalStart (width minutes) b.time) b
    c.start.inCalendar = true ∧
      (OnGrid minutes c.start ∨ intervalStart (width minutes) c.start * 1000 < Instant.first.ms) := by
  intro c
  have mark : c.start = stamp (width minutes) b.time := rfl
  have own := within_intervalStart (width_pos minutes) b.time
  have second : (width minutes * 1000 : Int) ∣ intervalStart (width minutes) b.time * 1000 :=
    Int.mul_dvd_mul_right 1000 own.aligned
  by_cases marked : (⟨intervalStart (width minutes) b.time * 1000⟩ : Instant).inCalendar = true
  · rw [mark, stamp_dated marked]
    exact ⟨marked, .inl second⟩
  · rw [mark, stamp_undated marked]
    refine ⟨dated, .inr ?_⟩
    -- the interval starts no later than the bar's time, so not behind the calendar
    simp only [Instant.inCalendar, Bool.and_eq_true, decide_eq_true_eq] at dated marked
    have := own.first
    omega

section Resample
variable [Scalar α] {bars : List (Bar α)} {minutes : Nat}

/-- Candles of bars in turn start in different intervals. -/
theorem intervals_ascending (h : InTurn bars) (minutes : Nat) :
    (starts bars minutes).Pairwise fun a b =>
      intervalStart (width minutes) a < intervalStart (width minutes) b := by
  have laid := laid_foldl (width_pos minutes) h
  have own : ∀ {e}, e ∈ (bars.foldl (gather (width minutes)) Table.empty).entries →
      intervalStart (width minutes) e.2.start = e.1 := fun he =>
    (within_intervalStart (width_pos minutes) _).start_eq (laid.within _ he)
  have all : (bars.foldl (gather (width minutes)) Table.empty).values.Pairwise fun c c' =>
      intervalStart (width minutes) c.start < intervalStart (width minutes) c'.start := by
    refine List.pairwise_map.mpr (laid.ascending.imp_of_mem fun {e e'} he he' before => ?_)
    rwa [own he, own he']
  exact List.pairwise_map.mpr (all.sublist List.filter_sublist)

/-- Every candle but the first starts with its interval. -/
theorem onGrid_of_later (turn : InTurn bars) (dated : ∀ b ∈ bars, b.time.inCalendar = true) {t t' : Instant}
    (ht : t ∈ starts bars minutes) (ht' : t' ∈ starts bars minutes) (later : t.ms < t'.ms) :
    OnGrid minutes t' := by
  have marked : ∀ t ∈ starts bars minutes, t.inCalendar = true ∧
      (OnGrid minutes t ∨ intervalStart (width minutes) t * 1000 < Instant.first.ms) := by
    intro t ht
    obtain ⟨c, hc, rfl⟩ := List.mem_map.mp ht
    exact resample_induction (P := fun c => c.start.inCalendar = true ∧
      (OnGrid minutes c.start ∨ intervalStart (width minutes) c.start * 1000 < Instant.first.ms))
      (fun b hb => start_ofBar_cases minutes (dated b hb)) (fun _ _ _ own => own) c hc
  refine (marked t' ht').2.resolve_right fun early => ?_
  -- the first candle would lie in the same interval
  have apart : intervalStart (width minutes) t ≠ intervalStart (width minutes) t' := by
    obtain ⟨i, hi, rfl⟩ := List.getElem_of_mem ht
    obtain ⟨j, hj, rfl⟩ := List.getElem_of_mem ht'
    rcases Nat.lt_trichotomy i j with before | rfl | after
    · exact Int.ne_of_lt (List.pairwise_iff_getElem.mp (intervals_ascending turn minutes) i j hi hj before)
    · exact absurd later (Int.lt_irrefl _)
    · exact Int.ne_of_gt (List.pairwise_iff_getElem.mp (intervals_ascending turn minutes) j i hj hi after)
  have own := within_intervalStart (width_pos minutes) t'
  have inside : Within (width minutes) (intervalStart (width minutes) t') t := by
    have first := (marked t ht).1
    simp only [Instant.inCalendar, Bool.and_eq_true, decide_eq_true_eq] at first
    exact ⟨own.aligned, by omega, Int.lt_trans later own.last⟩
  exact apart ((within_intervalStart (width_pos minutes) t).start_eq inside)

/-- No start is lost with a further bar. -/
theorem starts_subset_concat {b : Bar α} (turn : InTurn (bars ++ [b])) (kept : NeverLost minutes (bars ++ [b])) :
    starts bars minutes ⊆ starts (bars ++ [b]) minutes := by
  rcases starts_concat turn kept with same | ⟨t, grown⟩
  · rw [same]
    exact List.Subset.refl _
  · rw [grown]
    exact List.subset_append_left ..

/-- Of the starts at the end of a history, one further on is later and that of its interval. -/
theorem later_place (turn : InTurn bars) (dated : ∀ b ∈ bars, b.time.inCalendar = true) {times : List Instant}
    (suffix : times <:+ starts bars minutes) {i j : Nat} (before : i < j) {t t' : Instant}
    (ht : times[i]? = some t) (ht' : times[j]? = some t') : t.ms < t'.ms ∧ OnGrid minutes t' := by
  obtain ⟨inside, rfl⟩ := List.getElem?_eq_some_iff.mp ht
  obtain ⟨inside', rfl⟩ := List.getElem?_eq_some_iff.mp ht'
  have ascending := (starts_ascending turn minutes).sublist suffix.sublist
  have later := List.pairwise_iff_getElem.mp ascending i j inside inside' before
  exact ⟨later, onGrid_of_later turn dated (suffix.subset (List.getElem_mem inside))
    (suffix.subset (List.getElem_mem inside')) later⟩

end Resample
end Candle

/-! ### The places of a divergence -/

namespace Detection
variable {α : Type} [Angular α]

/-- Two places of a list, the first of them not at its front. -/
def Runs (closed : List (Candle α)) (start finish : Extremum α) : Prop :=
  ∃ i j, 0 < i ∧ i < j ∧ closed[i]? = some start.candle ∧ closed[j]? = some finish.candle

/-- A pair runs from one place to a later one. -/
theorem runs_of_pair (irrefl : ∀ x : α, ¬ x < x) {rules : DetectionRules α} {kind : Divergence.Kind}
    {closed : List (Candle α)} {start finish : Extremum α} (h : pair? rules kind closed = some (start, finish)) :
    Runs closed start finish := by
  obtain ⟨place, prior, listed, -, width, i, best⟩ := pair?_eq_some.mp h
  have own : ∀ e ∈ (place, finish) :: prior, 0 < e.1 ∧ closed[e.1]? = some e.2.candle := by
    intro e he
    rw [← listed] at he
    have extreme := (mem_extrema_iff irrefl).mp he
    exact ⟨extreme.inner.1, extreme.candle⟩
  have newestFirst := extrema_newestFirst rules.order kind closed
  rw [listed] at newestFirst
  have drawn : (i, start) ∈ prior := (mem_of_walk best).resolve_left nofun
  obtain ⟨positive, startPlace⟩ := own _ (List.mem_cons_of_mem _ drawn)
  exact ⟨i, place, positive, (List.pairwise_cons.mp newestFirst).1 _ drawn, startPlace,
    (own _ (List.mem_cons_self ..)).2⟩

/-- A divergence at the end of a series runs between closed candles that end in its pattern. -/
theorem find?_runs (irrefl : ∀ x : α, ¬ x < x) {rules : DetectionRules α} {series : List (Candle α)}
    {kind : Divergence.Kind} {start finish : Extremum α} (h : find? rules series = some (kind, start, finish)) :
    Runs series.dropLast start finish ∧ patternOf? series.dropLast = some kind := by
  rw [find?_eq] at h
  obtain ⟨k, pattern, h⟩ := Option.bind_eq_some_iff.mp h
  obtain ⟨pair, found, same⟩ := Option.map_eq_some_iff.mp h
  obtain ⟨rfl, rfl⟩ := Prod.mk.inj same
  exact ⟨runs_of_pair irrefl found, pattern⟩

/-- What follows of a divergence from its being found. -/
theorem detect?_runs (irrefl : ∀ x : α, ¬ x < x) {symbol : String} {rules : DetectionRules α} {clock : SessionClock}
    {series : List (Candle α)} {d : Divergence α} (h : detect? symbol rules clock series = some (some d)) :
    patternOf? series.dropLast = some d.kind ∧ ∃ i j s f, 0 < i ∧ i < j ∧ series[i]? = some s ∧
      series[j]? = some f ∧ s.start = d.start ∧ f.start = d.finish := by
  unfold detect? at h
  split at h
  · cases h
  · rename_i kind start finish found
    obtain ⟨day, -, same⟩ := Option.map_eq_some_iff.mp h
    obtain rfl := Option.some.inj same
    obtain ⟨⟨i, j, positive, before, startPlace, finishPlace⟩, shape⟩ := find?_runs irrefl found
    have whole : ∀ {k : Nat} {c : Candle α}, series.dropLast[k]? = some c → series[k]? = some c := by
      intro k c place
      rw [List.getElem?_dropLast] at place
      split at place
      · exact place
      · cases place
    exact ⟨shape, i, j, _, _, positive, before, whole startPlace, whole finishPlace, rfl, rfl⟩

/-- The pattern is one of the prices at the end. -/
theorem patternOf?_of_suffix {candles more : List (Candle α)}
    (suffix : candles.map Candle.range <:+ more.map Candle.range) {kind : Divergence.Kind}
    (h : patternOf? candles = some kind) : patternOf? more = some kind := by
  unfold patternOf? at h
  split at h
  · rename_i c₁ c₂ c₃ rest newest
    obtain ⟨older, suffix⟩ := suffix
    have ranges : more.reverse.map Candle.range =
        c₁.range :: c₂.range :: c₃.range :: (rest.map Candle.range ++ older.reverse) := by
      rw [List.map_reverse, ← suffix, List.reverse_append, ← List.map_reverse, newest]
      rfl
    obtain ⟨c₁', _, newest', same₁, tail₁⟩ := List.map_eq_cons_iff.mp ranges
    obtain ⟨c₂', _, rfl, same₂, tail₂⟩ := List.map_eq_cons_iff.mp tail₁
    obtain ⟨c₃', _, rfl, same₃, -⟩ := List.map_eq_cons_iff.mp tail₂
    simp only [Candle.range, PriceRange.mk.injEq] at same₁ same₂ same₃
    simp only [patternOf?, newest', pattern?, same₁, same₂, same₃]
    exact h
  · cases h

end Detection

/-! ### The pattern of a history -/

namespace Chart
variable {α : Type} [Angular α] {rules : ChartRules α} {settings : ChartSettings} {symbol : String}
  {history : List (Bar α)} {series : List (Candle α)} {b : Bar α} {minutes : Nat}

/-- The pattern that the closed candles of a history end in. -/
def pattern? (history : List (Bar α)) (minutes : Nat) : Option Divergence.Kind :=
  Detection.patternOf? (Candle.resample history minutes).dropLast

/-- It stays the same as long as the candle that a divergence may end at does. -/
theorem pattern_concat (turn : InTurn (history ++ [b])) (kept : Candle.NeverLost minutes (history ++ [b])) {t : Instant}
    (before : Candle.mark history minutes = some t) (after : Candle.mark (history ++ [b]) minutes = some t) :
    pattern? (history ++ [b]) minutes = pattern? history minutes := by
  have same : Candle.starts (history ++ [b]) minutes = Candle.starts history minutes := by
    refine (Candle.starts_concat turn kept).resolve_right fun ⟨new, grown⟩ => ?_
    -- a further candle would move the mark
    rw [Candle.mark, grown, List.reverse_concat, List.getElem?_cons_succ] at after
    obtain ⟨inside, first⟩ := List.getElem?_eq_some_iff.mp after
    obtain ⟨inside', second⟩ := List.getElem?_eq_some_iff.mp before
    have := List.pairwise_iff_getElem.mp (Candle.starts_newestFirst (inTurn_concat.mp turn).1 minutes) 1 2
      inside inside' (by decide)
    rw [first, second] at this
    exact Int.lt_irrefl _ this
  have lengths : (Candle.resample (history ++ [b]) minutes).length = (Candle.resample history minutes).length := by
    simpa [Candle.starts] using congrArg List.length same
  rw [pattern?, pattern?, (Candle.dropLast_resample_concat turn kept).eq_of_length (by simp [lengths])]

/-- A divergence between two candles of a history that start with their intervals, the
earlier first. -/
structure Spans (history : List (Bar α)) (minutes : Nat) (d : Divergence α) : Prop where
  forward : d.start.ms < d.finish.ms
  start : d.start ∈ Candle.starts history minutes ∧ Candle.OnGrid minutes d.start
  finish : d.finish ∈ Candle.starts history minutes ∧ Candle.OnGrid minutes d.finish

section Found
variable (irrefl : ∀ x : α, ¬ x < x)
include irrefl

/-- What is found is of the kind of the pattern. -/
theorem Reads.pattern {d : Divergence α} (reads : Reads rules symbol history settings series (some d)) :
    pattern? history settings.minutes = some d.kind := by
  have closed := Candle.dropLast_suffix (Candle.trimDays_spec reads.shown).1
  have ranges := closed.map Candle.range
  rw [List.map_dropLast (l := Candle.addIndicators ..), Candle.map_addIndicators Candle.range fun _ _ _ => rfl,
    ← List.map_dropLast] at ranges
  exact Detection.patternOf?_of_suffix ranges (Detection.detect?_runs irrefl reads.detected).1

/-- What is found runs between later candles than the first. -/
theorem Reads.spans {d : Divergence α} (reads : Reads rules symbol history settings series (some d))
    (turn : InTurn history) (dated : ∀ b ∈ history, b.time.inCalendar = true) : Spans history settings.minutes d := by
  obtain ⟨-, i, j, s, f, positive, before, startPlace, finishPlace, start, finish⟩ :=
    Detection.detect?_runs irrefl reads.detected
  have suffix := starts_seriesOf reads.shown
  have startPlace : (series.map (·.start))[i]? = some d.start := by
    rw [List.getElem?_map, startPlace, ← start]
    rfl
  have finishPlace : (series.map (·.start))[j]? = some d.finish := by
    rw [List.getElem?_map, finishPlace, ← finish]
    rfl
  obtain ⟨first, firstPlace⟩ : ∃ t, (series.map (·.start))[0]? = some t := by
    have inside := (List.getElem?_eq_some_iff.mp startPlace).1
    exact ⟨_, List.getElem?_eq_getElem (by omega)⟩
  obtain ⟨-, onGrid⟩ := Candle.later_place turn dated suffix positive firstPlace startPlace
  obtain ⟨forward, onGrid'⟩ := Candle.later_place turn dated suffix before startPlace finishPlace
  exact ⟨forward, ⟨suffix.subset (List.mem_of_getElem? startPlace), onGrid⟩,
    suffix.subset (List.mem_of_getElem? finishPlace), onGrid'⟩

end Found

/-! ### Findings one after the other -/

/-- The findings of a chart over a history: newest first, each between two of its candles,
and none that ends behind the candle that the next one would end at. One that ends just
there is of the kind of the pattern. -/
structure Chronicled (history : List (Bar α)) (minutes : Nat) (findings : List (Divergence α)) : Prop where
  newestFirst : findings.Pairwise fun a b => b.finish.ms < a.finish.ms
  spans : ∀ d ∈ findings, Spans history minutes d
  reached : ∀ d ∈ findings, ∃ t, Candle.mark history minutes = some t ∧ d.finish.ms ≤ t.ms ∧
    (d.finish = t → pattern? history minutes = some d.kind)

variable {findings : List (Divergence α)}

theorem Chronicled.nil (history : List (Bar α)) (minutes : Nat) : Chronicled history minutes [] :=
  ⟨.nil, nofun, nofun⟩

theorem Chronicled.sublist {fewer : List (Divergence α)} (chronicled : Chronicled history minutes findings)
    (h : fewer.Sublist findings) : Chronicled history minutes fewer :=
  ⟨chronicled.newestFirst.sublist h, fun d hd => chronicled.spans d (h.subset hd),
    fun d hd => chronicled.reached d (h.subset hd)⟩

theorem Chronicled.concat (chronicled : Chronicled history minutes findings) (turn : InTurn (history ++ [b]))
    (kept : Candle.NeverLost minutes (history ++ [b])) : Chronicled (history ++ [b]) minutes findings := by
  refine ⟨chronicled.newestFirst, fun d hd => ?_, fun d hd => ?_⟩
  · obtain ⟨forward, ⟨start, onGrid⟩, finish, onGrid'⟩ := chronicled.spans d hd
    have stay := Candle.starts_subset_concat turn kept
    exact ⟨forward, ⟨stay start, onGrid⟩, stay finish, onGrid'⟩
  · obtain ⟨t, ht, before, kind⟩ := chronicled.reached d hd
    obtain ⟨t', ht', further⟩ := Candle.mark_concat turn kept ht
    refine ⟨t', ht', by omega, fun same => ?_⟩
    -- the mark has not moved, for it stood at the finding's end already
    obtain rfl : t = t' := by
      subst same
      cases t
      exact congrArg Instant.mk (Int.le_antisymm further before)
    rw [pattern_concat turn kept ht ht', kind same]

/-- Findings in order stay so whatever bars follow in turn. -/
theorem Chronicled.append {more : List (Bar α)} (chronicled : Chronicled history minutes findings)
    (turn : InTurn (history ++ more)) (kept : Candle.NeverLost minutes (history ++ more)) :
    Chronicled (history ++ more) minutes findings := by
  induction more using List.reverseRecOn with
  | nil => rwa [List.append_nil]
  | append_singleton more b ih =>
    rw [← List.append_assoc] at turn kept ⊢
    exact (ih (inTurn_concat.mp turn).1 kept.head).concat turn kept

/-- What the divergence at the mark does not replace ends before it. -/
theorem Chronicled.before {d e : Divergence α} (chronicled : Chronicled history minutes findings)
    (mark : Candle.mark history minutes = some d.finish) (kind : pattern? history minutes = some d.kind)
    {interval : Int} (wide : 0 ≤ interval) (he : e ∈ findings.dropWhile (supersedes interval d)) :
    e.finish.ms < d.finish.ms := by
  have reached : ∀ x ∈ findings, x.finish.ms ≤ d.finish.ms ∧ (x.finish = d.finish → x.kind = d.kind) := by
    intro x hx
    obtain ⟨t, ht, before, own⟩ := chronicled.reached x hx
    obtain rfl := Option.some.inj (mark.symm.trans ht)
    exact ⟨before, fun same => Option.some.inj ((own same).symm.trans kind)⟩
  cases findings with
  | nil => cases he
  | cons newest rest =>
    obtain ⟨newer, -⟩ := List.pairwise_cons.mp chronicled.newestFirst
    obtain ⟨limit, alike⟩ := reached newest (List.mem_cons_self ..)
    have older : ∀ x ∈ rest, x.finish.ms < d.finish.ms := fun x hx => Int.lt_of_lt_of_le (newer x hx) limit
    rw [List.dropWhile_cons] at he
    split at he
    · exact older e ((List.dropWhile_sublist _).subset he)
    · rename_i stays
      rcases List.mem_cons.mp he with rfl | later
      · refine Int.lt_iff_le_and_ne.mpr ⟨limit, fun same => stays ?_⟩
        have sameKind := alike (congrArg Instant.mk same)
        simp only [supersedes, sameKind, same, Int.sub_self, beq_self_eq_true, Bool.true_and, Bool.or_eq_true,
          decide_eq_true_eq]
        exact .inr wide
      · exact older e later

theorem Chronicled.absorbed {found : Option (Divergence α)} (irrefl : ∀ x : α, ¬ x < x)
    (chronicled : Chronicled history settings.minutes findings)
    (reads : Reads rules symbol history settings series found) (turn : InTurn history)
    (dated : ∀ b ∈ history, b.time.inCalendar = true) {interval : Int} (wide : 0 ≤ interval) :
    Chronicled history settings.minutes (absorbed interval findings found) := by
  cases h : fresh findings found with
  | none =>
    rw [absorbed_of_fresh_none h]
    exact chronicled
  | some d =>
    obtain ⟨rfl, taken⟩ := absorbed_of_fresh_some interval h
    obtain ⟨-, mark⟩ := reads.finish
    have kind := reads.pattern irrefl
    have others := chronicled.sublist (List.dropWhile_sublist (supersedes interval d))
    rw [taken, recorded]
    refine ⟨List.pairwise_cons.mpr ⟨fun e he => chronicled.before mark kind wide he, others.newestFirst⟩, ?_, ?_⟩
    · exact List.forall_mem_cons.mpr ⟨reads.spans irrefl turn dated, others.spans⟩
    · exact List.forall_mem_cons.mpr ⟨⟨d.finish, mark, Int.le_refl _, fun _ => kind⟩, others.reached⟩

/-- An update keeps the findings in order. -/
theorem Chronicled.update {c c' : Chart α} {new : Option (Divergence α)} (irrefl : ∀ x : α, ¬ x < x)
    (chronicled : Chronicled history c.settings.minutes c.findings)
    (updated : c.update? rules symbol history = some (c', new)) (turn : InTurn history)
    (dated : ∀ b ∈ history, b.time.inCalendar = true) :
    Chronicled history c'.settings.minutes c'.findings := by
  obtain ⟨kept, found, reads, retained, made, -⟩ := update_spec updated
  rw [made]
  exact (chronicled.sublist (retained_sublist retained)).absorbed irrefl reads turn dated c.interval_nonneg

end Chart
end TickerBoard

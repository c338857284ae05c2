import TickerBoard.Chart.Basic
import TickerBoard.Proofs.Chart.Candles
import TickerBoard.Proofs.Chart.Pairing
import TickerBoard.Proofs.Indicator.Columns

/-! What a chart shows and where its divergences end.

The series of a chart is the end of the resampled history, so it has the last
candle of the history (`getLast?_seriesOf`) and, if long enough, the candle that
a divergence may end at (`mark_of_seriesOf`). A divergence that is detected
does end there, on the day of that candle (`finish_of_detect`), and its numbers
are prices and readings of candles of the series (`numbers_of_detect`). -/
namespace TickerBoard

/-! ### Columns and trading days -/

namespace Candle
variable {α : Type} [Scalar α]

/-- The columns change nothing else of the candles. -/
theorem map_addIndicators {β : Type} (f : Candle α → β)
    (blind : ∀ (c : Candle α) rsi average, f { c with rsi, average } = f c)
    (candles : List (Candle α)) (rsiPeriod averagePeriod : Nat) :
    (addIndicators candles rsiPeriod averagePeriod).map f = candles.map f := by
  have columns : candles.length ≤ ((Rsi.column (candles.map (·.closing)) rsiPeriod).zip
      (Ema.column (candles.map (·.closing)) averagePeriod)).length := by
    simp [Rsi.column, Ema.column, length_alignTail]
  rw [addIndicators, List.map_map]
  conv_rhs => rw [← List.map_fst_zip columns, List.map_map]
  exact List.map_congr_left fun e _ => blind e.1 e.2.1 e.2.2

theorem map_start_addIndicators (candles : List (Candle α)) (rsiPeriod averagePeriod : Nat) :
    (addIndicators candles rsiPeriod averagePeriod).map (·.start) = candles.map (·.start) :=
  map_addIndicators (·.start) (fun _ _ _ => rfl) candles rsiPeriod averagePeriod

omit [Scalar α] in
/-- What is taken comes first and has its days. -/
theorem takeDays_spec {clock : SessionClock} {limit : Nat} {seen : List Day} {candles taken : List (Candle α)}
    (h : takeDays clock limit seen candles = some taken) :
    taken <+: candles ∧ ∀ c ∈ taken, (clock.day? c.start).isSome = true := by
  induction candles generalizing seen taken with
  | nil =>
    obtain rfl := Option.some.inj h
    exact ⟨List.prefix_rfl, nofun⟩
  | cons c rest ih =>
    have more : ∀ {seen}, (∃ day, clock.day? c.start = some day) →
        (takeDays clock limit seen rest).map (c :: ·) = some taken →
        taken <+: c :: rest ∧ ∀ c ∈ taken, (clock.day? c.start).isSome = true := by
      intro seen dated h
      obtain ⟨more, others, rfl⟩ := Option.map_eq_some_iff.mp h
      obtain ⟨first, days⟩ := ih others
      exact ⟨(List.prefix_cons_inj c).mpr first,
        List.forall_mem_cons.mpr ⟨Option.isSome_iff_exists.mpr dated, days⟩⟩
    rw [takeDays] at h
    split at h
    · cases h
    · rename_i day dated
      split at h
      · exact more ⟨day, dated⟩ h
      · split at h
        · obtain rfl := Option.some.inj h
          exact ⟨List.nil_prefix, nofun⟩
        · exact more ⟨day, dated⟩ h

omit [Scalar α] in
/-- The newest candle is always taken. -/
theorem head?_takeDays {clock : SessionClock} {limit : Nat} (positive : 0 < limit)
    {candles taken : List (Candle α)} (h : takeDays clock limit [] candles = some taken) :
    taken.head? = candles.head? := by
  cases candles with
  | nil =>
    obtain rfl := Option.some.inj h
    rfl
  | cons c rest =>
    rw [takeDays] at h
    cases day : clock.day? c.start with
    | none =>
      rw [day] at h
      cases h
    | some d =>
      simp only [day, List.contains_nil, Bool.false_eq_true, if_false, List.length_nil] at h
      rw [if_neg (by omega)] at h
      obtain ⟨more, -, rfl⟩ := Option.map_eq_some_iff.mp h
      rfl

omit [Scalar α] in
/-- Of candles that have their days, some can be taken. -/
theorem takeDays_isSome {clock : SessionClock} {candles : List (Candle α)}
    (dated : ∀ c ∈ candles, (clock.day? c.start).isSome = true) (limit : Nat) (seen : List Day) :
    (takeDays clock limit seen candles).isSome = true := by
  induction candles generalizing seen with
  | nil => rfl
  | cons c rest ih =>
    obtain ⟨own, others⟩ := List.forall_mem_cons.mp dated
    obtain ⟨day, own⟩ := Option.isSome_iff_exists.mp own
    simp only [takeDays, own]
    split
    · simpa using ih others seen
    · split
      · rfl
      · simpa using ih others (day :: seen)

omit [Scalar α] in
theorem trimDays_spec {clock : SessionClock} {days : Nat} {candles series : List (Candle α)}
    (h : trimDays? clock days candles = some series) :
    series <:+ candles ∧ series.getLast? = candles.getLast? ∧
      ∀ c ∈ series, (clock.day? c.start).isSome = true := by
  obtain ⟨taken, newest, rfl⟩ := Option.map_eq_some_iff.mp h
  obtain ⟨first, dated⟩ := takeDays_spec newest
  refine ⟨?_, ?_, fun c hc => dated c (List.mem_reverse.mp hc)⟩
  · rwa [← List.reverse_prefix, List.reverse_reverse]
  · rw [List.getLast?_reverse, head?_takeDays (by omega) newest, List.head?_reverse]

end Candle

/-! ### Numbers of candles -/

theorem mem_of_some_mem_alignTail {α : Type} {values : List α} {length : Nat} {x : α}
    (h : some x ∈ alignTail values length) : x ∈ values := by
  have h := List.mem_of_mem_take h
  rcases List.mem_append.mp h with blank | value
  · cases (List.mem_replicate.mp blank).2
  · simpa using value

/-- Every reading of the oscillator is finite. -/
theorem Rsi.isFinite_of_mem {α : Type} [Scalar α] {closes : List α} {period : Nat} {x : α}
    (h : some x ∈ column closes period) : Scalar.isFinite x = true := by
  have all : ∀ (changes : List α) (up down : Smoothing α), ∀ y ∈ indices up down changes,
      Scalar.isFinite y = true := by
    intro changes
    induction changes with
    | nil => exact nofun
    | cons change rest ih =>
      intro up down y hy
      simp only [indices] at hy
      split at hy
      · split at hy
        · rename_i finite
          rcases List.mem_cons.mp hy with rfl | later
          · exact finite
          · exact ih _ _ y later
        · cases hy
      · exact ih _ _ y hy
  have h := mem_of_some_mem_alignTail h
  unfold values at h
  split at h
  · cases h
  · exact all _ _ _ x h

namespace Candle
variable {α : Type} [Scalar α] {number : α → Prop}

/-- What holds of the candle of any first bar and of a candle that any bar is added to
holds of all that was gathered. -/
theorem gathered_induction {P : Candle α → Prop} {bars : List (Bar α)} {width : Nat}
    (first : ∀ b ∈ bars, P (ofBar (intervalStart width b.time) b))
    (more : ∀ b ∈ bars, ∀ c, P c → P (c.extend b)) :
    ∀ e ∈ (bars.foldl (gather width) Table.empty).entries, P e.2 := by
  induction bars using List.reverseRecOn with
  | nil => exact fun _ he => absurd he List.not_mem_nil
  | append_singleton bars b ih =>
    obtain ⟨first, one⟩ := List.forall_mem_append.mp first
    obtain ⟨more, added⟩ := List.forall_mem_append.mp more
    intro e he
    rw [List.foldl_append, List.foldl_cons, List.foldl_nil] at he
    rcases Table.mem_of_mem_place he with rfl | old
    · cases found : (bars.foldl (gather width) Table.empty).find? (intervalStart width b.time) with
      | none => exact one b (List.mem_singleton.mpr rfl)
      | some c => exact added b (List.mem_singleton.mpr rfl) c (ih first more _ (Table.mem_of_lookup found))
    · exact ih first more e old

theorem resample_induction {P : Candle α → Prop} {bars : List (Bar α)} {minutes : Nat}
    (first : ∀ b ∈ bars, P (ofBar (intervalStart (width minutes) b.time) b))
    (more : ∀ b ∈ bars, ∀ c, P c → P (c.extend b)) : ∀ c ∈ resample bars minutes, P c := by
  intro c hc
  obtain ⟨e, he, rfl⟩ := List.mem_map.mp (List.mem_filter.mp hc).1
  exact gathered_induction first more e he

theorem numbers_extend {c : Candle α} {b : Bar α} (own : number c.high ∧ number c.low)
    (new : number b.high ∧ number b.low) : number (c.extend b).high ∧ number (c.extend b).low := by
  obtain ⟨high, low⟩ := new
  obtain ⟨high', low'⟩ := own
  refine ⟨?_, ?_⟩
  · show number (Scalar.max c.high b.high)
    unfold Scalar.max
    split <;> [skip; split] <;> assumption
  · show number (Scalar.min c.low b.low)
    unfold Scalar.min
    split <;> [skip; split] <;> assumption

/-- Highs and lows of candles are numbers of the kind that those of the bars are. -/
theorem numbers_gathered {bars : List (Bar α)} (h : ∀ b ∈ bars, number b.high ∧ number b.low) (width : Nat) :
    ∀ e ∈ (bars.foldl (gather width) Table.empty).entries, number e.2.high ∧ number e.2.low :=
  gathered_induction (P := fun c => number c.high ∧ number c.low) h fun b hb _ own => numbers_extend own (h b hb)

theorem numbers_resample {bars : List (Bar α)} (h : ∀ b ∈ bars, number b.high ∧ number b.low)
    (minutes : Nat) : ∀ c ∈ resample bars minutes, number c.high ∧ number c.low :=
  resample_induction h fun b hb _ own => numbers_extend own (h b hb)

theorem mem_addIndicators {candles : List (Candle α)} {rsiPeriod averagePeriod : Nat} {c : Candle α}
    (h : c ∈ addIndicators candles rsiPeriod averagePeriod) :
    (∃ c₀ ∈ candles, c.high = c₀.high ∧ c.low = c₀.low) ∧
      ∀ reading, c.rsi = some reading → Scalar.isFinite reading = true := by
  obtain ⟨⟨c₀, rsi, average⟩, he, rfl⟩ := List.mem_map.mp h
  obtain ⟨own, columns⟩ := List.of_mem_zip he
  refine ⟨⟨c₀, own, rfl, rfl⟩, fun reading read => ?_⟩
  have reading_mem := (List.of_mem_zip columns).1
  rw [show rsi = some reading from read] at reading_mem
  exact Rsi.isFinite_of_mem reading_mem

end Candle

/-! ### The series of a chart -/

namespace Chart
variable {α : Type} [Angular α] {rules : ChartRules α} {settings : ChartSettings}
  {history : List (Bar α)} {series : List (Candle α)}

theorem starts_seriesOf (h : seriesOf? rules settings history = some series) :
    series.map (·.start) <:+ Candle.starts history settings.minutes := by
  have suffix := (Candle.trimDays_spec h).1.map (·.start)
  rwa [Candle.map_start_addIndicators] at suffix

theorem getLast?_seriesOf (h : seriesOf? rules settings history = some series) :
    series.getLast?.map (·.start) = (Candle.starts history settings.minutes).getLast? := by
  rw [(Candle.trimDays_spec h).2.1, ← List.getLast?_map, Candle.map_start_addIndicators]
  rfl

/-- A history is shown if the starts of its candles have their days. -/
theorem seriesOf_isSome
    (dated : ∀ t ∈ Candle.starts history settings.minutes, (rules.clock.day? t).isSome = true) :
    (seriesOf? rules settings history).isSome = true := by
  rw [seriesOf?, Candle.trimDays?, Option.isSome_map]
  refine Candle.takeDays_isSome (fun c hc => dated c.start ?_) _ _
  rw [Candle.starts, ← Candle.map_start_addIndicators _ rules.rsiPeriod settings.averagePeriod]
  exact List.mem_map_of_mem (List.mem_reverse.mp hc)

/-- Every candle that is shown has its day. -/
theorem day_seriesOf (h : seriesOf? rules settings history = some series) {c : Candle α} (hc : c ∈ series) :
    ∃ day, rules.clock.day? c.start = some day :=
  Option.isSome_iff_exists.mp ((Candle.trimDays_spec h).2.2 c hc)

theorem mark_of_seriesOf (h : seriesOf? rules settings history = some series) {c : Candle α}
    (hc : series.reverse[2]? = some c) : Candle.mark history settings.minutes = some c.start := by
  obtain ⟨older, split⟩ := starts_seriesOf h
  have long : 2 < series.reverse.length := (List.getElem?_eq_some_iff.mp hc).1
  rw [Candle.mark, ← split, List.reverse_append, List.getElem?_append_left (by simpa using long),
    ← List.map_reverse, List.getElem?_map, hc]
  rfl

theorem numbers_seriesOf (h : seriesOf? rules settings history = some series) {number : α → Prop}
    (finite : ∀ x : α, Scalar.isFinite x = true → number x)
    (prices : ∀ b ∈ history, number b.high ∧ number b.low) :
    ∀ c ∈ series, (number c.high ∧ number c.low) ∧ ∀ reading, c.rsi = some reading → number reading := by
  intro c hc
  obtain ⟨⟨c₀, own, high, low⟩, readings⟩ := Candle.mem_addIndicators ((Candle.trimDays_spec h).1.subset hc)
  have := Candle.numbers_resample prices settings.minutes c₀ own
  rw [high, low]
  exact ⟨this, fun reading read => finite reading (readings reading read)⟩

end Chart

/-! ### Where a divergence ends -/

namespace Detection
open Divergence (Kind)
variable {α : Type} [Angular α]

/-- Both ends are candles with a reading, and the later one is the second from the end. -/
theorem pair_spec {rules : DetectionRules α} {kind : Kind} {closed : List (Candle α)}
    {start finish : Extremum α} (h : pair? rules kind closed = some (start, finish)) :
    (start.candle ∈ closed ∧ start.candle.rsi = some start.reading) ∧
      (closed[closed.length - 2]? = some finish.candle ∧ finish.candle.rsi = some finish.reading) := by
  obtain ⟨place, prior, listed, near, width, i, best⟩ := pair?_eq_some.mp h
  have own : ∀ e ∈ (place, finish) :: prior, closed[e.1]? = some e.2.candle ∧
      e.2.candle.rsi = some e.2.reading := by
    intro e he
    rw [← listed] at he
    exact mem_extrema he
  have drawn : (i, start) ∈ prior := (mem_of_walk best).resolve_left nofun
  obtain ⟨startPlace, startRead⟩ := own _ (List.mem_cons_of_mem _ drawn)
  obtain ⟨finishPlace, finishRead⟩ := own _ (List.mem_cons_self ..)
  have place_eq : closed.length - 2 = place := by omega
  exact ⟨⟨List.mem_of_getElem? startPlace, startRead⟩, by rw [place_eq]; exact finishPlace, finishRead⟩

theorem find_spec {rules : DetectionRules α} {series : List (Candle α)} {kind : Kind}
    {start finish : Extremum α} (h : find? rules series = some (kind, start, finish)) :
    (start.candle ∈ series ∧ start.candle.rsi = some start.reading) ∧
      (series.reverse[2]? = some finish.candle ∧ finish.candle.rsi = some finish.reading) := by
  unfold find? at h
  dsimp only at h
  split at h
  · rename_i c₁ c₂ c₃ more closed
    simp only [Option.bind_eq_bind, Option.bind_eq_some_iff, Option.pure_def, Option.some.injEq,
      Prod.mk.injEq] at h
    obtain ⟨k, -, ⟨s, f⟩, pair, rfl, rfl, rfl⟩ := h
    obtain ⟨⟨startPlace, startRead⟩, finishPlace, finishRead⟩ := pair_spec pair
    refine ⟨⟨(List.dropLast_subset series) startPlace, startRead⟩, ?_, finishRead⟩
    have long : 1 < series.dropLast.length := by
      rw [← List.length_reverse, closed]
      simp
    have second : series.reverse[2]? = series.dropLast.reverse[1]? := by
      rw [← List.tail_reverse, List.getElem?_tail]
    rw [second, List.getElem?_reverse long]
    exact finishPlace
  · cases h

/-- If the candles have their days, whatever divergence is at the end has one. -/
theorem detect?_isSome {clock : SessionClock} {series : List (Candle α)}
    (dated : ∀ c ∈ series, (clock.day? c.start).isSome = true) (symbol : String) (rules : DetectionRules α) :
    (detect? symbol rules clock series).isSome = true := by
  rw [detect?]
  split
  · rfl
  · rename_i kind start finish found
    rw [Option.isSome_map]
    exact dated finish.candle (List.mem_reverse.mp (List.mem_of_getElem? (find_spec found).2.1))

/-- A divergence at the end of a series ends at the third candle from the end, on its day. -/
theorem finish_of_detect {symbol : String} {rules : DetectionRules α} {clock : SessionClock}
    {series : List (Candle α)} {d : Divergence α} (h : detect? symbol rules clock series = some (some d)) :
    clock.day? d.finish = some d.day ∧ ∃ c, series.reverse[2]? = some c ∧ c.start = d.finish := by
  unfold detect? at h
  split at h
  · cases h
  · rename_i kind start finish found
    obtain ⟨day, dated, same⟩ := Option.map_eq_some_iff.mp h
    obtain rfl := Option.some.inj same
    exact ⟨dated, finish.candle, (find_spec found).2.1, rfl⟩

/-- Its numbers are prices and readings of candles of the series. -/
theorem numbers_of_detect {symbol : String} {rules : DetectionRules α} {clock : SessionClock}
    {series : List (Candle α)} {d : Divergence α} (h : detect? symbol rules clock series = some (some d)) :
    ∃ kind, ∃ s ∈ series, ∃ f ∈ series, d.startPrice = price kind s ∧ s.rsi = some d.startRsi ∧
      d.finishPrice = price kind f ∧ f.rsi = some d.finishRsi := by
  unfold detect? at h
  split at h
  · cases h
  · rename_i kind start finish found
    obtain ⟨day, dated, same⟩ := Option.map_eq_some_iff.mp h
    obtain rfl := Option.some.inj same
    obtain ⟨⟨startPlace, startRead⟩, finishPlace, finishRead⟩ := find_spec found
    exact ⟨kind, start.candle, startPlace, finish.candle, List.mem_reverse.mp (List.mem_of_getElem? finishPlace),
      rfl, startRead, rfl, finishRead⟩

end Detection
end TickerBoard

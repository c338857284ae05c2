import TickerBoard.Proofs.Chart.Pairing

/-! What is detected at the end of a series.

A divergence is detected exactly if the three newest closed candles turn, the newest
extremum of the oscillator is at the middle one of them and an older one is admissible
(`Admissible`). It starts at the best of the admissible ones (`Best`) and has the
prices and readings of its two candles (`detected_iff_admissible`). -/
namespace TickerBoard.Detection
open Divergence (Kind)
variable {α : Type} [Angular α]

/-! ### The pattern at the end -/

/-- Three candles, the newest of them first, of which the middle one closes above the others
with a higher high than the one before it, or below them with a lower low. -/
def Turns (kind : Kind) (c₁ c₂ c₃ : Candle α) : Prop :=
  match kind with
  | .bearish => c₁.closing < c₂.closing ∧ c₃.closing < c₂.closing ∧ c₃.high < c₂.high
  | .bullish => c₂.closing < c₁.closing ∧ c₂.closing < c₃.closing ∧ c₂.low < c₃.low

/-- The pattern of the three newest of some candles, oldest first. -/
def patternOf? (candles : List (Candle α)) : Option Kind :=
  match candles.reverse with
  | c₁ :: c₂ :: c₃ :: _ => pattern? c₁ c₂ c₃
  | _ => none

/-- The closed candles end in the pattern, and the newest extremum is at its middle. -/
structure Poised (rules : DetectionRules α) (kind : Kind) (closed : List (Candle α)) (finish : Extremum α) :
    Prop where
  turns : ∃ c₁ c₂ c₃, [c₃, c₂, c₁] <:+ closed ∧ Turns kind c₁ c₂ c₃
  ends : Ends rules.order kind closed finish

theorem find?_eq (rules : DetectionRules α) (series : List (Candle α)) :
    find? rules series = (patternOf? series.dropLast).bind fun kind =>
      (pair? rules kind series.dropLast).map fun pair => (kind, pair) := by
  rw [find?, patternOf?]
  rcases series.dropLast.reverse with _ | ⟨c₁, _ | ⟨c₂, _ | ⟨c₃, _⟩⟩⟩
  · rfl
  · rfl
  · rfl
  · dsimp only
    cases pattern? c₁ c₂ c₃ with
    | none => rfl
    | some kind =>
      simp only [Option.bind_eq_bind, Option.bind_some, Option.pure_def]
      cases pair? rules kind series.dropLast <;> rfl

variable [Scalar.Ordered α]

theorem pattern?_eq_some {kind : Kind} {c₁ c₂ c₃ : Candle α} :
    pattern? c₁ c₂ c₃ = some kind ↔ Turns kind c₁ c₂ c₃ := by
  unfold pattern?
  split
  · rename_i peak
    simp only [Bool.and_eq_true, decide_eq_true_eq, and_assoc] at peak
    cases kind with
    | bearish => exact iff_of_true rfl peak
    | bullish => exact iff_of_false nofun fun trough => Scalar.Ordered.asymm peak.1 trough.1
  · rename_i peak
    simp only [Bool.and_eq_true, decide_eq_true_eq, and_assoc] at peak
    cases kind with
    | bearish => exact iff_of_false (by split <;> nofun) peak
    | bullish => simp [Turns, and_assoc]

theorem patternOf?_eq_some {kind : Kind} {candles : List (Candle α)} : patternOf? candles = some kind ↔
    ∃ c₁ c₂ c₃, [c₃, c₂, c₁] <:+ candles ∧ Turns kind c₁ c₂ c₃ := by
  have newest (c₁ c₂ c₃ : Candle α) :
      [c₃, c₂, c₁] <:+ candles ↔ ∃ more, candles.reverse = c₁ :: c₂ :: c₃ :: more := by
    rw [← List.reverse_prefix]
    exact ⟨fun ⟨more, h⟩ => ⟨more, h.symm⟩, fun ⟨more, h⟩ => ⟨more, h.symm⟩⟩
  simp only [newest]
  unfold patternOf?
  split
  · rename_i c₁ c₂ c₃ more listed
    rw [pattern?_eq_some]
    constructor
    · exact fun turns => ⟨c₁, c₂, c₃, ⟨more, listed⟩, turns⟩
    · rintro ⟨_, _, _, ⟨_, listed'⟩, turns⟩
      rw [listed] at listed'
      simp only [List.cons.injEq] at listed'
      obtain ⟨rfl, rfl, rfl, -⟩ := listed'
      exact turns
  · rename_i short
    refine iff_of_false nofun ?_
    rintro ⟨c₁, c₂, c₃, ⟨more, listed⟩, -⟩
    exact short c₁ c₂ c₃ more listed

/-! ### The divergence -/

variable {rules : DetectionRules α} {series : List (Candle α)}

/-- Candles are poised in one way at most. -/
theorem Poised.unique {closed : List (Candle α)} {kind kind' : Kind} {finish finish' : Extremum α}
    (h : Poised rules kind closed finish) (h' : Poised rules kind' closed finish') :
    kind = kind' ∧ finish = finish' := by
  obtain rfl : kind = kind' :=
    Option.some.inj ((patternOf?_eq_some.mpr h.turns).symm.trans (patternOf?_eq_some.mpr h'.turns))
  exact ⟨rfl, h.ends.extreme.ext h'.ends.extreme⟩

/-- Where the closed candles of a series are poised the best admissible start is found, and
where nothing is found no start is admissible. -/
theorem find?_spec (measured : ∀ kind finish, Ends rules.order kind series.dropLast finish →
      ∀ i e, Older rules.order kind series.dropLast i e → Measured kind finish e) :
    match find? rules series with
    | none => ∀ kind finish, Poised rules kind series.dropLast finish →
        ∀ i e, ¬ Admissible rules kind finish (Older rules.order kind series.dropLast) i e
    | some (kind, start, finish) => Poised rules kind series.dropLast finish ∧
        ∃ i, Best rules kind finish (Older rules.order kind series.dropLast) i start := by
  rw [find?_eq]
  cases pattern : patternOf? series.dropLast with
  | none =>
    intro kind finish poised
    simp [patternOf?_eq_some.mpr poised.turns] at pattern
  | some kind =>
    rw [Option.bind_some]
    cases pair : pair? rules kind series.dropLast with
    | none =>
      intro kind' finish poised
      obtain rfl := Option.some.inj (pattern.symm.trans (patternOf?_eq_some.mpr poised.turns))
      have spec := pair?_spec poised.ends (measured _ _ poised.ends)
      rw [pair] at spec
      exact spec
    | some found =>
      obtain ⟨start, finish⟩ := found
      have ends := ends_of_pair pair
      have spec := pair?_spec ends (measured _ _ ends)
      rw [pair] at spec
      exact ⟨⟨patternOf?_eq_some.mp pattern, ends⟩, spec.2⟩

/-- A divergence is detected exactly if the three newest closed candles turn, the newest
extremum is the second-newest closed candle and an older extremum is admissible; it starts
at the best of these. Nothing is answered only where its end has no local day, and the
forming candle does not matter. -/
theorem detected_iff_admissible (symbol : String) (rules : DetectionRules α) (clock : SessionClock)
    (measured : ∀ kind finish, Ends rules.order kind series.dropLast finish →
      ∀ i e, Older rules.order kind series.dropLast i e → Measured kind finish e) :
    ((∃ d, detect? symbol rules clock series = some (some d)) ↔
      ∃ kind finish, Poised rules kind series.dropLast finish ∧ (clock.day? finish.candle.start).isSome ∧
        ∃ i start, Admissible rules kind finish (Older rules.order kind series.dropLast) i start) ∧
    (∀ d, detect? symbol rules clock series = some (some d) →
      ∃ kind finish i start day, Poised rules kind series.dropLast finish ∧
        Best rules kind finish (Older rules.order kind series.dropLast) i start ∧
        clock.day? finish.candle.start = some day ∧
        d = { symbol, kind, day
              start := start.candle.start, startPrice := price kind start.candle, startRsi := start.reading
              finish := finish.candle.start, finishPrice := price kind finish.candle, finishRsi := finish.reading }) ∧
    (detect? symbol rules clock series = none →
      ∃ kind finish, Poised rules kind series.dropLast finish ∧ clock.day? finish.candle.start = none) ∧
    ∀ series', series'.dropLast = series.dropLast →
      detect? symbol rules clock series' = detect? symbol rules clock series := by
  have spec := find?_spec measured
  have shown : ∀ series', series'.dropLast = series.dropLast →
      detect? symbol rules clock series' = detect? symbol rules clock series := by
    intro series' same
    rw [detect?, detect?, find?, find?, same]
  cases found : find? rules series with
  | none =>
    rw [found] at spec
    have nothing : detect? symbol rules clock series = some none := by rw [detect?, found]
    rw [nothing] at shown ⊢
    refine ⟨iff_of_false (fun ⟨_, h⟩ => nomatch h) ?_, nofun, nofun, shown⟩
    rintro ⟨kind, finish, poised, -, i, start, admissible⟩
    exact spec kind finish poised i start admissible
  | some f =>
    obtain ⟨kind, start, finish⟩ := f
    rw [found] at spec
    obtain ⟨poised, i, best⟩ := spec
    have answer : detect? symbol rules clock series =
        (clock.day? finish.candle.start).map fun day => some (divergence symbol kind day start finish) := by
      rw [detect?, found]
    cases localDay : clock.day? finish.candle.start with
    | none =>
      rw [localDay, Option.map_none] at answer
      rw [answer] at shown ⊢
      refine ⟨iff_of_false (fun ⟨_, h⟩ => nomatch h) ?_, nofun, fun _ => ⟨kind, finish, poised, localDay⟩, shown⟩
      rintro ⟨kind', finish', poised', hasDay, -⟩
      obtain ⟨rfl, rfl⟩ := poised.unique poised'
      simp [localDay] at hasDay
    | some day =>
      rw [localDay, Option.map_some] at answer
      rw [answer] at shown ⊢
      have dated : (clock.day? finish.candle.start).isSome := by rw [localDay]; rfl
      refine ⟨iff_of_true ⟨_, rfl⟩ ⟨kind, finish, poised, dated, i, start, best.admissible⟩, ?_, nofun, shown⟩
      rintro _ ⟨⟩
      exact ⟨kind, finish, i, start, day, poised, best, localDay, rfl⟩

/-- The angles of small slopes, to the third order. -/
@[reducible] def shallow : Protractor where
  angle rise run := let x := rise / run; x - x * x * x / 3.0

/-- Eight candles a minute apart, of which the second, the fourth and the sixth are peaks of the oscillator. -/
def twoStarts : List (Candle Float) :=
  [(99.0, 98.0, 50.0), (100.0, 99.0, 80.0), (99.0, 98.0, 60.0), (101.0, 100.0, 75.0), (100.0, 99.0, 55.0),
      (103.0, 102.0, 72.0), (101.0, 100.0, 65.0), (100.0, 99.0, 60.0)].mapIdx fun i (high, closing, rsi) =>
    ⟨⟨i * 60000⟩, closing, high, closing, closing, 1, some rsi, none⟩

theorem detected_iff_admissible_twoStarts :
    letI := shallow
    let rules : DetectionRules Float := ⟨1, 70.0, 30.0⟩
    (∀ kind finish, Ends 1 kind twoStarts.dropLast finish → ∀ i e, Older 1 kind twoStarts.dropLast i e →
      Measured kind finish e) ∧
    (∃ d, detect? "ES" rules default twoStarts = some (some d)) ∧
    ∃ kind finish, Poised rules kind twoStarts.dropLast finish ∧
      ((default : SessionClock).day? finish.candle.start).isSome ∧
      ∃ i start, Admissible rules kind finish (Older 1 kind twoStarts.dropLast) i start := by
  let _ := shallow
  intro rules
  have numbers : ∀ kind, ∀ a ∈ extrema 1 kind twoStarts.dropLast, ∀ b ∈ extrema 1 kind twoStarts.dropLast,
      b.1 < a.1 → Scalar.isNaN (rsiSlope a.2 b.2) = false ∧
      Scalar.isNaN (rsiSlope a.2 b.2 * priceSlope kind a.2 b.2) = false ∧
      Scalar.isNaN (spread kind a.2 b.2) = false := by
    intro kind
    cases kind <;> decide +kernel
  have measured : ∀ kind finish, Ends 1 kind twoStarts.dropLast finish → ∀ i e, Older 1 kind twoStarts.dropLast i e →
      Measured kind finish e := by
    intro kind finish ends i e older
    obtain ⟨slope, product, spread⟩ := numbers kind _ ((mem_extrema_iff Scalar.lt_irrefl).mpr ends.extreme) _
      ((mem_extrema_iff Scalar.lt_irrefl).mpr older.1) (Nat.lt_sub_of_add_lt older.2)
    exact ⟨slope, product, spread⟩
  have found : (detect? "ES" rules default twoStarts).join.isSome = true := by decide +kernel
  obtain ⟨d, found⟩ := Option.isSome_iff_exists.mp found
  have detected : ∃ d, detect? "ES" rules default twoStarts = some (some d) := ⟨d, Option.join_eq_some_iff.mp found⟩
  exact ⟨measured, detected, (detected_iff_admissible "ES" rules default measured).1.mp detected⟩

example : letI := shallow; (detect? "ES" ⟨1, 70.0, 30.0⟩ default twoStarts).join.map (·.start) = some ⟨60000⟩ := by
  decide +kernel

end TickerBoard.Detection

import Mathlib.Data.List.Infix
import TickerBoard.Chart.Detection

/-! What a detection looks at.

A detection never reads the forming candle nor the moving average of any: two
series whose closed candles differ in nothing but the average have the same
divergence at their end (`detect?_eq`). -/
namespace TickerBoard
variable {α : Type}

/-- The candle without its moving average. -/
def Candle.withoutAverage (c : Candle α) : Candle α := { c with average := none }

namespace Detection
open Divergence (Kind)
variable [Angular α]

/-- The extremum without the moving average of its candle. -/
def Extremum.withoutAverage (e : Extremum α) : Extremum α := ⟨e.candle.withoutAverage, e.reading⟩

theorem extrema_withoutAverage (order : Nat) (kind : Kind) (closed : List (Candle α)) :
    extrema order kind (closed.map Candle.withoutAverage) =
      (extrema order kind closed).map fun e => (e.1, e.2.withoutAverage) := by
  have readings : (closed.map Candle.withoutAverage).map (·.rsi) = closed.map (·.rsi) := by
    rw [List.map_map]
    rfl
  rw [extrema, extrema, readings, List.map_filterMap]
  refine List.filterMap_congr fun i _ => ?_
  have reading : ∀ c : Candle α, c.withoutAverage.rsi = c.rsi := fun _ => rfl
  simp only [List.getElem?_toArray, List.getElem?_map, Option.bind_eq_bind, Option.pure_def]
  cases closed[i]? with
  | none => rfl
  | some c =>
    simp only [Option.map_some, Option.bind_some, reading]
    cases c.rsi <;> rfl

/-- The walk without the moving average of the candle that it has found. -/
def Walk.withoutAverage (w : Walk α) : Walk α :=
  { w with best := w.best.map fun b => (b.1, b.2.1, b.2.2.withoutAverage) }

theorem weigh_withoutAverage (rules : DetectionRules α) (kind : Kind) (finish : Extremum α)
    (best : Option (α × Nat × Extremum α)) (e : Nat × Extremum α) :
    weigh rules kind finish.withoutAverage (best.map fun b => (b.1, b.2.1, b.2.2.withoutAverage))
        (e.1, e.2.withoutAverage) =
      (weigh rules kind finish best e).map fun b => (b.1, b.2.1, b.2.2.withoutAverage) := by
  have zone : inZone rules kind finish.withoutAverage e.2.withoutAverage = inZone rules kind finish e.2 := rfl
  have rsi : rsiSlope finish.withoutAverage e.2.withoutAverage = rsiSlope finish e.2 := rfl
  have price : priceSlope kind finish.withoutAverage e.2.withoutAverage = priceSlope kind finish e.2 := rfl
  have spread : spread kind finish.withoutAverage e.2.withoutAverage = spread kind finish e.2 := rfl
  simp only [weigh, zone, rsi, price, spread, Option.all_map]
  split
  · rfl
  · split
    · rfl
    · split <;> rfl

theorem visit_withoutAverage (rules : DetectionRules α) (kind : Kind) (finish : Extremum α) (w : Walk α)
    (e : Nat × Extremum α) :
    Walk.visit rules kind finish.withoutAverage w.withoutAverage (e.1, e.2.withoutAverage) =
      (Walk.visit rules kind finish w e).withoutAverage := by
  have slope : rsiSlope finish.withoutAverage e.2.withoutAverage = rsiSlope finish e.2 := rfl
  simp only [Walk.visit, Walk.withoutAverage, slope, weigh_withoutAverage]
  split <;> rfl

theorem pair?_withoutAverage (rules : DetectionRules α) (kind : Kind) (closed : List (Candle α)) :
    pair? rules kind (closed.map Candle.withoutAverage) =
      (pair? rules kind closed).map fun p => (p.1.withoutAverage, p.2.withoutAverage) := by
  rw [pair?, pair?, extrema_withoutAverage, List.length_map]
  cases extrema rules.order kind closed with
  | nil => rfl
  | cons last prior =>
    have walked : prior.foldl (fun w e => Walk.visit rules kind last.2.withoutAverage w (e.1, e.2.withoutAverage)) {} =
        (prior.foldl (Walk.visit rules kind last.2) {}).withoutAverage :=
      @List.foldl_hom _ _ _ Walk.withoutAverage _ _ prior {} (visit_withoutAverage rules kind last.2)
    simp only [List.map_cons, List.foldl_map, walked]
    split
    · rfl
    · rw [Walk.withoutAverage, Option.map_map, Option.map_map]
      rfl

theorem find?_withoutAverage (rules : DetectionRules α) (series : List (Candle α)) :
    find? rules (series.map Candle.withoutAverage) =
      (find? rules series).map fun f => (f.1, f.2.1.withoutAverage, f.2.2.withoutAverage) := by
  rw [find?, find?, ← List.map_dropLast, ← List.map_reverse]
  rcases series.dropLast.reverse with _ | ⟨c₁, _ | ⟨c₂, _ | ⟨c₃, more⟩⟩⟩
  · rfl
  · rfl
  · rfl
  · have pattern : pattern? c₁.withoutAverage c₂.withoutAverage c₃.withoutAverage = pattern? c₁ c₂ c₃ := rfl
    simp only [List.map_cons, pattern, pair?_withoutAverage, Option.bind_eq_bind, Option.pure_def]
    cases pattern? c₁ c₂ c₃ with
    | none => rfl
    | some kind =>
      simp only [Option.bind_some]
      cases pair? rules kind series.dropLast <;> rfl

theorem detect?_withoutAverage (symbol : String) (rules : DetectionRules α) (clock : SessionClock)
    (series : List (Candle α)) :
    detect? symbol rules clock (series.map Candle.withoutAverage) = detect? symbol rules clock series := by
  rw [detect?, detect?, find?_withoutAverage]
  cases find? rules series <;> rfl

/-- What is detected hangs on the closed candles, and on their moving averages in nothing. -/
theorem detect?_eq (symbol : String) (rules : DetectionRules α) (clock : SessionClock)
    {series series' : List (Candle α)}
    (same : (series.map Candle.withoutAverage).dropLast = (series'.map Candle.withoutAverage).dropLast) :
    detect? symbol rules clock series = detect? symbol rules clock series' := by
  rw [← detect?_withoutAverage symbol rules clock series, ← detect?_withoutAverage symbol rules clock series',
    detect?, detect?, find?, find?, same]

end Detection
end TickerBoard

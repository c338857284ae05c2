import TickerBoard.Chart.Detection
import TickerBoard.Proofs.Indicator.Extrema
import TickerBoard.Proofs.Scalar

/-! Which start a divergence is given.

The walk over the extrema before an end carries the slope of the one drawn last and
the widest so far. The first decides alone what is drawn, so the walk is two passes:
one that draws and one that keeps the first of the widest that count
(`best_foldl_visit`). Where slopes are numbers, the slope of the one drawn last is the
tightest of all so far, so those are drawn that no newer one is tighter than
(`mem_drawn`); of them the walk ends with the widest, and of equally wide ones with the
newest (`Leads`). Together: it ends with the best of the admissible ones, and with none
only if there are none (`walk_spec`). -/
namespace TickerBoard.Detection
open Divergence (Kind)
variable {α : Type} [Angular α]

/-! ### Extrema -/

/-- The value `a` lies beyond the value `b` on the side of the kind. -/
def Beyond (kind : Kind) (a b : α) : Prop :=
  match kind with
  | .bearish => b < a
  | .bullish => a < b

/-- The reading of the candle at a place is a strict extremum: there are candles to both
sides of it, and it lies beyond the reading of each that is at most an order away. -/
structure Extreme (order : Nat) (kind : Kind) (closed : List (Candle α)) (i : Nat) (e : Extremum α) : Prop where
  positive : 0 < order
  candle : closed[i]? = some e.candle
  reading : e.candle.rsi = some e.reading
  inner : 0 < i ∧ i + 1 < closed.length
  beats : ∀ j c, closed[j]? = some c → j ≠ i → i ≤ j + order → j ≤ i + order →
    ∃ r, c.rsi = some r ∧ Beyond kind e.reading r

/-- The newest extremum is the second-newest of the candles. -/
structure Ends (order : Nat) (kind : Kind) (closed : List (Candle α)) (finish : Extremum α) : Prop where
  extreme : Extreme order kind closed (closed.length - 2) finish
  newest : ∀ j e, Extreme order kind closed j e → j ≤ closed.length - 2

/-- An extremum before the second-newest candle. -/
def Older (order : Nat) (kind : Kind) (closed : List (Candle α)) (i : Nat) (e : Extremum α) : Prop :=
  Extreme order kind closed i e ∧ i + 2 < closed.length

variable {order : Nat} {kind : Kind} {closed : List (Candle α)}

theorem extrema_newestFirst (order : Nat) (kind : Kind) (closed : List (Candle α)) :
    (extrema order kind closed).Pairwise fun a b => b.1 < a.1 := by
  refine List.Pairwise.filterMap _ (fun i j before e he e' he' => ?_)
    (List.pairwise_reverse.mpr (Extrema.places_ascending _ order _))
  simp only [Option.bind_eq_bind, Option.bind_eq_some_iff, Option.pure_def, Option.some.injEq] at he he'
  obtain ⟨_, -, _, -, rfl⟩ := he
  obtain ⟨_, -, _, -, rfl⟩ := he'
  exact before

theorem mem_extrema {e : Nat × Extremum α} (h : e ∈ extrema order kind closed) :
    closed[e.1]? = some e.2.candle ∧ e.2.candle.rsi = some e.2.reading := by
  obtain ⟨i, -, made⟩ := List.mem_filterMap.mp h
  simp only [List.getElem?_toArray, Option.bind_eq_bind, Option.bind_eq_some_iff, Option.pure_def,
    Option.some.injEq] at made
  obtain ⟨candle, place, reading, read, rfl⟩ := made
  exact ⟨place, read⟩

/-- The extrema that a detection goes by are the strict extrema of the readings. -/
theorem mem_extrema_iff (irrefl : ∀ x : α, ¬ x < x) {i : Nat} {e : Extremum α} :
    (i, e) ∈ extrema order kind closed ↔ Extreme order kind closed i e := by
  have beyond (a : α) (r : Option α) :
      Extrema.winsPresent (Extrema.wins (side kind) .strict) (some a) r = true ↔
        ∃ x, r = some x ∧ Beyond kind a x := by
    cases r with
    | none => exact ⟨nofun, fun ⟨_, missing, _⟩ => nomatch missing⟩
    | some x =>
      simp only [Option.some.injEq, exists_eq_left']
      cases kind <;> exact decide_eq_true_iff
  have lose (r : Option α) : Extrema.winsPresent (Extrema.wins (side kind) .strict) r r = false := by
    cases r with
    | none => rfl
    | some x => cases kind <;> exact decide_eq_false (irrefl x)
  have place : (i, e) ∈ extrema order kind closed ↔
      i ∈ Extrema.places (Extrema.winsPresent (Extrema.wins (side kind) .strict)) order (closed.map (·.rsi)) ∧
        closed[i]? = some e.candle ∧ e.candle.rsi = some e.reading := by
    simp only [extrema, List.mem_filterMap, List.mem_reverse, List.getElem?_toArray, Option.bind_eq_bind,
      Option.bind_eq_some_iff, Option.pure_def, Option.some.injEq, Prod.mk.injEq]
    constructor
    · rintro ⟨_, listed, c, candle, r, reading, rfl, rfl⟩
      exact ⟨listed, candle, reading⟩
    · rintro ⟨listed, candle, reading⟩
      exact ⟨i, listed, _, candle, _, reading, rfl, rfl⟩
  rw [place, Extrema.mem_places_iff lose]
  constructor
  · rintro ⟨⟨r, stands⟩, candle, reading⟩
    have own : (closed.map (·.rsi))[i]? = some (some e.reading) := by
      rw [List.getElem?_map, candle, Option.map_some, reading]
    obtain rfl := Option.some.inj (stands.value.symm.trans own)
    have inner := stands.inner
    rw [List.length_map] at inner
    refine ⟨stands.positive, candle, reading, inner, fun j c other apart left right => ?_⟩
    exact (beyond _ _).mp (stands.beats j c.rsi (by rw [List.getElem?_map, other]; rfl) apart left right)
  · rintro ⟨positive, candle, reading, inner, beats⟩
    refine ⟨⟨some e.reading, positive, ?_, by rwa [List.length_map], fun j r other apart left right => ?_⟩,
      candle, reading⟩
    · rw [List.getElem?_map, candle, Option.map_some, reading]
    · rw [List.getElem?_map] at other
      obtain ⟨c, there, rfl⟩ := Option.map_eq_some_iff.mp other
      exact (beyond _ _).mpr (beats j c there apart left right)

theorem Extreme.ext {i : Nat} {e e' : Extremum α} (h : Extreme order kind closed i e)
    (h' : Extreme order kind closed i e') : e = e' := by
  obtain ⟨candle, reading⟩ := e
  obtain ⟨candle', reading'⟩ := e'
  obtain rfl : candle = candle' := Option.some.inj (h.candle.symm.trans h'.candle)
  obtain rfl : reading = reading' := Option.some.inj (h.reading.symm.trans h'.reading)
  rfl

theorem ends_iff (irrefl : ∀ x : α, ¬ x < x) {finish : Extremum α} : Ends order kind closed finish ↔
    ∃ place prior, extrema order kind closed = (place, finish) :: prior ∧ place + 2 = closed.length := by
  constructor
  · rintro ⟨extreme, -⟩
    have listed := (mem_extrema_iff irrefl).mpr extreme
    have newestFirst := extrema_newestFirst order kind closed
    cases h : extrema order kind closed with
    | nil => simp [h] at listed
    | cons last prior =>
      obtain ⟨place, e⟩ := last
      have newest : Extreme order kind closed place e := (mem_extrema_iff irrefl).mp (h ▸ List.mem_cons_self ..)
      have inner := newest.inner
      rw [h] at newestFirst listed
      -- no extremum is further on than the second-newest candle
      have same : place = closed.length - 2 := by
        rcases List.mem_cons.mp listed with own | earlier
        · exact (Prod.mk.inj own).1.symm
        · have := (List.pairwise_cons.mp newestFirst).1 _ earlier
          omega
      subst same
      exact ⟨_, prior, by rw [newest.ext extreme], by omega⟩
  · rintro ⟨place, prior, listed, near⟩
    have newest : Extreme order kind closed place finish :=
      (mem_extrema_iff irrefl).mp (listed ▸ List.mem_cons_self ..)
    have same : place = closed.length - 2 := by omega
    subst same
    refine ⟨newest, fun j e h => ?_⟩
    have := h.inner
    omega

theorem mem_prior_iff (irrefl : ∀ x : α, ¬ x < x) {place : Nat} {finish : Extremum α}
    {prior : List (Nat × Extremum α)} (listed : extrema order kind closed = (place, finish) :: prior)
    (near : place + 2 = closed.length) {i : Nat} {e : Extremum α} :
    (i, e) ∈ prior ↔ Older order kind closed i e := by
  have newestFirst := extrema_newestFirst order kind closed
  rw [listed] at newestFirst
  rw [Older, ← mem_extrema_iff irrefl, listed, List.mem_cons]
  constructor
  · intro h
    have : i < place := (List.pairwise_cons.mp newestFirst).1 _ h
    exact ⟨.inr h, by omega⟩
  · rintro ⟨own | h, before⟩
    · obtain ⟨rfl, -⟩ := Prod.mk.inj own
      omega
    · exact h

/-! ### Candidates -/

section Candidates
variable (rules : DetectionRules α) (kind : Kind) (finish : Extremum α)

/-- One of the readings of the pair lies in the zone. -/
def InZone (start : Extremum α) : Prop :=
  match kind with
  | .bearish => rules.overbought ≤ start.reading ∨ rules.overbought ≤ finish.reading
  | .bullish => start.reading ≤ rules.oversold ∨ finish.reading ≤ rules.oversold

/-- The start of a pair that may be a divergence, of the extrema that are older than its end.
One whose slope is looser than that of the candidate drawn before it is passed over, which
leaves those that no newer extremum has a tighter slope than (`mem_drawn`). -/
structure Admissible (older : Nat → Extremum α → Prop) (i : Nat) (start : Extremum α) : Prop where
  before : older i start
  tight : ∀ j e, older j e → i < j → ¬ Beyond kind (rsiSlope finish start) (rsiSlope finish e)
  zone : InZone rules kind finish start
  opposed : rsiSlope finish start * priceSlope kind finish start < Scalar.zero

/-- The admissible start with the widest angle between its slopes, the newest of equally wide ones. -/
structure Best (older : Nat → Extremum α → Prop) (i : Nat) (start : Extremum α) : Prop where
  admissible : Admissible rules kind finish older i start
  widest : ∀ j e, Admissible rules kind finish older j e → spread kind finish e ≤ spread kind finish start
  newest : ∀ j e, Admissible rules kind finish older j e → i < j → spread kind finish e < spread kind finish start

/-- What is compared of a start are numbers. -/
structure Measured (start : Extremum α) : Prop where
  slope : Scalar.isNaN (rsiSlope finish start) = false
  product : Scalar.isNaN (rsiSlope finish start * priceSlope kind finish start) = false
  spread : Scalar.isNaN (spread kind finish start) = false

end Candidates

section Walk
variable {rules : DetectionRules α} {kind : Kind} {finish : Extremum α}

/-! ### Drawing candidates -/

/-- The extrema that a walk draws. -/
def drawn (kind : Kind) (finish : Extremum α) : Option α → List (Nat × Extremum α) → List (Nat × Extremum α)
  | _, [] => []
  | bound, e :: rest =>
    let s := rsiSlope finish e.2
    if bound.any (looser kind s ·) then drawn kind finish bound rest
    else e :: drawn kind finish (some s) rest

/-- The walk keeps what a second pass keeps of those it draws. -/
theorem best_foldl_visit (w : Walk α) (es : List (Nat × Extremum α)) :
    (es.foldl (Walk.visit rules kind finish) w).best =
      (drawn kind finish w.bound es).foldl (weigh rules kind finish) w.best := by
  induction es generalizing w with
  | nil => rfl
  | cons e rest ih =>
    rw [List.foldl_cons, ih, Walk.visit, drawn]
    split <;> rfl

theorem drawn_sublist (bound : Option α) (es : List (Nat × Extremum α)) :
    (drawn kind finish bound es).Sublist es := by
  induction es generalizing bound with
  | nil => exact List.Sublist.refl _
  | cons e rest ih =>
    rw [drawn]
    split
    · exact (ih bound).cons e
    · exact (ih _).cons_cons e

theorem best_weigh {best : Option (α × Nat × Extremum α)} {e : Nat × Extremum α} {b : α × Nat × Extremum α}
    (h : weigh rules kind finish best e = some b) : best = some b ∨ b.2 = e := by
  unfold weigh at h
  split at h
  · exact .inl h
  · split at h
    · exact .inl h
    · dsimp only at h
      split at h
      · obtain rfl := Option.some.inj h
        exact .inr rfl
      · exact .inl h

/-- What a walk finds is one of the extrema that it comes to. -/
theorem mem_of_walk {w : Walk α} {es : List (Nat × Extremum α)} {b : α × Nat × Extremum α}
    (h : (es.foldl (Walk.visit rules kind finish) w).best = some b) : w.best = some b ∨ b.2 ∈ es := by
  induction es generalizing w with
  | nil => exact .inl h
  | cons e rest ih =>
    rcases ih h with visited | later
    · unfold Walk.visit at visited
      dsimp only at visited
      split at visited
      · exact .inl visited
      · exact (best_weigh visited).imp_right fun own => List.mem_cons.mpr (.inl own)
    · exact .inr (List.mem_cons_of_mem _ later)

/-- A pair is found where the newest extremum is at the second closed candle from the end
and the walk over those before it finds a start. -/
theorem pair?_eq_some {closed : List (Candle α)} {start : Extremum α} :
    pair? rules kind closed = some (start, finish) ↔
      ∃ place prior, extrema rules.order kind closed = (place, finish) :: prior ∧ place + 2 = closed.length ∧
        ∃ width i, (prior.foldl (Walk.visit rules kind finish) {}).best = some (width, i, start) := by
  unfold pair?
  cases extrema rules.order kind closed with
  | nil => simp
  | cons last prior =>
    obtain ⟨place, last⟩ := last
    dsimp only
    split
    · rename_i far
      refine ⟨nofun, ?_⟩
      rintro ⟨_, _, listed, near, -⟩
      obtain ⟨rfl, -⟩ := Prod.mk.inj (List.cons.inj listed).1
      exact absurd near far
    · rename_i near
      constructor
      · intro h
        obtain ⟨⟨width, i, _⟩, best, same⟩ := Option.map_eq_some_iff.mp h
        obtain ⟨rfl, rfl⟩ := Prod.mk.inj same
        exact ⟨place, prior, rfl, not_not.mp near, width, i, best⟩
      · rintro ⟨_, _, listed, -, width, i, best⟩
        obtain ⟨own, rfl⟩ := List.cons.inj listed
        obtain ⟨rfl, rfl⟩ := Prod.mk.inj own
        exact Option.map_eq_some_iff.mpr ⟨_, best, rfl⟩

theorem looser_iff {a b : α} : looser kind a b = true ↔ Beyond kind a b := by
  cases kind <;> exact decide_eq_true_iff

theorem inZone_iff {start : Extremum α} :
    inZone rules kind finish start = true ↔ InZone rules kind finish start := by
  cases kind <;> simp [inZone, InZone]

/-- None of the extrema that is newer has a tighter slope. -/
def Tight (kind : Kind) (finish : Extremum α) (es : List (Nat × Extremum α)) (e : Nat × Extremum α) : Prop :=
  ∀ e' ∈ es, e.1 < e'.1 → ¬ Beyond kind (rsiSlope finish e.2) (rsiSlope finish e'.2)

theorem tight_cons {es : List (Nat × Extremum α)} {x e : Nat × Extremum α} (older : e.1 < x.1) :
    Tight kind finish (x :: es) e ↔
      ¬ Beyond kind (rsiSlope finish e.2) (rsiSlope finish x.2) ∧ Tight kind finish es e := by
  rw [Tight, List.forall_mem_cons]
  exact and_congr_left fun _ => ⟨fun h => h older, fun h _ => h⟩

theorem tight_newest {es : List (Nat × Extremum α)} {x : Nat × Extremum α} (older : ∀ e ∈ es, e.1 < x.1) :
    Tight kind finish (x :: es) x :=
  List.forall_mem_cons.mpr ⟨fun same => absurd same (Nat.lt_irrefl _),
    fun e he newer => absurd newer (Nat.lt_asymm (older e he))⟩

variable [Scalar.Ordered α]

theorem Beyond.trans {a b c : α} (first : Scalar.isNaN a = false) (last : Scalar.isNaN c = false)
    (h : Beyond kind a b) (h' : Beyond kind b c) : Beyond kind a c := by
  cases kind with
  | bearish => exact Scalar.lt_trans first h' h
  | bullish => exact Scalar.lt_trans last h h'

theorem not_beyond_trans {a b c : α} (number : Scalar.isNaN b = false) (h : ¬ Beyond kind a b)
    (h' : ¬ Beyond kind b c) : ¬ Beyond kind a c := by
  cases kind with
  | bearish => exact Scalar.not_lt_trans number h' h
  | bullish => exact Scalar.not_lt_trans number h h'

/-- Of extrema with the newest first those are drawn that are not looser than the bound nor
than any newer one. -/
theorem mem_drawn_bound {bound : Option α} {es : List (Nat × Extremum α)}
    (newestFirst : es.Pairwise fun a b => b.1 < a.1)
    (numbers : ∀ e ∈ es, Scalar.isNaN (rsiSlope finish e.2) = false) (number : ∀ b ∈ bound, Scalar.isNaN b = false)
    {e : Nat × Extremum α} : e ∈ drawn kind finish bound es ↔
      e ∈ es ∧ (∀ b ∈ bound, ¬ Beyond kind (rsiSlope finish e.2) b) ∧ Tight kind finish es e := by
  induction es generalizing bound with
  | nil => simp [drawn]
  | cons x rest ih =>
    obtain ⟨older, newestFirst⟩ := List.pairwise_cons.mp newestFirst
    obtain ⟨own, numbers⟩ := List.forall_mem_cons.mp numbers
    rw [drawn]
    split
    · rename_i passed
      cases bound with
      | none => cases passed
      | some b =>
        have loose : Beyond kind (rsiSlope finish x.2) b := looser_iff.mp passed
        rw [ih newestFirst numbers number, List.mem_cons]
        constructor
        · rintro ⟨he, free, tight⟩
          -- looser than the one passed over it would be looser than the bound
          refine ⟨.inr he, free, (tight_cons (older e he)).mpr ⟨fun looser => free b rfl ?_, tight⟩⟩
          exact looser.trans (numbers e he) (number b rfl) loose
        · rintro ⟨rfl | he, free, tight⟩
          · exact absurd loose (free b rfl)
          · exact ⟨he, free, ((tight_cons (older e he)).mp tight).2⟩
    · rename_i kept
      have free : ∀ b ∈ bound, ¬ Beyond kind (rsiSlope finish x.2) b := by
        rintro b rfl
        exact fun loose => kept (looser_iff.mpr loose)
      rw [List.mem_cons, List.mem_cons, ih newestFirst numbers (by rintro _ ⟨⟩; exact own)]
      constructor
      · rintro (rfl | ⟨he, tighter, tight⟩)
        · exact ⟨.inl rfl, free, tight_newest older⟩
        · exact ⟨.inr he, fun b hb => not_beyond_trans own (tighter _ rfl) (free b hb),
            (tight_cons (older e he)).mpr ⟨tighter _ rfl, tight⟩⟩
      · rintro ⟨rfl | he, -, tight⟩
        · exact .inl rfl
        · obtain ⟨tighter, tight⟩ := (tight_cons (older e he)).mp tight
          exact .inr ⟨he, by rintro _ ⟨⟩; exact tighter, tight⟩

theorem mem_drawn {es : List (Nat × Extremum α)} (newestFirst : es.Pairwise fun a b => b.1 < a.1)
    (numbers : ∀ e ∈ es, Scalar.isNaN (rsiSlope finish e.2) = false) {e : Nat × Extremum α} :
    e ∈ drawn kind finish none es ↔ e ∈ es ∧ Tight kind finish es e := by
  rw [mem_drawn_bound newestFirst numbers fun _ h => absurd h (Option.not_mem_none _)]
  exact and_congr_right fun _ => and_iff_right fun _ h => absurd h (Option.not_mem_none _)

/-! ### Keeping the widest -/

/-- The start lies in the zone, and its slopes have opposite signs. -/
def Counts (rules : DetectionRules α) (kind : Kind) (finish start : Extremum α) : Prop :=
  InZone rules kind finish start ∧ rsiSlope finish start * priceSlope kind finish start < Scalar.zero

/-- What does not count is not kept, what counts is if it is wider. -/
theorem weigh_spec (rules : DetectionRules α) (best : Option (α × Nat × Extremum α)) {e : Nat × Extremum α}
    (measured : Measured kind finish e.2) :
    (¬ Counts rules kind finish e.2 ∧ weigh rules kind finish best e = best) ∨
      (Counts rules kind finish e.2 ∧ (∃ b, best = some b ∧ ¬ b.1 < spread kind finish e.2) ∧
        weigh rules kind finish best e = best) ∨
      (Counts rules kind finish e.2 ∧ (∀ b, best = some b → b.1 < spread kind finish e.2) ∧
        weigh rules kind finish best e = some (spread kind finish e.2, e)) := by
  unfold weigh
  split
  · rename_i outside
    refine .inl ⟨fun counts => ?_, rfl⟩
    simp [inZone_iff.mpr counts.1] at outside
  · rename_i inside
    have zone : InZone rules kind finish e.2 := inZone_iff.mp (by simpa using inside)
    split
    · rename_i same
      have := (Scalar.Ordered.not_lt measured.product Scalar.Ordered.zero).mpr same
      exact .inl ⟨fun counts => this counts.2, rfl⟩
    · rename_i opposed
      have counts : Counts rules kind finish e.2 := by
        refine ⟨zone, not_not.mp fun h => opposed ?_⟩
        exact (Scalar.Ordered.not_lt measured.product Scalar.Ordered.zero).mp h
      dsimp only
      split
      · rename_i wider
        refine .inr (.inr ⟨counts, ?_, rfl⟩)
        rintro b rfl
        exact of_decide_eq_true wider
      · rename_i narrower
        cases best with
        | none => exact absurd rfl narrower
        | some b => exact .inr (.inl ⟨counts, ⟨b, rfl, fun less => narrower (decide_eq_true less)⟩, rfl⟩)

/-- The one kept is the widest of those that count, the newest of equally wide ones. -/
def Leads (rules : DetectionRules α) (kind : Kind) (finish : Extremum α) (seen : List (Nat × Extremum α)) :
    Option (α × Nat × Extremum α) → Prop
  | none => ∀ e ∈ seen, ¬ Counts rules kind finish e.2
  | some (width, b) => b ∈ seen ∧ Counts rules kind finish b.2 ∧ width = spread kind finish b.2 ∧
      ∀ e ∈ seen, Counts rules kind finish e.2 →
        ¬ width < spread kind finish e.2 ∧ (b.1 < e.1 → spread kind finish e.2 < width)

/-- A further, older one keeps it so. -/
theorem Leads.concat {seen : List (Nat × Extremum α)} {best : Option (α × Nat × Extremum α)} {e : Nat × Extremum α}
    (leads : Leads rules kind finish seen best) (older : ∀ e' ∈ seen, e.1 < e'.1)
    (numbers : ∀ e' ∈ seen, Scalar.isNaN (spread kind finish e'.2) = false) (measured : Measured kind finish e.2) :
    Leads rules kind finish (seen ++ [e]) (weigh rules kind finish best e) := by
  have last : e ∈ seen ++ [e] := List.mem_append_right _ (List.mem_singleton.mpr rfl)
  have irrefl := Scalar.lt_irrefl (spread kind finish e.2)
  rcases weigh_spec rules best measured with
    ⟨out, same⟩ | ⟨counts, ⟨b, rfl, narrower⟩, same⟩ | ⟨counts, wider, made⟩
  · rw [same]
    cases best with
    | none => exact List.forall_mem_append.mpr ⟨leads, List.forall_mem_singleton.mpr out⟩
    | some b =>
      obtain ⟨place, kept, width, rest⟩ := leads
      exact ⟨List.mem_append_left _ place, kept, width,
        List.forall_mem_append.mpr ⟨rest, List.forall_mem_singleton.mpr fun counts => absurd counts out⟩⟩
  · rw [same]
    obtain ⟨place, kept, width, rest⟩ := leads
    refine ⟨List.mem_append_left _ place, kept, width,
      List.forall_mem_append.mpr ⟨rest, List.forall_mem_singleton.mpr fun _ => ⟨narrower, fun newer => ?_⟩⟩⟩
    exact absurd newer (Nat.lt_asymm (older _ place))
  · rw [made]
    refine ⟨last, counts, rfl, List.forall_mem_append.mpr ⟨fun e' he' own => ?_, ?_⟩⟩
    · cases best with
      | none => exact absurd own (leads e' he')
      | some b =>
        obtain ⟨-, -, -, rest⟩ := leads
        have less := wider b rfl
        have most := (rest e' he' own).1
        exact ⟨fun more => most (Scalar.lt_trans (numbers e' he') less more),
          fun _ => (Scalar.Ordered.between (numbers e' he') less).resolve_left most⟩
    · exact List.forall_mem_singleton.mpr fun _ => ⟨irrefl, fun newer => absurd newer (Nat.lt_irrefl _)⟩

theorem leads_foldl {seen es : List (Nat × Extremum α)} {best : Option (α × Nat × Extremum α)}
    (leads : Leads rules kind finish seen best) (newestFirst : (seen ++ es).Pairwise fun a b => b.1 < a.1)
    (measured : ∀ e ∈ seen ++ es, Measured kind finish e.2) :
    Leads rules kind finish (seen ++ es) (es.foldl (weigh rules kind finish) best) := by
  induction es generalizing seen best with
  | nil => rwa [List.append_nil]
  | cons e rest ih =>
    rw [List.append_cons] at newestFirst measured ⊢
    refine ih (leads.concat (fun e' he' => ?_) (fun e' he' => ?_) ?_) newestFirst measured
    · exact (List.pairwise_append.mp (List.pairwise_append.mp newestFirst).1).2.2 e' he' e (List.mem_singleton.mpr rfl)
    · exact (measured e' (List.mem_append_left _ (List.mem_append_left _ he'))).spread
    · exact measured e (List.mem_append_left _ (List.mem_append_right _ (List.mem_singleton.mpr rfl)))

/-! ### The whole walk -/

/-- A walk ends with the best admissible start, and with none only if there is none. -/
theorem walk_spec {prior : List (Nat × Extremum α)} (newestFirst : prior.Pairwise fun a b => b.1 < a.1)
    (measured : ∀ e ∈ prior, Measured kind finish e.2) :
    match (prior.foldl (Walk.visit rules kind finish) {}).best with
    | none => ∀ i e, ¬ Admissible rules kind finish (fun i e => (i, e) ∈ prior) i e
    | some (_, i, start) => Best rules kind finish (fun i e => (i, e) ∈ prior) i start := by
  have shorter : (drawn kind finish none prior).Sublist prior := drawn_sublist none prior
  have admissible : ∀ i e, Admissible rules kind finish (fun i e => (i, e) ∈ prior) i e ↔
      (i, e) ∈ drawn kind finish none prior ∧ Counts rules kind finish e := by
    intro i e
    rw [mem_drawn newestFirst fun e he => (measured e he).slope]
    exact ⟨fun h => ⟨⟨h.before, fun e' he' => h.tight e'.1 e'.2 he'⟩, h.zone, h.opposed⟩,
      fun ⟨⟨before, tight⟩, zone, opposed⟩ => ⟨before, fun j e' he' => tight (j, e') he', zone, opposed⟩⟩
  have none_seen : Leads rules kind finish [] none := fun _ => nofun
  have leads := leads_foldl none_seen (newestFirst.sublist shorter) fun e he => measured e (shorter.subset he)
  rw [List.nil_append] at leads
  rw [best_foldl_visit]
  cases found : (drawn kind finish none prior).foldl (weigh rules kind finish) none with
  | none =>
    rw [found] at leads
    exact fun i e h => leads _ ((admissible i e).mp h).1 ((admissible i e).mp h).2
  | some b =>
    obtain ⟨width, i, start⟩ := b
    rw [found] at leads
    obtain ⟨place, counts, rfl, rest⟩ := leads
    have own := measured _ (shorter.subset place)
    refine ⟨(admissible i start).mpr ⟨place, counts⟩, fun j e h => ?_, fun j e h => ?_⟩
    · obtain ⟨there, counts⟩ := (admissible j e).mp h
      exact (Scalar.Ordered.not_lt own.spread (measured _ h.before).spread).mp (rest _ there counts).1
    · obtain ⟨there, counts⟩ := (admissible j e).mp h
      exact (rest _ there counts).2

theorem ends_of_pair {closed : List (Candle α)} {start : Extremum α}
    (h : pair? rules kind closed = some (start, finish)) : Ends rules.order kind closed finish := by
  obtain ⟨place, prior, listed, near, -⟩ := pair?_eq_some.mp h
  exact (ends_iff Scalar.lt_irrefl).mpr ⟨place, prior, listed, near⟩

/-- With its end where it has to be a pair has the best admissible start, and there is none
only if none is admissible. -/
theorem pair?_spec {closed : List (Candle α)} (ends : Ends rules.order kind closed finish)
    (measured : ∀ i e, Older rules.order kind closed i e → Measured kind finish e) :
    match pair? rules kind closed with
    | none => ∀ i e, ¬ Admissible rules kind finish (Older rules.order kind closed) i e
    | some (start, last) => last = finish ∧ ∃ i, Best rules kind finish (Older rules.order kind closed) i start := by
  obtain ⟨place, prior, listed, near⟩ := (ends_iff Scalar.lt_irrefl).mp ends
  have older : (fun i e => (i, e) ∈ prior) = Older rules.order kind closed :=
    funext fun i => funext fun e => propext (mem_prior_iff Scalar.lt_irrefl listed near)
  have newestFirst := extrema_newestFirst rules.order kind closed
  rw [listed] at newestFirst
  have walked : match (prior.foldl (Walk.visit rules kind finish) {}).best with
      | none => ∀ i e, ¬ Admissible rules kind finish (fun i e => (i, e) ∈ prior) i e
      | some (_, i, start) => Best rules kind finish (fun i e => (i, e) ∈ prior) i start :=
    walk_spec (List.pairwise_cons.mp newestFirst).2 fun e he =>
      measured e.1 e.2 ((mem_prior_iff Scalar.lt_irrefl listed near).mp he)
  rw [older] at walked
  simp only [pair?, listed, near, ne_eq, not_true_eq_false, if_false]
  cases found : (prior.foldl (Walk.visit rules kind finish) {}).best with
  | none =>
    rw [found] at walked
    exact walked
  | some b =>
    rw [found] at walked
    exact ⟨rfl, b.2.1, walked⟩

end Walk

end TickerBoard.Detection

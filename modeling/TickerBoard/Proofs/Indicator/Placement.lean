import TickerBoard.Proofs.Indicator.Columns

/-! Where the values of an indicator stand in its column.

An indicator has a reading after each closing price once its warm-up is over
(`Indicator`). Its values are the readings before the first that is not finite, and
its column has them at the end. As long as all readings are finite, each value
stands beside the closing price that it was read at. Behind a reading that is not,
nothing is left to fill the end of the column, so all values move there: each stands
as many slots too late as there are closing prices from that reading on
(`Indicator.getElem?_column`). `columns_placed` says this of the relative strength
index and of the exponential average. -/
namespace TickerBoard
variable {α : Type}

/-- A longer column has the same values further behind. -/
theorem alignTail_add {values : List α} {length : Nat} (h : values.length ≤ length) (more : Nat) :
    alignTail values (length + more) = List.replicate more none ++ alignTail values length := by
  induction more with
  | zero => rfl
  | succ more ih =>
    rw [← Nat.add_assoc, alignTail_succ (Nat.le_add_right_of_le h), ih, List.replicate_succ, List.cons_append]

/-- The values of slots up to the first that `p` refuses are those of the slots up to there. -/
theorem takeWhile_filterMap_slots (p : α → Bool) (slots : List (Option α)) :
    (slots.filterMap id).takeWhile p = (slots.takeWhile (·.all p)).filterMap id := by
  induction slots with
  | nil => rfl
  | cons s rest ih =>
    cases s with
    | none => simpa using ih
    | some v =>
      by_cases taken : p v = true
      · simpa [taken] using ih
      · simp [taken]

/-- Slots that are empty just up to the end of a warm-up have a value for every slot behind it. -/
theorem length_filterMap_filled {slots : List (Option α)} {warmUp : Nat}
    (filled : ∀ {i s}, slots[i]? = some s → (s.isSome = true ↔ warmUp ≤ i)) :
    (slots.filterMap id).length = slots.length - warmUp := by
  induction slots generalizing warmUp with
  | nil => simp
  | cons s rest ih =>
    have first : s.isSome = true ↔ warmUp ≤ 0 := filled (i := 0) rfl
    have others : (rest.filterMap id).length = rest.length - (warmUp - 1) :=
      ih fun {i t} there => (filled (i := i + 1) there).trans (by omega)
    cases s with
    | none =>
      have waiting : 0 < warmUp := Nat.pos_of_ne_zero fun none => by simp [none] at first
      rw [List.filterMap_cons_none rfl, others, List.length_cons]
      omega
    | some v =>
      have ended : warmUp = 0 := by simpa using first
      rw [List.filterMap_cons_some (f := id) (b := v) rfl, List.length_cons, others, List.length_cons, ended]
      rfl

/-- An indicator over closing prices: its values, its column, and the reading after each
closing price, of which the values are those before the first that is not finite. -/
structure Indicator (α : Type) [Scalar α] where
  values : List α → List α
  column : List α → List (Option α)
  slots : List α → List (Option α)
  /-- How many closing prices come before the one of the first reading. -/
  warmUp : Nat
  length_slots : ∀ closes, (slots closes).length = closes.length
  /-- A reading hangs on the closing prices up to its own. -/
  take_slots : ∀ closes n, (slots closes).take n = slots (closes.take n)
  filled : ∀ {closes i s}, (slots closes)[i]? = some s → (s.isSome = true ↔ warmUp ≤ i)
  values_eq : ∀ closes, values closes = ((slots closes).filterMap id).takeWhile Scalar.isFinite
  column_eq : ∀ closes, column closes = alignTail (values closes) closes.length

namespace Indicator
variable [Scalar α] (I : Indicator α) (closes : List α)

/-- All readings are finite. -/
def Finite : Prop := ∀ v, some v ∈ I.slots closes → Scalar.isFinite v = true

/-- The value that belongs beside the closing price at `i`: the warm-up is over, no reading
up to there is other than finite, and no value of the closing prices up to there is later. -/
structure Due (i : Nat) (v : α) : Prop where
  warm : I.warmUp ≤ i
  inside : i < closes.length
  finite : ∀ j ≤ i, ∀ w, (I.slots closes)[j]? = some (some w) → Scalar.isFinite w = true
  last : (I.values (closes.take (i + 1))).getLast? = some v

/-- How many closing prices come before the one whose reading is not finite. -/
def sound : Nat := (I.slots closes).findIdx fun s => !s.all Scalar.isFinite

/-- How many closing prices there are from that one on. -/
def lost : Nat := closes.length - I.sound closes

theorem sound_le : I.sound closes ≤ closes.length := by
  rw [← I.length_slots closes]
  exact List.findIdx_le_length

theorem sound_add_lost : I.sound closes + I.lost closes = closes.length :=
  Nat.add_sub_cancel' (I.sound_le closes)

theorem lt_sound_iff {i : Nat} : i < I.sound closes ↔
    i < closes.length ∧ ∀ j ≤ i, ∀ w, (I.slots closes)[j]? = some (some w) → Scalar.isFinite w = true := by
  have accepted (s : Option α) : (!s.all Scalar.isFinite) = false ↔ ∀ w, s = some w → Scalar.isFinite w = true := by
    cases s <;> simp
  rw [sound, List.lt_findIdx_iff, ← I.length_slots]
  constructor
  · rintro ⟨inside, finite⟩
    refine ⟨inside, fun j before w there => (accepted _).mp (finite j before) w ?_⟩
    exact (List.getElem?_eq_some_iff.mp there).2
  · rintro ⟨inside, finite⟩
    refine ⟨inside, fun j before => (accepted _).mpr fun w reading => finite j before w ?_⟩
    rw [List.getElem?_eq_getElem (Nat.lt_of_le_of_lt before inside), reading]

theorem finite_iff : I.Finite closes ↔ I.lost closes = 0 := by
  rw [lost, Nat.sub_eq_zero_iff_le]
  constructor
  · intro finite
    by_contra short
    have first := (I.lt_sound_iff closes (i := I.sound closes)).mpr
      ⟨Nat.lt_of_not_le short, fun j _ w there => finite w (List.mem_of_getElem? there)⟩
    exact Nat.lt_irrefl _ first
  · intro all v listed
    obtain ⟨i, there⟩ := List.mem_iff_getElem?.mp listed
    obtain ⟨inside, -⟩ := List.getElem?_eq_some_iff.mp there
    rw [I.length_slots] at inside
    exact ((I.lt_sound_iff closes).mp (Nat.lt_of_lt_of_le inside all)).2 i (Nat.le_refl i) v there

theorem values_eq_take : I.values closes = ((I.slots closes).take (I.sound closes)).filterMap id := by
  rw [I.values_eq, takeWhile_filterMap_slots, List.takeWhile_eq_take_findIdx_not]
  rfl

/-- There is a value for every sound closing price behind the warm-up. -/
theorem length_values : (I.values closes).length = I.sound closes - I.warmUp := by
  have kept : ((I.slots closes).take (I.sound closes)).length = I.sound closes := by
    rw [List.length_take, I.length_slots, Nat.min_eq_left (I.sound_le closes)]
  rw [values_eq_take, length_filterMap_filled, kept]
  intro i s there
  rw [List.getElem?_take] at there
  split at there
  · exact I.filled there
  · cases there

theorem settling_slots : Settling (I.slots closes) := by
  refine List.pairwise_iff_getElem.mpr fun i j hi hj before first => ?_
  have warm := (I.filled (List.getElem?_eq_getElem hi)).mp first
  exact (I.filled (List.getElem?_eq_getElem hj)).mpr (Nat.le_trans warm (Nat.le_of_lt before))

/-- A column has the slots before the first reading that is not finite, at its end. -/
theorem column_eq_shifted :
    I.column closes = List.replicate (I.lost closes) none ++ (I.slots closes).take (I.sound closes) := by
  have length : ((I.slots closes).take (I.sound closes)).length = I.sound closes := by
    rw [List.length_take, I.length_slots, Nat.min_eq_left (I.sound_le closes)]
  have few : (I.values closes).length ≤ I.sound closes := by
    rw [values_eq_take]
    exact (List.length_filterMap_le ..).trans_eq length
  have settling : Settling ((I.slots closes).take (I.sound closes)) :=
    (I.settling_slots closes).sublist (List.take_sublist ..)
  have placed := alignTail_filterMap settling
  rw [← I.values_eq_take, length] at placed
  rw [I.column_eq, ← I.sound_add_lost closes, alignTail_add few, placed]

/-- What is due beside a closing price is its reading, up to the first that is not finite. -/
theorem due_iff {i : Nat} {v : α} :
    I.Due closes i v ↔ ((I.slots closes).take (I.sound closes))[i]? = some (some v) := by
  have upTo : i < I.sound closes → I.values (closes.take (i + 1)) =
      ((I.slots closes).take i).filterMap id ++ ((I.slots closes)[i]?.toList).filterMap id := by
    intro early
    have all : I.sound (closes.take (i + 1)) = (closes.take (i + 1)).length := by
      refine Nat.le_antisymm (I.sound_le _) (Nat.le_of_not_lt fun short => Nat.lt_irrefl (I.sound (closes.take (i + 1))) ?_)
      refine (I.lt_sound_iff _).mpr ⟨short, fun j before w there => ?_⟩
      rw [← I.take_slots, List.getElem?_take] at there
      split at there
      · rename_i within
        exact ((I.lt_sound_iff closes).mp early).2 j (Nat.le_of_lt_succ within) w there
      · cases there
    rw [values_eq_take, all, ← I.length_slots, List.take_length, ← I.take_slots, List.take_add_one,
      List.filterMap_append]
  rw [List.getElem?_take]
  constructor
  · rintro ⟨warm, inside, finite, last⟩
    have early := (I.lt_sound_iff closes).mpr ⟨inside, finite⟩
    rw [if_pos early]
    rw [upTo early] at last
    have there : i < (I.slots closes).length := by rwa [I.length_slots]
    obtain ⟨w, reading⟩ := Option.isSome_iff_exists.mp ((I.filled (List.getElem?_eq_getElem there)).mpr warm)
    rw [List.getElem?_eq_getElem there, reading] at last ⊢
    simpa using last
  · intro shown
    split at shown
    · rename_i early
      obtain ⟨inside, finite⟩ := (I.lt_sound_iff closes).mp early
      refine ⟨(I.filled shown).mp rfl, inside, finite, ?_⟩
      rw [upTo early, shown]
      simp
    · cases shown

/-- Every value stands as many slots too late as closing prices are lost. -/
theorem getElem?_column {i : Nat} {v : α} : (I.column closes)[i]? = some (some v) ↔
    I.lost closes ≤ i ∧ I.Due closes (i - I.lost closes) v := by
  rw [column_eq_shifted, due_iff]
  by_cases early : i < I.lost closes
  · rw [List.getElem?_append_left (by simpa using early)]
    simp [early, Nat.not_le_of_lt early]
  · have behind := Nat.le_of_not_lt early
    rw [List.getElem?_append_right (by simpa using behind), List.length_replicate]
    exact (and_iff_right behind).symm

/-- How a column shows the values of its indicator. -/
structure Placed : Prop where
  length : (I.column closes).length = closes.length
  slot : ∀ i v, (I.column closes)[i]? = some (some v) ↔ I.lost closes ≤ i ∧ I.Due closes (i - I.lost closes) v
  in_place : (∀ i v, (I.column closes)[i]? = some (some v) ↔ I.Due closes i v) ↔ I.Finite closes ∨ I.values closes = []

/-- Without a value nothing is due anywhere. -/
theorem not_due_of_no_values (none : I.values closes = []) (i : Nat) (v : α) : ¬ I.Due closes i v := by
  intro due
  have early := (I.lt_sound_iff closes).mpr ⟨due.inside, due.finite⟩
  have warm := due.warm
  have length := I.length_values closes
  rw [none, List.length_nil] at length
  omega

/-- The first value is due at the end of the warm-up. -/
theorem exists_due (some_value : I.values closes ≠ []) : ∃ v, I.Due closes I.warmUp v := by
  have early : I.warmUp < I.sound closes := by
    have length := List.length_pos_iff.mpr some_value
    rw [length_values] at length
    omega
  have there : I.warmUp < (I.slots closes).length := by
    rw [I.length_slots]
    exact Nat.lt_of_lt_of_le early (I.sound_le closes)
  obtain ⟨v, reading⟩ := Option.isSome_iff_exists.mp ((I.filled (List.getElem?_eq_getElem there)).mpr (Nat.le_refl _))
  refine ⟨v, (I.due_iff closes).mpr ?_⟩
  rw [List.getElem?_take, if_pos early, List.getElem?_eq_getElem there, reading]

theorem placed : I.Placed closes := by
  refine ⟨by rw [I.column_eq, length_alignTail], fun i v => I.getElem?_column closes, fun agree => ?_, ?_⟩
  · by_cases none : I.values closes = []
    · exact .inr none
    · -- the first value stands at the end of the warm-up, and not behind it
      obtain ⟨v, due⟩ := I.exists_due closes none
      obtain ⟨late, shifted⟩ := (I.getElem?_column closes).mp ((agree _ v).mpr due)
      have warm := shifted.warm
      exact .inl ((I.finite_iff closes).mpr (by omega))
  · rintro (finite | none) i v
    · rw [getElem?_column, (I.finite_iff closes).mp finite]
      exact and_iff_right (Nat.zero_le i)
    · rw [getElem?_column]
      exact ⟨fun h => absurd h.2 (I.not_due_of_no_values closes none _ v),
        fun h => absurd h (I.not_due_of_no_values closes none i v)⟩

end Indicator

/-! ### The two indicators -/

/-- An average answers from the last input of its warm-up on. -/
theorem Smoothing.isSome_outputs_iff [Scalar α] {s : Smoothing α} (fresh : s.value = none) {xs : List α} {i : Nat}
    {v : Option α} (there : (s.outputs xs)[i]? = some v) : v.isSome = true ↔ s.period ≤ s.seen + i + 1 := by
  induction xs generalizing s i with
  | nil => cases there
  | cons x rest ih =>
    by_cases waiting : s.seen + 1 < s.period
    · have pushed : s.push x = ({ s with total := s.total + x, seen := s.seen + 1 }, none) := by
        simp [push, fresh, waiting]
      rw [outputs, pushed] at there
      cases i with
      | zero =>
        obtain rfl := Option.some.inj there
        simpa using waiting
      | succ i =>
        rw [List.getElem?_cons_succ] at there
        have later := ih (s := { s with total := s.total + x, seen := s.seen + 1 }) fresh there
        rw [later]
        dsimp only
        omega
    · have answered : (s.push x).2.isSome = true := by
        simp [push, fresh, waiting]
      have filled : v.isSome = true := by
        cases i with
        | zero =>
          obtain rfl := Option.some.inj there
          exact answered
        | succ i => exact isSome_outputs (by rwa [value_push]) rest v (List.mem_of_getElem? there)
      exact iff_of_true filled (by omega)

theorem Rsi.filled_slots [Scalar α] {period : Nat} (positive : 0 < period) {closes : List α} {i : Nat} {s : Option α}
    (there : (slots closes period)[i]? = some s) : s.isSome = true ↔ period ≤ i := by
  cases closes with
  | nil => cases there
  | cons first rest =>
    rw [slots, if_neg (Nat.ne_of_gt positive)] at there
    cases i with
    | zero =>
      obtain rfl := Option.some.inj there
      simpa using Nat.ne_of_gt positive
    | succ i =>
      rw [List.getElem?_cons_succ, readings, List.getElem?_zipWith_eq_some] at there
      obtain ⟨up, down, rises, falls, rfl⟩ := there
      rw [isSome_reading, Bool.and_eq_true, Smoothing.isSome_outputs_iff rfl rises,
        Smoothing.isSome_outputs_iff rfl falls]
      simp [Smoothing.start]

theorem Ema.filled_slots [Scalar α] {period : Nat} (positive : 0 < period) {closes : List α} {i : Nat} {s : Option α}
    (there : (slots closes period)[i]? = some s) : s.isSome = true ↔ period - 1 ≤ i := by
  rw [slots, if_neg (Nat.ne_of_gt positive)] at there
  rw [Smoothing.isSome_outputs_iff rfl there]
  simp only [Smoothing.start]
  omega

/-- The relative strength index. -/
def Rsi.indicator [Scalar α] (period : Nat) (positive : 0 < period) : Indicator α where
  values closes := values closes period
  column closes := column closes period
  slots closes := slots closes period
  warmUp := period
  length_slots closes := length_slots closes period
  take_slots closes n := take_slots closes period n
  filled := filled_slots positive
  values_eq closes := values_eq closes period
  column_eq _ := rfl

/-- The exponential moving average. -/
def Ema.indicator [Scalar α] (period : Nat) (positive : 0 < period) : Indicator α where
  values closes := values closes period
  column closes := column closes period
  slots closes := slots closes period
  warmUp := period - 1
  length_slots closes := length_slots closes period
  take_slots closes n := take_slots closes period n
  filled := filled_slots positive
  values_eq closes := values_eq closes period
  column_eq _ := rfl

/-- **Where the values stand.** A column has a slot for each closing price, and shows each
value at the slot where it is due, or, if a reading is not finite, as many slots behind it
as there are closing prices from that reading on. So all values stand where they are due if
and only if every reading is finite or there is no value at all. -/
theorem columns_placed [Scalar α] (closes : List α) {period : Nat} (positive : 0 < period) :
    (Rsi.indicator period positive).Placed closes ∧ (Ema.indicator period positive).Placed closes :=
  ⟨Indicator.placed _ closes, Indicator.placed _ closes⟩

/-- Prices whose rises and falls are too large to be summed. -/
def wildCloses : List Float := [1, 1.7e308, 1, 1.7e308, 1]

theorem columns_placed_wild : 0 < 2 ∧ (Rsi.indicator 2 (by decide)).Placed wildCloses ∧
    (Ema.indicator 2 (by decide)).Placed wildCloses :=
  ⟨by decide, columns_placed wildCloses (by decide)⟩

/-- The values 50 and 100 belong beside the third and the fourth price, and stand beside the last two. -/
theorem values_out_of_place : Rsi.column wildCloses 2 = [none, none, none, some 50, some 100] ∧
    (Rsi.indicator 2 (by decide)).Due wildCloses 2 50 ∧ (Rsi.indicator 2 (by decide)).Due wildCloses 3 100 ∧
    ¬ ∀ i v, (Rsi.column wildCloses 2)[i]? = some (some v) ↔ (Rsi.indicator 2 (by decide)).Due wildCloses i v := by
  have column : Rsi.column wildCloses 2 = [none, none, none, some 50, some 100] := by decide +kernel
  have third : (Rsi.indicator 2 (by decide)).Due wildCloses 2 50 :=
    (Indicator.due_iff _ wildCloses).mpr (by decide +kernel)
  have fourth : (Rsi.indicator 2 (by decide)).Due wildCloses 3 100 :=
    (Indicator.due_iff _ wildCloses).mpr (by decide +kernel)
  refine ⟨column, third, fourth, fun agree => ?_⟩
  have shown := (agree 2 50).mpr third
  rw [column] at shown
  cases shown

end TickerBoard

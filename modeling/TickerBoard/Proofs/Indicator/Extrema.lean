import Mathlib.Data.List.Basic
import TickerBoard.Indicator.Extrema
import TickerBoard.Proofs.Scalar

/-! Where the extrema of a list are.

A neighbour beyond an edge counts as the value at the edge. So near an edge a value
meets the same one at several distances, and at the edge it meets itself
(`mem_places`). A value that does not win against itself is therefore an extremum
exactly if it has others to both sides and wins against all that are at most the
order away (`mem_places_iff`). Where values win against themselves, the clipping shows
nowhere: an extremum wins against all that are at most the order away
(`mem_places_of_refl`).

Numbers lie on one line, so of two strict extrema an order apart each would lie beyond
the other, and the outermost number of all is beaten by none (`places_by_neighbours`). -/
namespace TickerBoard.Extrema
variable {α : Type} {order : Nat} {xs : List α}

section Neighbours
variable {wins : α → α → Bool}

theorem places_ascending (wins : α → α → Bool) (order : Nat) (xs : List α) :
    (places wins order xs).Pairwise (· < ·) := by
  rw [places]
  split
  · exact .nil
  · exact List.pairwise_lt_range.sublist List.filter_sublist

/-- The neighbours of a place at a distance; beyond an edge it is the edge. -/
def Beside (xs : List α) (i k : Nat) (y : α) : Prop :=
  xs[i - k]? = some y ∨ xs[min (i + k) (xs.length - 1)]? = some y

theorem winsAt_iff {i : Nat} {x : α} (own : xs[i]? = some x) (k : Nat) :
    winsAt wins xs.toArray i k = true ↔ ∀ y, Beside xs i k y → wins x y = true := by
  obtain ⟨inside, -⟩ := List.getElem?_eq_some_iff.mp own
  obtain ⟨left, hleft⟩ : ∃ y, xs[i - k]? = some y := ⟨_, List.getElem?_eq_getElem (by omega)⟩
  obtain ⟨right, hright⟩ : ∃ y, xs[min (i + k) (xs.length - 1)]? = some y :=
    ⟨_, List.getElem?_eq_getElem (by omega)⟩
  simp only [winsAt, Beside, List.getElem?_toArray, List.size_toArray, own, hleft, hright, Option.some.injEq,
    Bool.and_eq_true]
  constructor
  · rintro h _ (rfl | rfl)
    · exact h.1
    · exact h.2
  · exact fun h => ⟨h _ (.inl rfl), h _ (.inr rfl)⟩

/-- A place is listed if its value wins against its neighbours at every distance up to
the order. -/
theorem mem_places {i : Nat} : i ∈ places wins order xs ↔
    0 < order ∧ ∃ x, xs[i]? = some x ∧ ∀ k, 0 < k → k ≤ order → ∀ y, Beside xs i k y → wins x y = true := by
  rw [places]
  split
  · rename_i none
    simp [none]
  · rename_i positive
    rw [List.mem_filter, List.mem_range, isExtremum, List.all_eq_true]
    constructor
    · rintro ⟨inside, extremum⟩
      have own := List.getElem?_eq_getElem inside
      refine ⟨Nat.pos_of_ne_zero positive, _, own, fun k hk most y beside => ?_⟩
      -- further away than the list is long both neighbours are the edges
      have cut : Beside xs i (min k xs.length) y := by
        have left : i - min k xs.length = i - k := by omega
        have right : min (i + min k xs.length) (xs.length - 1) = min (i + k) (xs.length - 1) := by omega
        rwa [Beside, left, right]
      have won := extremum (min k xs.length - 1) (List.mem_range.mpr (by rw [List.size_toArray]; omega))
      rw [Nat.sub_add_cancel (by omega)] at won
      exact (winsAt_iff own _).mp won y cut
    · rintro ⟨-, x, own, won⟩
      refine ⟨(List.getElem?_eq_some_iff.mp own).1, fun k hk => (winsAt_iff own _).mpr (won _ (Nat.succ_pos k) ?_)⟩
      have := List.mem_range.mp hk
      omega

/-- A value that stands between others and wins against all of them at most an order away. -/
structure Stands (wins : α → α → Bool) (order : Nat) (xs : List α) (i : Nat) (x : α) : Prop where
  positive : 0 < order
  value : xs[i]? = some x
  inner : 0 < i ∧ i + 1 < xs.length
  beats : ∀ j y, xs[j]? = some y → j ≠ i → i ≤ j + order → j ≤ i + order → wins x y = true

/-- Where nothing wins against itself the places are those of the values that stand out. -/
theorem mem_places_iff (irrefl : ∀ a, wins a a = false) {i : Nat} :
    i ∈ places wins order xs ↔ ∃ x, Stands wins order xs i x := by
  rw [mem_places]
  constructor
  · rintro ⟨positive, x, own, won⟩
    obtain ⟨inside, -⟩ := List.getElem?_eq_some_iff.mp own
    have other : ¬ Beside xs i 1 x := fun beside => by
      have := won 1 Nat.one_pos positive x beside
      rw [irrefl] at this
      cases this
    refine ⟨x, positive, own, ⟨Nat.pos_of_ne_zero fun first => ?_, Nat.lt_of_not_le fun last => ?_⟩, ?_⟩
    · subst first
      exact other (.inl own)
    · exact other (.inr (by rwa [show min (i + 1) (xs.length - 1) = i by omega]))
    · intro j y place apart left right
      have inside' := (List.getElem?_eq_some_iff.mp place).1
      rcases Nat.lt_or_gt_of_ne apart with before | behind
      · exact won (i - j) (by omega) (by omega) y (.inl (by rwa [show i - (i - j) = j by omega]))
      · exact won (j - i) (by omega) (by omega) y (.inr (by rwa [show min (i + (j - i)) (xs.length - 1) = j by omega]))
  · rintro ⟨x, stands⟩
    refine ⟨stands.positive, x, stands.value, fun k hk most y beside => ?_⟩
    have inner := stands.inner
    rcases beside with left | right
    · exact stands.beats _ y left (by omega) (by omega) (by omega)
    · exact stands.beats _ y right (by omega) (by omega) (by omega)

/-- Where everything wins against itself the places are those of the values that win against all
of them at most an order away. -/
theorem mem_places_of_refl (refl : ∀ a ∈ xs, wins a a = true) {i : Nat} : i ∈ places wins order xs ↔
    0 < order ∧ ∃ x, xs[i]? = some x ∧
      ∀ j y, xs[j]? = some y → i ≤ j + order → j ≤ i + order → wins x y = true := by
  rw [mem_places]
  refine and_congr_right fun positive => exists_congr fun x => and_congr_right fun own => ⟨?_, ?_⟩
  · intro won j y place left right
    have inside := (List.getElem?_eq_some_iff.mp place).1
    rcases Nat.lt_trichotomy j i with before | rfl | behind
    · exact won (i - j) (by omega) (by omega) y (.inl (by rwa [show i - (i - j) = j by omega]))
    · obtain rfl := Option.some.inj (own.symm.trans place)
      exact refl x (List.mem_of_getElem? own)
    · exact won (j - i) (by omega) (by omega) y (.inr (by rwa [show min (i + (j - i)) (xs.length - 1) = j by omega]))
  · intro won k _ most y beside
    have inside := (List.getElem?_eq_some_iff.mp own).1
    rcases beside with left | right
    · exact won _ y left (by omega) (by omega)
    · exact won _ y right (by omega) (by omega)

end Neighbours

/-! ### Numbers -/

section Numbers
open Scalar (isNaN)
variable [Scalar α] {side : Side} {a b c : α}

/-- The value `a` lies beyond the value `b` on a side. -/
def Beyond (side : Side) (a b : α) : Prop :=
  match side with
  | .maximum => b < a
  | .minimum => a < b

theorem wins_strict : wins side .strict a b = true ↔ Beyond side a b := by
  cases side <;> exact decide_eq_true_iff

variable [Scalar.Ordered α]

theorem beyond_irrefl (a : α) : ¬ Beyond side a a := by
  cases side <;> exact Scalar.lt_irrefl a

theorem wins_strict_self (a : α) : wins side .strict a a = false := by
  rw [Bool.eq_false_iff, ne_eq, wins_strict]
  exact beyond_irrefl a

theorem beyond_asymm (h : Beyond side a b) : ¬ Beyond side b a := by
  cases side <;> exact Scalar.Ordered.asymm h

theorem beyond_trans (ha : isNaN a = false) (hc : isNaN c = false) (h : Beyond side a b) (h' : Beyond side b c) :
    Beyond side a c := by
  cases side with
  | maximum => exact Scalar.lt_trans ha h' h
  | minimum => exact Scalar.lt_trans hc h h'

/-- With ties, a number wins against those that do not lie beyond it. -/
theorem wins_inclusive (ha : isNaN a = false) (hb : isNaN b = false) :
    wins side .inclusive a b = true ↔ ¬ Beyond side b a := by
  cases side with
  | maximum => exact decide_eq_true_iff.trans (Scalar.Ordered.not_lt ha hb).symm
  | minimum => exact decide_eq_true_iff.trans (Scalar.Ordered.not_lt hb ha).symm

/-- Some number has no other beyond it. -/
theorem exists_outermost (side : Side) (some : xs ≠ []) (numbers : ∀ x ∈ xs, isNaN x = false) :
    ∃ x ∈ xs, ∀ y ∈ xs, ¬ Beyond side y x := by
  induction xs with
  | nil => exact absurd rfl some
  | cons a rest ih =>
    by_cases alone : rest = []
    · subst alone
      exact ⟨a, List.mem_cons_self .., List.forall_mem_singleton.mpr (beyond_irrefl a)⟩
    · obtain ⟨first, others⟩ := List.forall_mem_cons.mp numbers
      obtain ⟨x, hx, outermost⟩ := ih alone others
      by_cases further : Beyond side a x
      · refine ⟨a, List.mem_cons_self .., List.forall_mem_cons.mpr ⟨beyond_irrefl a, fun y hy beyond => ?_⟩⟩
        exact outermost y hy (beyond_trans (others y hy) (others x hx) beyond further)
      · exact ⟨x, List.mem_cons_of_mem _ hx, List.forall_mem_cons.mpr ⟨further, outermost⟩⟩

/-- Of two strict extrema no more than the order apart each would lie beyond the other. -/
theorem places_apart (side : Side) (order : Nat) (xs : List α) :
    (places (wins side .strict) order xs).Pairwise fun i j => i + order < j := by
  refine (places_ascending _ order xs).imp_of_mem fun {i j} hi hj before => Nat.lt_of_not_le fun near => ?_
  obtain ⟨x, left⟩ := (mem_places_iff wins_strict_self).mp hi
  obtain ⟨y, right⟩ := (mem_places_iff wins_strict_self).mp hj
  have first : Beyond side x y := wins_strict.mp (left.beats j y right.value (by omega) (by omega) near)
  have second : Beyond side y x := wins_strict.mp (right.beats i x left.value (by omega) near (by omega))
  exact beyond_asymm first second

/-- **The extrema of numbers, by their neighbours.** Whatever the order, the strict extrema are
the places between others whose number lies beyond all others at most the order away, and any
two of them are more than the order apart. The inclusive extrema are the places, edges
included, whose number has none beyond it at most the order away, and there is one if there is a
number. Both ascend. -/
theorem places_by_neighbours (side : Side) (positive : 0 < order) (numbers : ∀ x ∈ xs, isNaN x = false) :
    (∀ i, i ∈ places (wins side .strict) order xs ↔ (0 < i ∧ i + 1 < xs.length) ∧ ∃ x, xs[i]? = some x ∧
        ∀ j y, xs[j]? = some y → j ≠ i → i ≤ j + order → j ≤ i + order → Beyond side x y) ∧
      (places (wins side .strict) order xs).Pairwise (fun i j => i + order < j) ∧
      (∀ i, i ∈ places (wins side .inclusive) order xs ↔ ∃ x, xs[i]? = some x ∧
        ∀ j y, xs[j]? = some y → i ≤ j + order → j ≤ i + order → ¬ Beyond side y x) ∧
      (xs ≠ [] → places (wins side .inclusive) order xs ≠ []) ∧
      ∀ ties, (places (wins side ties) order xs).Pairwise (· < ·) := by
  have number {i : Nat} {x : α} (own : xs[i]? = some x) : isNaN x = false := numbers x (List.mem_of_getElem? own)
  have inclusive (i : Nat) : i ∈ places (wins side .inclusive) order xs ↔ ∃ x, xs[i]? = some x ∧
      ∀ j y, xs[j]? = some y → i ≤ j + order → j ≤ i + order → ¬ Beyond side y x := by
    have refl : ∀ a ∈ xs, wins side .inclusive a a = true := fun a ha =>
      (wins_inclusive (numbers a ha) (numbers a ha)).mpr (beyond_irrefl a)
    rw [mem_places_of_refl refl, and_iff_right positive]
    refine exists_congr fun x => and_congr_right fun own => ?_
    refine forall₃_congr fun j y place => forall₂_congr fun _ _ => ?_
    exact wins_inclusive (number own) (number place)
  refine ⟨fun i => ?_, places_apart side order xs, inclusive, fun nonempty none => ?_, fun ties => places_ascending _ order xs⟩
  · rw [mem_places_iff wins_strict_self]
    constructor
    · rintro ⟨x, stands⟩
      exact ⟨stands.inner, x, stands.value, fun j y place apart left right =>
        wins_strict.mp (stands.beats j y place apart left right)⟩
    · rintro ⟨inner, x, own, beats⟩
      exact ⟨x, positive, own, inner, fun j y place apart left right =>
        wins_strict.mpr (beats j y place apart left right)⟩
  · obtain ⟨x, hx, outermost⟩ := exists_outermost side nonempty numbers
    obtain ⟨i, own⟩ := List.getElem?_of_mem hx
    have listed := (inclusive i).mpr ⟨x, own, fun j y place _ _ => outermost y (List.mem_of_getElem? place)⟩
    rw [none] at listed
    cases listed

/-- Two lows with a plateau between them, and edges that are no highs. -/
def plateau : List Float := [3.0, 1.0, 4.0, 4.0, 2.0, 3.0]

theorem places_by_neighbours_plateau :
    0 < 2 ∧ (∀ x ∈ plateau, isNaN x = false) ∧ places (wins .minimum .strict) 2 plateau = [1, 4] ∧
      (places (wins .minimum .strict) 2 plateau).Pairwise (fun i j => i + 2 < j) ∧
      places (wins .maximum .inclusive) 2 plateau = [2, 3] ∧
      ∃ x, plateau[3]? = some x ∧
        ∀ j y, plateau[j]? = some y → 3 ≤ j + 2 → j ≤ 3 + 2 → ¬ Beyond .maximum y x := by
  have two : 0 < 2 := by decide
  have numbers : ∀ x ∈ plateau, isNaN x = false := by decide +kernel
  have highs : places (wins .maximum .inclusive) 2 plateau = [2, 3] := by decide +kernel
  obtain ⟨-, apart, -⟩ := places_by_neighbours .minimum two numbers
  obtain ⟨-, -, inclusive, -⟩ := places_by_neighbours .maximum two numbers
  exact ⟨two, numbers, by decide +kernel, apart, highs, (inclusive 3).mp (by simp [highs])⟩

end Numbers

end TickerBoard.Extrema

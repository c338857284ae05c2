import Mathlib.Data.List.Sort
import TickerBoard.Market.Options
import TickerBoard.Proofs.Table

/-! The one expiry of an options chain.

Which expiry is answered depends on the contracts of each day alone, not on how
the days are kept: a day that is listed without contracts counts as one that is
not listed. `Answer` says what a window of days comes to, and `answer_single`
that the selection keeps to it; the contracts of the chosen day come out as
`StablySorted` lists. The window that is asked for by default runs from two
days on to the next Friday (`IsDefaultWindow`), as long as the calendar has that
Friday (`defaultWindow?_eq_none`). -/
namespace TickerBoard

/-! ### Stable order -/

/-- The entries of `xs` by rising key, with those of one key in their order in `xs`. -/
structure StablySorted {α : Type} (key : α → Nat) (xs ys : List α) : Prop where
  perm : ys.Perm xs
  rising : ys.Pairwise fun a b => key a ≤ key b
  stable : ∀ k, ys.filter (key · = k) = xs.filter (key · = k)

theorem stablySorted_mergeSort {α : Type} (key : α → Nat) (xs : List α) :
    StablySorted key xs (xs.mergeSort fun a b => key a ≤ key b) := by
  have trans (a b c : α) (ab : decide (key a ≤ key b) = true) (bc : decide (key b ≤ key c) = true) :
      decide (key a ≤ key c) = true :=
    decide_eq_true (Nat.le_trans (of_decide_eq_true ab) (of_decide_eq_true bc))
  have total (a b : α) : (decide (key a ≤ key b) || decide (key b ≤ key a)) = true := by
    simpa using Nat.le_total (key a) (key b)
  refine ⟨List.mergeSort_perm xs _, (List.pairwise_mergeSort trans total xs).imp of_decide_eq_true, fun k => ?_⟩
  -- entries of one key are in order wherever they stand, so the sort takes them over as they are
  have ordered : (xs.filter (key · = k)).Pairwise fun a b => decide (key a ≤ key b) = true := by
    refine List.pairwise_of_forall_mem_list fun a ha b hb => decide_eq_true ?_
    rw [of_decide_eq_true (List.mem_filter.mp ha).2, of_decide_eq_true (List.mem_filter.mp hb).2]
  have kept := (List.sublist_mergeSort trans total ordered List.filter_sublist).filter (key · = k)
  rw [List.filter_filter, List.filter_congr fun a _ => Bool.and_self _] at kept
  exact (kept.eq_of_length ((List.mergeSort_perm xs _).filter _).symm.length_eq).symm

/-! ### The window asked for by default -/

theorem Day.plus?_eq_some {d e : Day} {n : Int} : d.plus? n = some e ↔ e.number = d.number + n ∧ e.inCalendar = true := by
  simp only [plus?, Option.ite_none_right_eq_some, Option.some.injEq]
  constructor
  · rintro ⟨inside, rfl⟩
    exact ⟨rfl, inside⟩
  · intro ⟨number, inside⟩
    rw [← number]
    exact ⟨inside, rfl⟩

theorem Day.plus?_eq_none {d : Day} {n : Int} :
    d.plus? n = none ↔ d.number + n < first.number ∨ last.number < d.number + n := by
  simp only [plus?, inCalendar, Bool.and_eq_true, decide_eq_true_eq, ite_eq_right_iff, reduceCtorEq, imp_false]
  omega

namespace OptionsQuery

/-- From two days after `today` to the first Friday from then on. -/
structure IsDefaultWindow (today first last : Day) : Prop where
  twoDaysOn : first.number = today.number + 2
  friday : last.weekday = 4
  notBefore : first.number ≤ last.number
  next : ∀ day : Day, first.number ≤ day.number → day.weekday = 4 → last.number ≤ day.number

theorem isDefaultWindow_of_eq_some {today first last : Day} (h : defaultWindow? today = some (first, last)) :
    IsDefaultWindow today first last := by
  simp only [defaultWindow?, Option.bind_eq_bind, Option.pure_def, Option.bind_eq_some_iff, Option.some.injEq,
    Prod.mk.injEq] at h
  obtain ⟨_, on, _, upTo, rfl, rfl⟩ := h
  have untilFriday := (Day.plus?_eq_some.mp upTo).1
  rw [Day.weekday] at untilFriday
  refine ⟨(Day.plus?_eq_some.mp on).1, ?_, by omega, fun day from_ friday => ?_⟩
  · rw [Day.weekday]
    omega
  · rw [Day.weekday] at friday
    omega

/-- The last day of the calendar is a Monday, so its last Friday comes three days before. -/
theorem defaultWindow?_eq_none {today : Day} (inside : today.inCalendar = true) :
    defaultWindow? today = none ↔ Day.last.number < today.number + 5 := by
  have start : Day.first.number ≤ today.number := by
    simp only [Day.inCalendar, Bool.and_eq_true, decide_eq_true_eq] at inside
    exact inside.1
  have monday : Day.last.weekday = 0 := rfl
  rw [Day.weekday] at monday
  simp only [defaultWindow?, Option.bind_eq_bind, Option.pure_def, Option.bind_eq_none_iff, reduceCtorEq, imp_false]
  cases on : today.plus? 2 with
  | none =>
    rcases Day.plus?_eq_none.mp on with before | beyond
    · omega
    · simp only [reduceCtorEq, false_implies, implies_true, true_iff]
      omega
  | some first =>
    have number := (Day.plus?_eq_some.mp on).1
    simp only [Option.some.injEq, forall_eq', ← Option.eq_none_iff_forall_ne_some, fridayFrom?, Day.plus?_eq_none,
      Day.weekday]
    omega

end OptionsQuery

/-! ### The contracts of a day -/

/-- The day lies in the window from `first` to `last`. -/
def Day.Between (day first last : Day) : Prop := first.number ≤ day.number ∧ day.number ≤ last.number

instance (day first last : Day) : Decidable (day.Between first last) := inferInstanceAs (Decidable (_ ∧ _))

instance : Std.TransOrd Day := inferInstanceAs (Std.TransCmp (compareOn Day.number))

namespace ExpiryChains

/-- Both sides list their days in order. -/
structure Ordered (c : ExpiryChains) : Prop where
  calls : c.calls.Ascending
  puts : c.puts.Ascending

def callsOf (c : ExpiryChains) (day : Day) : List OptionContract := c.calls.findD day []

def putsOf (c : ExpiryChains) (day : Day) : List OptionContract := c.puts.findD day []

/-- The day has a contract on both sides. -/
def Matched (c : ExpiryChains) (day : Day) : Prop := c.callsOf day ≠ [] ∧ c.putsOf day ≠ []

theorem isMatched_iff {c : ExpiryChains} {day : Day} : c.isMatched day = true ↔ c.Matched day := by
  simp [isMatched, Matched, callsOf, putsOf]

section Answer
variable (c : ExpiryChains) (symbol : String) (first last : Day)

/-- The contracts of the first day of a window that is matched, by their strikes. -/
structure IsChain (chain : OptionsChain) : Prop where
  symbol : chain.symbol = symbol
  between : chain.expiration.Between first last
  matched : c.Matched chain.expiration
  earliest : ∀ day, day.Between first last → c.Matched day → chain.expiration.number ≤ day.number
  calls : StablySorted (fun o => orderKey o.strike) (c.callsOf chain.expiration) chain.calls
  puts : StablySorted (fun o => orderKey o.strike) (c.putsOf chain.expiration) chain.puts

/-- What a window without a matched day is said to lack. -/
inductive Lack : String → Prop
  | calls (noCall : ∀ day, day.Between first last → c.callsOf day = []) : Lack "calls"
  | puts (call : ∃ day, day.Between first last ∧ c.callsOf day ≠ [])
      (noPut : ∀ day, day.Between first last → c.putsOf day = []) : Lack "puts"
  | match_ (call : ∃ day, day.Between first last ∧ c.callsOf day ≠ [])
      (put : ∃ day, day.Between first last ∧ c.putsOf day ≠ []) : Lack "matching expiry"

/-- What a window of days comes to: a chain if one of them is matched, and else a refusal. -/
def Answer : Except Refusal OptionsChain → Prop
  | .ok chain => c.IsChain symbol first last chain
  | .error r => (∀ day, day.Between first last → ¬c.Matched day) ∧
      ∃ side, c.Lack first last side ∧ r = .emptyChain symbol side

end Answer

variable {c : ExpiryChains}

theorem all_isEmpty_iff {t : Table Day (List OptionContract)} (h : t.Ascending) :
    t.values.all List.isEmpty = true ↔ ∀ day, t.findD day [] = [] := by
  simp only [Table.values, List.all_map, List.all_eq_true, Function.comp_apply, List.isEmpty_iff, Prod.forall]
  constructor
  · intro empty day
    cases listed : t.find? day with
    | none => rw [Table.findD, listed, Option.getD_none]
    | some contracts =>
      rw [Table.findD, listed, Option.getD_some]
      exact empty day contracts ((Table.find?_eq_some h).mp listed)
  · intro empty day contracts listed
    have found := empty day
    rwa [Table.findD, (Table.find?_eq_some h).mpr listed, Option.getD_some] at found

theorem mem_keys_of_findD {t : Table Day (List OptionContract)} {day : Day} (some_ : t.findD day [] ≠ []) :
    day ∈ t.keys := by
  rw [Table.mem_keys_iff]
  cases listed : t.find? day with
  | none => exact absurd (by rw [Table.findD, listed, Option.getD_none]) some_
  | some _ => rfl

/-- In an ascending table, the first day that passes a test is the least. -/
theorem number_le_of_find? {t : Table Day (List OptionContract)} (h : t.Ascending) {p : Day → Bool} {day : Day}
    (found : t.keys.find? p = some day) {e : Day} (listed : e ∈ t.keys) (passes : p e = true) :
    day.number ≤ e.number := by
  obtain ⟨-, before, after, split, failed⟩ := List.find?_eq_some_iff_append.mp found
  have ordered : t.keys.Pairwise fun a b => compare a b = .lt := List.pairwise_map.mpr h
  rw [split] at ordered listed
  rcases List.mem_append.mp listed with earlier | here
  · exact absurd passes (by simpa using failed e earlier)
  · rcases List.mem_cons.mp here with rfl | later
    · exact Int.le_refl _
    · have := (List.pairwise_cons.mp (List.pairwise_append.mp ordered).2.1).1 e later
      exact Int.le_of_lt (Int.compare_eq_lt.mp this)

theorem Ordered.within (h : c.Ordered) (first last : Day) : (c.within first last).Ordered :=
  ⟨Table.ascending_filter h.calls _, Table.ascending_filter h.puts _⟩

/-! ### The days of a window -/

section Window
variable {symbol : String} {first last : Day}

/-- A day of the window has its contracts, any other has none. -/
theorem findD_window {t : Table Day (List OptionContract)} (h : t.Ascending) (day : Day) :
    (t.filter fun d _ => first.number ≤ d.number && d.number ≤ last.number).findD day [] =
      if day.Between first last then t.findD day [] else [] := by
  rw [Table.findD, Table.find?_filter h]
  cases listed : t.find? day with
  | none => simp [Table.findD, listed]
  | some contracts =>
    by_cases inside : day.Between first last
    · simp [Table.findD, listed, inside.1, inside.2, inside, Option.filter]
    · rw [if_neg inside, Option.filter_some, if_neg (by simpa [Day.Between] using inside), Option.getD_none]

theorem callsOf_within (h : c.Ordered) (day : Day) :
    (c.within first last).callsOf day = if day.Between first last then c.callsOf day else [] :=
  findD_window h.calls day

theorem putsOf_within (h : c.Ordered) (day : Day) :
    (c.within first last).putsOf day = if day.Between first last then c.putsOf day else [] :=
  findD_window h.puts day

theorem noCalls_within (h : c.Ordered) :
    (c.within first last).calls.values.all List.isEmpty = true ↔
      ∀ day, day.Between first last → c.callsOf day = [] := by
  rw [all_isEmpty_iff (h.within first last).calls]
  refine forall_congr' fun day => ?_
  rw [← callsOf, callsOf_within h, ite_eq_right_iff]

theorem noPuts_within (h : c.Ordered) :
    (c.within first last).puts.values.all List.isEmpty = true ↔
      ∀ day, day.Between first last → c.putsOf day = [] := by
  rw [all_isEmpty_iff (h.within first last).puts]
  refine forall_congr' fun day => ?_
  rw [← putsOf, putsOf_within h, ite_eq_right_iff]

theorem isMatched_within (h : c.Ordered) (day : Day) :
    (c.within first last).isMatched day = true ↔ day.Between first last ∧ c.Matched day := by
  rw [isMatched_iff, Matched, callsOf_within h, putsOf_within h]
  by_cases inside : day.Between first last <;> simp [inside, Matched]

/-- The selection answers for the days of the window. -/
theorem answer_single (h : c.Ordered) : c.Answer symbol first last ((c.within first last).single symbol) := by
  rw [single]
  split
  · rename_i noCall
    rw [noCalls_within h] at noCall
    exact ⟨fun day inside matched => matched.1 (noCall day inside), _, .calls noCall, rfl⟩
  · rename_i call
    simp only [noCalls_within h, not_forall] at call
    split
    · rename_i noPut
      rw [noPuts_within h] at noPut
      refine ⟨fun day inside matched => matched.2 (noPut day inside), _, .puts ?_ noPut, rfl⟩
      simpa using call
    · rename_i put
      simp only [noPuts_within h, not_forall] at put
      split
      · rename_i none_
        refine ⟨fun day inside matched => ?_, _, .match_ (by simpa using call) (by simpa using put), rfl⟩
        have both := (isMatched_within h day).mpr ⟨inside, matched⟩
        refine List.find?_eq_none.mp none_ day (mem_keys_of_findD ?_) both
        exact (isMatched_iff.mp both).1
      · rename_i day found
        have both := (isMatched_within h day).mp (List.find?_some found)
        refine ⟨rfl, both.1, both.2, fun e inside matched => ?_, ?_, ?_⟩
        · have listed := (isMatched_within h e).mpr ⟨inside, matched⟩
          exact number_le_of_find? (h.within first last).calls found
            (mem_keys_of_findD (isMatched_iff.mp listed).1) listed
        · have all : (c.within first last).callsOf day = c.callsOf day := by rw [callsOf_within h, if_pos both.1]
          rw [← all]
          exact stablySorted_mergeSort _ _
        · have all : (c.within first last).putsOf day = c.putsOf day := by rw [putsOf_within h, if_pos both.1]
          rw [← all]
          exact stablySorted_mergeSort _ _

end Window

end ExpiryChains
end TickerBoard

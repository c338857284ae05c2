import Mathlib.Data.Finset.Card
import Mathlib.Data.List.Pairwise
import TickerBoard.Proofs.Calendar.TradingDay
import TickerBoard.Proofs.Chart.Shown

/-! Which candles are left when a series is cut to its last trading days.

Days are counted among those that occur, so a day without candles costs nothing: a
candle stays if fewer than so many later days occur (`latest`). The cut looks at the
candles from the newest on and keeps the days that it has met. In the order of time
these are just the days later than that of the candle at hand, and that day itself if
it has been met (`later_eq`), so what is taken is what `latest` keeps
(`takeDays_eq`). The days of the candles that were looked at have to be in the
calendar. -/
namespace TickerBoard
namespace Candle
variable {α : Type} {clock : SessionClock}

def day (clock : SessionClock) (c : Candle α) : Day := clock.dayOf c.start

/-- The calendar has the candle's day. -/
def dated (clock : SessionClock) (c : Candle α) : Bool := (clock.day? c.start).isSome

/-- The days among some that are later than a day. -/
def later (days : Finset Day) (d : Day) : Finset Day := days.filter (d.number < ·.number)

/-- The candles of the `n` latest days that occur: fewer than `n` days that occur are later. -/
def latest (clock : SessionClock) (n : Nat) (candles : List (Candle α)) : List (Candle α) :=
  candles.filter fun c => (later (candles.map (day clock)).toFinset (c.day clock)).card < n

theorem later_subset {days : Finset Day} {d e : Day} (h : d.number ≤ e.number) : later days e ⊆ later days d :=
  Finset.monotone_filter_right _ fun _ _ after => Int.lt_of_le_of_lt h after

theorem later_mono {days days' : Finset Day} (h : days ⊆ days') (d : Day) : later days d ⊆ later days' d :=
  Finset.filter_subset_filter _ h

/-! ### From the newest on -/

/-- Of the days met and to come, those later than the day at hand are the others that were met. -/
theorem later_eq {seen toCome : List Day} {d : Day} (met : ∀ e ∈ seen, d.number ≤ e.number)
    (others : ∀ e ∈ toCome, e.number ≤ d.number) : later (seen ++ toCome).toFinset d = seen.toFinset.erase d := by
  ext e
  simp only [later, Finset.mem_filter, List.mem_toFinset, List.mem_append, Finset.mem_erase]
  constructor
  · rintro ⟨old | new, after⟩
    · exact ⟨fun same => absurd after (by rw [same]; exact Int.lt_irrefl _), old⟩
    · exact absurd after (Int.not_lt.mpr (others e new))
  · rintro ⟨other, old⟩
    have different : d.number ≠ e.number := fun same => other (congrArg Day.mk same.symm)
    exact ⟨.inl old, by have := met e old; omega⟩

theorem card_later {seen toCome : List Day} {d : Day} (distinct : seen.Nodup) (met : ∀ e ∈ seen, d.number ≤ e.number)
    (others : ∀ e ∈ toCome, e.number ≤ d.number) :
    (later (seen ++ toCome).toFinset d).card = if d ∈ seen then seen.length - 1 else seen.length := by
  rw [later_eq met others]
  split
  · rename_i known
    rw [Finset.card_erase_of_mem (List.mem_toFinset.mpr known), List.toFinset_card_of_nodup distinct]
  · rename_i new
    rw [Finset.erase_eq_of_notMem (by rwa [List.mem_toFinset]), List.toFinset_card_of_nodup distinct]

/-- From the newest candle on, those are taken whose day has fewer than `limit` later ones, if
the calendar has the days of these and of the next one. -/
theorem takeDays_eq {limit : Nat} {seen : List Day} {candles : List (Candle α)} (distinct : seen.Nodup)
    (few : seen.length ≤ limit) (met : ∀ e ∈ seen, ∀ c ∈ candles, (c.day clock).number ≤ e.number)
    (newestFirst : candles.Pairwise fun a b => (b.day clock).number ≤ (a.day clock).number) :
    let kept := candles.filter fun c => (later (seen ++ candles.map (day clock)).toFinset (c.day clock)).card < limit
    takeDays clock limit seen candles =
      if (candles.take (kept.length + 1)).all (dated clock) then some kept else none := by
  intro kept
  induction candles generalizing seen with
  | nil => rfl
  | cons c rest ih =>
    obtain ⟨older, newestFirst⟩ := List.pairwise_cons.mp newestFirst
    have others : ∀ e ∈ (c :: rest).map (day clock), e.number ≤ (c.day clock).number :=
      List.forall_mem_map.mpr (List.forall_mem_cons.mpr ⟨Int.le_refl _, older⟩)
    have own : ∀ e ∈ seen, (c.day clock).number ≤ e.number := fun e he => met e he c (List.mem_cons_self ..)
    have count := card_later distinct own others
    cases inside : clock.day? c.start with
    | none => simp [takeDays, inside, dated]
    | some d =>
      obtain rfl : c.day clock = d := SessionClock.dayOf_eq inside
      -- a candle that is taken stands before those that are taken with its day among the met
      have taken {seen' : List Day} (same : (seen' ++ rest.map (day clock)).toFinset =
            (seen ++ (c :: rest).map (day clock)).toFinset) (distinct' : seen'.Nodup) (few' : seen'.length ≤ limit)
          (met' : ∀ e ∈ seen', ∀ a ∈ rest, (a.day clock).number ≤ e.number)
          (fewer : (later (seen ++ (c :: rest).map (day clock)).toFinset (c.day clock)).card < limit) :
          (takeDays clock limit seen' rest).map (c :: ·) =
            if ((c :: rest).take (kept.length + 1)).all (dated clock) then some kept else none := by
        have all : kept = c :: rest.filter fun a =>
            (later (seen' ++ rest.map (day clock)).toFinset (a.day clock)).card < limit := by
          rw [same]
          exact List.filter_cons_of_pos (decide_eq_true fewer)
        rw [ih distinct' few' met' newestFirst, all, List.length_cons, List.take_succ_cons, List.all_cons]
        simp only [dated, inside, Option.isSome_some, Bool.true_and]
        split <;> rfl
      rw [takeDays, inside]
      dsimp only
      by_cases known : c.day clock ∈ seen
      · rw [if_pos (by simpa using known)]
        rw [if_pos known] at count
        refine taken ?_ distinct few (fun e he a ha => met e he a (List.mem_cons_of_mem _ ha)) ?_
        · rw [List.map_cons, List.toFinset_eq_of_perm _ _ List.perm_middle, List.toFinset_cons,
            Finset.insert_eq_of_mem (List.mem_toFinset.mpr (List.mem_append_left _ known))]
        · have := List.length_pos_of_mem known
          omega
      · rw [if_neg (by simpa using known)]
        rw [if_neg known] at count
        split
        · rename_i enough
          have full : kept = [] := by
            refine List.filter_eq_nil_iff.mpr fun a ha fewer => ?_
            have more : (later (seen ++ (c :: rest).map (day clock)).toFinset (c.day clock)).card ≤ _ :=
              Finset.card_le_card (later_subset (others _ (List.mem_map_of_mem ha)))
            have fewer := of_decide_eq_true fewer
            omega
          simp [full, dated, inside]
        · rename_i room
          refine taken ?_ (List.nodup_cons.mpr ⟨known, distinct⟩) (Nat.succ_le_of_lt (Nat.lt_of_not_le room)) ?_ ?_
          · rw [List.map_cons]
            exact (List.toFinset_eq_of_perm _ _ List.perm_middle).symm
          · exact List.forall_mem_cons.mpr ⟨older, fun e he a ha => met e he a (List.mem_cons_of_mem _ ha)⟩
          · omega

/-! ### In the order of time -/

variable {candles : List (Candle α)}

theorem days_ascend (clock : SessionClock) (ordered : candles.Pairwise fun a b => a.start.ms ≤ b.start.ms) :
    candles.Pairwise fun a b => (a.day clock).number ≤ (b.day clock).number :=
  ordered.imp fun h => clock.dayOf_mono h

theorem trimDays_eq (clock : SessionClock) (days : Nat) (ordered : candles.Pairwise fun a b => a.start.ms ≤ b.start.ms) :
    trimDays? clock days candles =
      if (candles.reverse.take ((latest clock (max days 1) candles).length + 1)).all (dated clock)
      then some (latest clock (max days 1) candles) else none := by
  have taken := @takeDays_eq α clock (max days 1) [] candles.reverse List.nodup_nil (Nat.zero_le _) nofun
    (List.pairwise_reverse.mpr (days_ascend clock ordered))
  have kept : candles.reverse.filter (fun c =>
      (later ([] ++ candles.reverse.map (day clock)).toFinset (c.day clock)).card < max days 1) =
        (latest clock (max days 1) candles).reverse := by
    rw [latest, List.filter_reverse, List.nil_append, List.map_reverse, List.toFinset_reverse]
  rw [trimDays?, taken, kept, List.length_reverse]
  split
  · rw [Option.map_some, List.reverse_reverse]
  · rfl

/-- What holds of all behind one of which it holds leaves the end of the list. -/
theorem append_filter {β : Type} {p : β → Bool} {bs : List β} (h : bs.Pairwise fun a b => p a = true → p b = true) :
    ∃ gone, bs = gone ++ bs.filter p ∧ ∀ a ∈ gone, ¬ p a = true := by
  induction bs with
  | nil => exact ⟨[], rfl, nofun⟩
  | cons b rest ih =>
    obtain ⟨first, others⟩ := List.pairwise_cons.mp h
    by_cases own : p b = true
    · exact ⟨[], (List.filter_eq_self.mpr (List.forall_mem_cons.mpr ⟨own, fun a ha => first a ha own⟩)).symm, nofun⟩
    · obtain ⟨gone, split, out⟩ := ih others
      refine ⟨b :: gone, ?_, List.forall_mem_cons.mpr ⟨own, out⟩⟩
      rw [List.filter_cons_of_neg own, List.cons_append, ← split]

/-- The candles that stay are those of all days from one on. -/
theorem exists_cut (clock : SessionClock) (n : Nat) (ordered : candles.Pairwise fun a b => a.start.ms ≤ b.start.ms) :
    ∃ gone, candles = gone ++ latest clock n candles ∧
      ∀ a ∈ gone, ∀ b ∈ latest clock n candles, (a.day clock).number < (b.day clock).number := by
  have stays {a b : Candle α} (older : (a.day clock).number ≤ (b.day clock).number)
      (own : (later (candles.map (day clock)).toFinset (a.day clock)).card < n) :
      (later (candles.map (day clock)).toFinset (b.day clock)).card < n :=
    (Finset.card_le_card (later_subset older)).trans_lt own
  obtain ⟨gone, split, out⟩ := append_filter <| (days_ascend clock ordered).imp fun older own =>
    decide_eq_true (stays older (of_decide_eq_true own))
  refine ⟨gone, split, fun a ha b hb => Int.not_le.mp fun same => out a ha ?_⟩
  exact decide_eq_true (stays same (of_decide_eq_true (List.mem_filter.mp hb).2))

/-- What is left of the latest days is the latest days of itself. -/
theorem latest_latest (clock : SessionClock) {n m : Nat} (more : n ≤ m) (candles : List (Candle α)) :
    latest clock m (latest clock n candles) = latest clock n candles := by
  refine List.filter_eq_self.mpr fun c hc => decide_eq_true ?_
  have days : ((latest clock n candles).map (day clock)).toFinset ⊆ (candles.map (day clock)).toFinset := fun d hd =>
    List.mem_toFinset.mpr (List.map_subset _ (List.filter_subset_self candles) (List.mem_toFinset.mp hd))
  have own := of_decide_eq_true (List.mem_filter.mp hc).2
  have fewer := Finset.card_le_card (later_mono days (c.day clock))
  exact (fewer.trans_lt own).trans_le more

/-- **A series is cut between days.** Of candles in the order of time, those of the latest days
that occur are left, as many days as asked for and at least one, if the calendar has the days of
these candles and of the one before them; otherwise nothing can be said. All candles that go are of
earlier days than those that stay. What is left is left again when it is cut to as many days or more. -/
theorem trimDays_keeps_latest (clock : SessionClock) (days : Nat)
    (ordered : candles.Pairwise fun a b => a.start.ms ≤ b.start.ms) :
    let kept := latest clock (max days 1) candles
    trimDays? clock days candles =
        (if (candles.reverse.take (kept.length + 1)).all (dated clock) then some kept else none) ∧
      (∃ gone, candles = gone ++ kept ∧ ∀ a ∈ gone, ∀ b ∈ kept, (a.day clock).number < (b.day clock).number) ∧
      ∀ days' ≥ days, ∀ series, trimDays? clock days candles = some series →
        trimDays? clock days' series = some series := by
  intro kept
  have cut := trimDays_eq clock days ordered
  refine ⟨cut, exists_cut clock _ ordered, fun days' more series trimmed => ?_⟩
  have dates := (trimDays_spec trimmed).2.2
  rw [cut] at trimmed
  split at trimmed
  · obtain rfl := Option.some.inj trimmed
    have order : (latest clock (max days 1) candles).Pairwise fun a b => a.start.ms ≤ b.start.ms :=
      ordered.sublist List.filter_sublist
    rw [trimDays_eq clock days' order, latest_latest clock (max_le_max_right 1 more), if_pos]
    exact List.all_eq_true.mpr fun c hc => dates c (List.mem_reverse.mp (List.mem_of_mem_take hc))
  · cases trimmed

/-! ### A gap of days, and the end of the calendar -/

def hourly (hour : Int) : Candle Float := ⟨⟨hour * 3600000⟩, 1, 1, 1, 1, 1, none, none⟩

/-- On a clock five hours behind, the last hours of a night belong to the day before, and two days
without candles are no days. -/
theorem trimDays_keeps_latest_night :
    let clock := SessionClock.ofMinutes (-300)
    let candles := [0, 4, 5, 28, 77, 78, 100, 101].map hourly
    candles.Pairwise (fun a b => a.start.ms ≤ b.start.ms) ∧
      trimDays? clock 3 candles = some ([5, 28, 77, 78, 100, 101].map hourly) ∧
      trimDays? clock 4 ([5, 28, 77, 78, 100, 101].map hourly) = some ([5, 28, 77, 78, 100, 101].map hourly) := by
  intro clock candles
  have ordered : candles.Pairwise fun a b => a.start.ms ≤ b.start.ms := by decide
  have trimmed : trimDays? clock 3 candles = some ([5, 28, 77, 78, 100, 101].map hourly) := by decide +kernel
  obtain ⟨-, -, again⟩ := trimDays_keeps_latest clock 3 ordered
  exact ⟨ordered, trimmed, again 4 (by decide) _ trimmed⟩

/-- The last minute of the calendar. -/
def lastMinute : Candle Float := ⟨⟨Instant.last.ms - 59999⟩, 1, 1, 1, 1, 1, none, none⟩

/-- On a clock one minute ahead, the last minute of the calendar has no day, and a series that ends
with it is not cut at all, although its only candle is of its latest day. -/
theorem trimDays_lost_at_end :
    let clock := SessionClock.ofMinutes 1
    [lastMinute].Pairwise (fun a b => a.start.ms ≤ b.start.ms) ∧ lastMinute.start.inCalendar = true ∧
      latest clock 1 [lastMinute] = [lastMinute] ∧ trimDays? clock 1 [lastMinute] = none := by
  decide +kernel

end Candle
end TickerBoard

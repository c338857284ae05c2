import TickerBoard.Proofs.Chart.Trimming
import TickerBoard.Proofs.Monitor.History

/-! The bars that price levels are found in.

A history in turn parts at any instant into bars before it and bars that are not
(`exists_partsAt`), and what is behind the place is the bars since the instant
(`PartsAt.since_eq`). Where that instant is the midnight a window of days starts with,
they are the bars of these days (`lastDays_eq`). So the levels of a monitor come of whole
days and of no others, whatever is offered to it and whichever jobs are done
(`windows_cut_at_days`). -/
namespace TickerBoard
namespace Monitor
variable {α : Type} {history : List (Bar α)}

/-! ### Where a history parts -/

/-- A place of a history with all bars before an instant in front of it and no others. -/
structure PartsAt (t : Instant) (older recent : List (Bar α)) : Prop where
  before : ∀ b ∈ older, b.time.ms < t.ms
  after : ∀ b ∈ recent, t.ms ≤ b.time.ms

/-- However that place is searched for, what is behind it are the bars since the instant. -/
theorem PartsAt.since_eq {t : Instant} {older recent : List (Bar α)} (parts : PartsAt t older recent) :
    since t (older ++ recent) = recent := by
  rw [since, List.dropWhile_append_of_pos fun b hb => decide_eq_true (parts.before b hb)]
  cases recent with
  | nil => rfl
  | cons b rest =>
    have first := parts.after b (List.mem_cons_self ..)
    exact List.dropWhile_cons_of_neg fun early => absurd (of_decide_eq_true early) (Int.not_lt.mpr first)

/-- A history in turn has such a place for every instant. -/
theorem exists_partsAt (turn : InTurn history) (t : Instant) :
    ∃ older, history = older ++ history.filter (fun b => t.ms ≤ b.time.ms) ∧
      PartsAt t older (history.filter fun b => t.ms ≤ b.time.ms) := by
  have ordered : history.Pairwise fun a b => decide (t.ms ≤ a.time.ms) = true → decide (t.ms ≤ b.time.ms) = true :=
    turn.ascending.imp fun newer late => decide_eq_true (Int.le_trans (of_decide_eq_true late) (Int.le_of_lt newer))
  obtain ⟨older, split, out⟩ := Candle.append_filter ordered
  refine ⟨older, split, fun b hb => ?_, fun b hb => of_decide_eq_true (List.mem_filter.mp hb).2⟩
  exact Int.not_le.mp fun late => out b hb (decide_eq_true late)

/-! ### The last days of a history -/

/-- The bars whose local day is at most `n` days before that of an instant. -/
def lastDays (clock : SessionClock) (now : Instant) (n : Nat) (history : List (Bar α)) : List (Bar α) :=
  history.filter fun b => (clock.dayOf now).number - (clock.dayOf b.time).number ≤ n

/-- They are the bars from the midnight on that starts these days. -/
theorem lastDays_eq (clock : SessionClock) (now : Instant) (n : Nat) (history : List (Bar α)) :
    lastDays clock now n history =
      history.filter fun b => (clock.midnight (clock.dayBefore now n)).ms ≤ b.time.ms := by
  refine List.filter_congr fun b _ => decide_eq_decide.mpr ?_
  rw [SessionClock.midnight_le_iff]
  simp only [SessionClock.dayBefore]
  omega

theorem exists_lastDays (turn : InTurn history) (clock : SessionClock) (now : Instant) (n : Nat) :
    ∃ older, history = older ++ lastDays clock now n history ∧
      PartsAt (clock.midnight (clock.dayBefore now n)) older (lastDays clock now n history) := by
  rw [lastDays_eq]
  exact exists_partsAt turn (clock.midnight (clock.dayBefore now n))

section Levels
variable [Angular α] {rules : AnalysisRules α}

/-- The price levels of some bars by the rules. -/
def levelsOf (rules : AnalysisRules α) (bars : List (Bar α)) : List (PriceLevel α) :=
  Levels.ofSeries rules.levels (Candle.resample bars rules.levelMinutes)

theorem levels?_eq {now start : Instant} (found : rules.clock.daysAgo? now rules.historyDays = some start) :
    levels? rules now history = some (levelsOf rules (since start history)) := by
  rw [levels?, found, Option.bind_eq_bind, Option.bind_some]
  rfl

/-! ### Whatever is offered -/

/-- A monitor by some rules, with its bars in turn. -/
structure Ruled (rules : AnalysisRules α) (m : Monitor α) : Prop where
  rules : m.rules = rules
  turn : InTurn m.history

theorem ruled_run {symbol : String} {bars : List (Bar α)} {stored : Table String (List (Divergence α))}
    {m : Monitor α} {us : List (PatternUpdate α)} (seeded : seed rules symbol bars stored = .ok (m, us))
    (moves : List (Move α)) : let w := Workbench.run ⟨m, []⟩ moves
    ∀ held ∈ w.monitor :: w.jobs, Ruled rules held := by
  obtain ⟨current, own⟩ := upToDate_seed seeded
  have start : Ruled rules m := ⟨current.governed, own ▸ inTurn_usable bars⟩
  refine Workbench.forall_run (fun m b next ruled accepted => ?_) (fun m d ruled => ⟨ruled.rules, ruled.turn⟩)
    (List.forall_mem_singleton.mpr start) moves
  exact ⟨(rules_accept accepted).trans ruled.rules, (inTurn_accept ruled.turn accepted).2⟩

/-- **Session windows are cut at whole days.** Take a clock whose offset is less than a day. Where
going a number of days back from an instant stays inside the calendar, the window of these days has
a start, and any instant is on or after it if and only if its local day is at most so many days before that
of the first. Now seed a monitor by rules with that clock from any bars and stored lists, offer it
any bars and do its jobs in any order. The history that it has by then, and that of every
outstanding job, parts at the start of the window of the latest bar, and the levels are computed
from what is behind: just the bars whose local day is at most `historyDays` before that of the latest. -/
theorem windows_cut_at_days {clock : SessionClock} (valid : clock.Valid) :
    (∀ (now : Instant) (n : Nat), clock.Reaches now n →
      ∃ start, clock.daysAgo? now n = some start ∧
        ∀ x : Instant, start.ms ≤ x.ms ↔ (clock.dayOf now).number - n ≤ (clock.dayOf x).number) ∧
    ∀ (rules : AnalysisRules α) (symbol : String) (bars : List (Bar α))
        (stored : Table String (List (Divergence α))) (m : Monitor α) (us : List (PatternUpdate α)),
      rules.clock = clock → seed rules symbol bars stored = .ok (m, us) →
      ∀ moves : List (Move α), let w := Workbench.run ⟨m, []⟩ moves
        ∀ held ∈ w.monitor :: w.jobs, clock.Reaches held.lastUpdated rules.historyDays →
          let recent := lastDays clock held.lastUpdated rules.historyDays held.history
          ∃ start older, clock.daysAgo? held.lastUpdated rules.historyDays = some start ∧
            held.history = older ++ recent ∧ PartsAt start older recent ∧ since start held.history = recent ∧
            levels? held.rules held.lastUpdated held.history = some (levelsOf rules recent) := by
  refine ⟨fun now n reaches => ?_, ?_⟩
  · exact ⟨_, SessionClock.daysAgo?_eq valid reaches, clock.midnight_le_iff (clock.dayBefore now n)⟩
  · rintro rules symbol bars stored m us rfl seeded moves w held among reaches recent
    obtain ⟨governed, turn⟩ := ruled_run seeded moves held among
    have found := SessionClock.daysAgo?_eq valid reaches
    obtain ⟨older, split, parts⟩ := exists_lastDays turn rules.clock held.lastUpdated rules.historyDays
    have slice : since _ held.history = recent := (congrArg _ split).trans parts.since_eq
    refine ⟨_, older, found, split, parts, slice, ?_⟩
    rw [governed, levels?_eq found, slice]

end Levels

/-! ### Nights around the epoch -/

/-- Levels of the day at hand and the two before it, by a clock five hours behind. -/
def nightRules : AnalysisRules Float :=
  { sessionRules with chartRules := { sessionRules.chartRules with clock := .ofMinutes (-300) }, historyDays := 2 }

def barsAt (times : List Int) : List (Bar Float) := times.map fun ms => ⟨"XYZ", ⟨ms⟩, 1, 1, 1, 1, 10⟩

/-- The last millisecond of a local day, the midnight after it, the last millisecond before the epoch, and noon. -/
def nightBars : List (Bar Float) := barsAt [-68400001, -68400000, -1, 61200000]

/-- A day on, the bars of its last millisecond and of the next midnight are offered. -/
def nightMoves : List (Move Float) := (barsAt [104399999, 104400000]).map .accept

theorem dated_nightBars : ∀ b ∈ nightBars, Dated nightRules b := by
  intro b hb
  simp only [nightBars, barsAt, List.map_cons, List.map_nil, List.mem_cons, List.not_mem_nil, or_false] at hb
  rcases hb with rfl | rfl | rfl | rfl <;> exact ⟨by decide +kernel, by decide +kernel⟩

/-- Of all the bars only that of the last millisecond before the window is left out. -/
theorem windows_cut_at_days_night :
    let clock := SessionClock.ofMinutes (-300)
    clock.Valid ∧ clock.Reaches ⟨-1⟩ 1 ∧ (∀ x : Instant, -154800000 ≤ x.ms ↔ -2 ≤ (clock.dayOf x).number) ∧
      ∃ m us, nightRules.clock = clock ∧ seed nightRules "XYZ" nightBars .empty = .ok (m, us) ∧
        let now := (Workbench.run ⟨m, []⟩ nightMoves).monitor
        clock.Reaches now.lastUpdated nightRules.historyDays ∧
          levels? now.rules now.lastUpdated now.history =
            some (levelsOf nightRules (barsAt [-68400000, -1, 61200000, 104399999, 104400000])) := by
  intro clock
  have valid : clock.Valid := SessionClock.valid_ofMinutes (-300)
  obtain ⟨windows, slices⟩ := windows_cut_at_days (α := Float) valid
  have reaches : clock.Reaches ⟨-1⟩ 1 := ⟨by decide, by decide⟩
  obtain ⟨start, found, whole⟩ := windows ⟨-1⟩ 1 reaches
  obtain rfl : start = ⟨-154800000⟩ := Option.some.inj (found.symm.trans (by decide))
  have turn : InTurn nightBars := ⟨by decide, by decide⟩
  have usable : Monitor.usable nightBars = nightBars := usable_of_inTurn turn
  have derivable : (derivation? nightRules (Monitor.usable nightBars)).isSome = true := by
    rw [usable]
    exact derivation_of_dated (List.cons_ne_nil _ _) dated_nightBars
  obtain ⟨m, us, seeded⟩ := exists_seed derivable "XYZ" .empty
  have own : m.history = nightBars := (upToDate_seed seeded).2.trans usable
  refine ⟨valid, reaches, whole, m, us, rfl, seeded, ?_⟩
  intro now
  have grown : now.history = barsAt [-68400001, -68400000, -1, 61200000, 104399999, 104400000] := by
    refine (Workbench.history_run (w := ⟨m, []⟩) (own ▸ turn) nightMoves).1.trans ?_
    show m.history ++ taken m.history _ = _
    rw [own]
    decide +kernel
  have latest : now.latest = ⟨"XYZ", ⟨104400000⟩, 1, 1, 1, 1, 10⟩ := by
    have last := getLast?_history now
    rw [grown] at last
    exact (Option.some.inj last).symm
  have updated : now.lastUpdated = ⟨104400000⟩ := congrArg Bar.time latest
  have reached : clock.Reaches now.lastUpdated nightRules.historyDays := by
    rw [updated]
    exact ⟨by decide, by decide⟩
  obtain ⟨_, _, -, -, -, -, levels⟩ :=
    slices nightRules "XYZ" nightBars .empty m us rfl seeded nightMoves now (List.mem_cons_self ..) reached
  refine ⟨reached, levels.trans (congrArg (fun bars => some (levelsOf nightRules bars)) ?_)⟩
  rw [updated, grown]
  decide +kernel

end Monitor
end TickerBoard

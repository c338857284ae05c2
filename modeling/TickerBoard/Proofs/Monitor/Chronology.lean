import TickerBoard.Proofs.Scalar
import TickerBoard.Proofs.Chart.Chronology
import TickerBoard.Proofs.Monitor.History

/-! The divergences of a monitor in the order of their ends.

`Chronicled` says of a monitor that every chart has its findings in order over
the monitor's history. Deriving keeps that (`Chronicled.derive`), and what was
derived before further bars were taken is in order with them too. So it holds
whichever bars are offered and whenever their jobs are done
(`Workbench.Chronicled.run`), from a seed without stored lists on, as long as no interval
of a chart is lost. -/
namespace TickerBoard
namespace Monitor
variable {α : Type} [Angular α] {rules : AnalysisRules α} {m taken : Monitor α} {b : Bar α} {d : Derived α}

/-- A monitor with the charts of some rules, whose findings are in order over its history. -/
structure Chronicled (rules : AnalysisRules α) (m : Monitor α) : Prop where
  turn : InTurn m.history
  dated : ∀ b ∈ m.history, b.time.inCalendar = true
  settings : m.charts.map (·.settings) = rules.charts
  charts : ∀ c ∈ m.charts, Chart.Chronicled m.history c.settings.minutes c.findings
  unlost : ∀ c ∈ rules.charts, Candle.NeverLost c.minutes m.history

theorem Chronicled.accept (chronicled : Chronicled rules m) (dated : b.time.inCalendar = true)
    (accepted : m.accept b = some taken) (unlost : ∀ c ∈ rules.charts, Candle.NeverLost c.minutes taken.history) :
    Chronicled rules taken := by
  obtain ⟨grown, turn⟩ := inTurn_accept chronicled.turn accepted
  have same : taken.charts = m.charts := by rw [(accept_eq_some.mp accepted).2]
  rw [grown] at turn
  refine ⟨grown ▸ turn, ?_, same ▸ chronicled.settings, fun c hc => ?_, unlost⟩
  · rw [grown]
    exact List.forall_mem_append.mpr ⟨chronicled.dated, List.forall_mem_singleton.mpr dated⟩
  · have own : c.settings ∈ rules.charts := by
      rw [← chronicled.settings]
      exact List.mem_map_of_mem (same ▸ hc)
    have kept := unlost c.settings own
    rw [grown] at kept ⊢
    exact (chronicled.charts c (same ▸ hc)).concat turn kept

/-- The charts that are derived from a monitor are in order over its history. -/
theorem Chronicled.derive (irrefl : ∀ x : α, ¬ x < x) (chronicled : Chronicled rules m)
    (derived : m.derive? = some d) : d.charts.map (·.settings) = rules.charts ∧
      ∀ c ∈ d.charts, Chart.Chronicled m.history c.settings.minutes c.findings := by
  obtain ⟨updated, -⟩ := derive_eq_some derived
  refine ⟨(settings_updateCharts updated).trans chronicled.settings, fun c' hc' => ?_⟩
  obtain ⟨c, hc, new, update⟩ := (exists_of_forall₂ (updateCharts_spec updated).1).2 c' hc'
  exact (chronicled.charts c hc).update irrefl update chronicled.turn chronicled.dated

/-- They may be put into the monitor as it is by then, with further bars. -/
theorem Chronicled.apply {job : Monitor α} (irrefl : ∀ x : α, ¬ x < x) (chronicled : Chronicled rules m)
    (own : Chronicled rules job) (earlier : job.history <+: m.history) (derived : job.derive? = some d) :
    Chronicled rules (m.apply d).1 := by
  obtain ⟨settings, charts⟩ := own.derive irrefl derived
  refine ⟨chronicled.turn, chronicled.dated, settings, fun c hc => ?_, chronicled.unlost⟩
  have kept : Candle.NeverLost c.settings.minutes m.history := by
    refine chronicled.unlost c.settings ?_
    rw [← settings]
    exact List.mem_map_of_mem hc
  obtain ⟨more, grown⟩ := earlier
  rw [apply_history, ← grown]
  exact (charts c hc).append (grown ▸ chronicled.turn) (grown ▸ kept)

omit [Angular α] in
/-- Without stored lists every chart starts without findings. -/
theorem findings_startCharts (settings : List ChartSettings) {c : Chart α}
    (hc : c ∈ startCharts settings .empty) : c.findings = [] := by
  induction settings with
  | nil => cases hc
  | cons s rest ih =>
    rcases List.mem_cons.mp hc with rfl | later
    · show ([].mergeSort _).reverse = []
      rw [List.mergeSort_nil, List.reverse_nil]
    · exact ih later

theorem chronicled_seed (irrefl : ∀ x : α, ¬ x < x) {symbol : String} {bars : List (Bar α)}
    {us : List (PatternUpdate α)} (dated : ∀ b ∈ bars, b.time.inCalendar = true)
    (seeded : seed rules symbol bars .empty = .ok (m, us))
    (unlost : ∀ c ∈ rules.charts, Candle.NeverLost c.minutes m.history) : Chronicled rules m := by
  obtain ⟨earlier, latest, d, split, derived, applied⟩ := seed_eq_ok.mp seeded
  obtain rfl := congrArg Prod.fst applied
  have turn : InTurn (earlier ++ [latest]) := split ▸ inTurn_usable bars
  have own : ∀ b ∈ earlier ++ [latest], b ∈ bars := fun b hb => mem_of_mem_usable (split ▸ hb)
  have start : Chronicled rules
      (⟨symbol, rules, earlier, latest, startCharts rules.charts .empty, [], none⟩ : Monitor α) := by
    refine ⟨turn, fun b hb => dated b (own b hb), settings_startCharts .., fun c hc => ?_, unlost⟩
    rw [findings_startCharts rules.charts hc]
    exact .nil ..
  exact start.apply irrefl start List.prefix_rfl derived

/-! ### Whenever the jobs are done -/

namespace Workbench
variable {w : Workbench α}

/-- The monitor and those of its outstanding jobs, each with a part of its history. -/
structure Chronicled (rules : AnalysisRules α) (w : Workbench α) : Prop where
  monitor : w.monitor.Chronicled rules
  jobs : ∀ job ∈ w.jobs, job.Chronicled rules ∧ job.history <+: w.monitor.history

theorem Chronicled.move (irrefl : ∀ x : α, ¬ x < x) (chronicled : Chronicled rules w) {k : Move α}
    (dated : ∀ b ∈ k.offered, b.time.inCalendar = true)
    (unlost : ∀ c ∈ rules.charts, Candle.NeverLost c.minutes (w.move k).monitor.history) :
    Chronicled rules (w.move k) := by
  have taking : ∀ {b next}, b.time.inCalendar = true → w.monitor.accept b = some next →
      (∀ c ∈ rules.charts, Candle.NeverLost c.minutes next.history) →
      next.Chronicled rules ∧ ∀ job ∈ w.jobs, job.Chronicled rules ∧ job.history <+: next.history := by
    intro b next dated accepted unlost
    refine ⟨chronicled.monitor.accept dated accepted unlost, fun job hjob => ?_⟩
    obtain ⟨own, earlier⟩ := chronicled.jobs job hjob
    rw [(inTurn_accept chronicled.monitor.turn accepted).1]
    exact ⟨own, earlier.trans (List.prefix_append ..)⟩
  have others (place : Nat) : ∀ job ∈ w.jobs.eraseIdx place, job.Chronicled rules ∧ job.history <+: w.monitor.history :=
    fun job hjob => chronicled.jobs job ((List.eraseIdx_sublist ..).subset hjob)
  have step := w.moved k
  generalize w.move k = after at step unlost ⊢
  cases step with
  | unchanged refused => exact chronicled
  | queued accepted =>
    obtain ⟨monitor, jobs⟩ := taking (dated _ rfl) accepted unlost
    exact ⟨monitor, List.forall_mem_append.mpr ⟨jobs, List.forall_mem_singleton.mpr ⟨monitor, List.prefix_rfl⟩⟩⟩
  | derived accepted derived =>
    obtain ⟨monitor, jobs⟩ := taking (dated _ rfl) accepted unlost
    exact ⟨monitor.apply irrefl monitor List.prefix_rfl derived, jobs⟩
  | undated accepted =>
    obtain ⟨monitor, jobs⟩ := taking (dated _ rfl) accepted unlost
    exact ⟨monitor, jobs⟩
  | finished found derived =>
    obtain ⟨own, earlier⟩ := chronicled.jobs _ (List.mem_of_getElem? found)
    exact ⟨chronicled.monitor.apply irrefl own earlier derived, others _⟩
  | dropped => exact ⟨chronicled.monitor, others _⟩

theorem Chronicled.run (irrefl : ∀ x : α, ¬ x < x) (chronicled : Chronicled rules w) {moves : List (Move α)}
    (dated : ∀ b ∈ moves.filterMap Move.offered, b.time.inCalendar = true)
    (unlost : ∀ c ∈ rules.charts, Candle.NeverLost c.minutes (w.run moves).monitor.history) :
    Chronicled rules (w.run moves) := by
  induction moves generalizing w with
  | nil => exact chronicled
  | cons k rest ih =>
    have own : ∀ b ∈ k.offered, b.time.inCalendar = true := fun b hb =>
      dated b (List.mem_filterMap.mpr ⟨k, List.mem_cons_self .., hb⟩)
    -- what the rest takes comes behind what is taken by then
    have head : ∀ c ∈ rules.charts, Candle.NeverLost c.minutes (w.move k).monitor.history := by
      intro c hc
      have whole := unlost c hc
      rw [run, List.foldl_cons, ← run, (history_run (history_move chronicled.monitor.turn k).2 rest).1] at whole
      exact whole.head
    refine ih (chronicled.move irrefl own head) (fun b hb => dated b ?_) unlost
    obtain ⟨k', hk', offers⟩ := List.mem_filterMap.mp hb
    exact List.mem_filterMap.mpr ⟨k', List.mem_cons_of_mem _ hk', offers⟩

end Workbench

/-- **The divergences of a chart are in the order of their ends.** Seed a monitor from any bars
without stored lists, offer it any bars and do its jobs in any order; all their times are ones
the calendar has, and no interval of a chart is ever lost. At every moment it has a chart for
each setting, and in the list of each the ends strictly ascend, and every divergence runs from
a candle of the history to a later one, both starting at a whole multiple of the chart's
interval. -/
theorem divergences_ascend [Protractor] {rules : AnalysisRules Float} {symbol : String} {bars : List (Bar Float)}
    {m : Monitor Float} {us : List (PatternUpdate Float)} (seeded : seed rules symbol bars .empty = .ok (m, us))
    (moves : List (Move Float)) (dated : ∀ b ∈ bars ++ moves.filterMap Move.offered, b.time.inCalendar = true)
    (unlost : ∀ c ∈ rules.charts, Candle.NeverLost c.minutes (Workbench.run ⟨m, []⟩ moves).monitor.history) :
    let now := (Workbench.run ⟨m, []⟩ moves).monitor
    now.charts.map (·.settings) = rules.charts ∧
      ∀ c ∈ now.charts, (c.divergences.Pairwise fun a b => a.finish.ms < b.finish.ms) ∧
        ∀ d ∈ c.divergences, Chart.Spans now.history c.settings.minutes d := by
  obtain ⟨before, after⟩ := List.forall_mem_append.mp dated
  have turn : InTurn m.history := by
    obtain ⟨earlier, latest, d, split, -, applied⟩ := seed_eq_ok.mp seeded
    obtain rfl := congrArg Prod.fst applied
    show InTurn (earlier ++ [latest])
    exact split ▸ inTurn_usable bars
  have head : ∀ c ∈ rules.charts, Candle.NeverLost c.minutes m.history := by
    intro c hc
    have whole := unlost c hc
    rw [(Workbench.history_run (w := ⟨m, []⟩) turn moves).1] at whole
    exact whole.head
  have start : Workbench.Chronicled rules (⟨m, []⟩ : Workbench Float) :=
    ⟨chronicled_seed Scalar.lt_irrefl before seeded head, nofun⟩
  have now := (start.run Scalar.lt_irrefl after unlost).monitor
  refine ⟨now.settings, fun c hc => ?_⟩
  have own := now.charts c hc
  exact ⟨List.pairwise_reverse.mpr own.newestFirst, fun d hd => own.spans d (List.mem_reverse.mp hd)⟩

attribute [local instance] Detection.shallow

/-- The last three bars of a wave. The job of the first is done before the second comes; that of
the third has to wait for the bar to be offered again, which is refused. -/
def waveMoves : List (Move Float) :=
  [.accept (Candle.pricedBar 40 95), .finish 0, .observe (Candle.pricedBar 45 100), .accept (Candle.pricedBar 50 96),
    .observe (Candle.pricedBar 50 97), .finish 0]

/-- The second bearish divergence takes the place of the first, and the bullish one comes last. -/
theorem divergences_ascend_wave :
    ∃ m us, seed waveRules "XYZ" ((wave 0).take 8) .empty = .ok (m, us) ∧
      (∀ b ∈ (wave 0).take 8 ++ waveMoves.filterMap Move.offered, b.time.inCalendar = true) ∧
      m.charts.map (ends ·.divergences) = [[25]] ∧
      let now := (Workbench.run ⟨m, []⟩ waveMoves).monitor
      (∀ c ∈ waveRules.charts, Candle.NeverLost c.minutes now.history) ∧
      now.charts.map (ends ·.divergences) = [[35, 40]] ∧
      ∀ c ∈ now.charts, (c.divergences.Pairwise fun a b => a.finish.ms < b.finish.ms) ∧
        ∀ d ∈ c.divergences, Chart.Spans now.history c.settings.minutes d := by
  have run : (waveSeed.1.charts.map (ends ·.divergences),
      (Workbench.run ⟨waveSeed.1, []⟩ waveMoves).monitor.charts.map (ends ·.divergences),
      (Workbench.run ⟨waveSeed.1, []⟩ waveMoves).monitor.history) = ([[25]], [[35, 40]], wave 0) := by
    decide +kernel
  have seeded := seed_wave
  generalize waveSeed = first at run seeded
  obtain ⟨m, us⟩ := first
  simp only [Prod.mk.injEq] at run
  obtain ⟨before, after, history⟩ := run
  have dated : ∀ b ∈ (wave 0).take 8 ++ waveMoves.filterMap Move.offered, b.time.inCalendar = true := by
    decide +kernel
  have unlost : ∀ c ∈ waveRules.charts,
      Candle.NeverLost c.minutes (Workbench.run ⟨m, []⟩ waveMoves).monitor.history := by
    intro c hc
    rw [history]
    exact unbroken_of_fits (by decide +kernel) (by decide +kernel) c hc (by rw [List.mem_singleton.mp hc])
  exact ⟨m, us, seeded, dated, before, unlost, after, (divergences_ascend seeded waveMoves dated unlost).2⟩

/-- With the heavy bar the candle of midnight is lost, and the bearish divergence is found again
behind the bullish one. And in the east there is no moment after the calendar's last bars. -/
theorem divergences_turn_back_at_limits :
    (∃ m us, seed waveRules "XYZ" (wave 1390) .empty = .ok (m, us) ∧
      (∀ b ∈ wave 1390 ++ [heavyBar], b.volume < Word.size 64) ∧
      ∃ now us', m.observe heavyBar = .ok (some (now, us')) ∧
        now.charts.map (ends ·.divergences) = [[1430, 1425]] ∧
        ∃ c ∈ now.charts, ¬ c.divergences.Pairwise fun a b => a.finish.ms < b.finish.ms) ∧
    ∃ m us, seed easternRules "XYZ" [flatBar 0] .empty = .ok (m, us) ∧
      finalBar.time.inCalendar = true ∧ m.observe finalBar = .error .outsideCalendar := by
  constructor
  · have run : (midnightSeed.1.observe heavyBar).toOption.join.map (fun r =>
        (r.1.charts.map (ends ·.divergences),
          r.1.charts.all fun c => decide (c.divergences.Pairwise fun a b => a.finish.ms < b.finish.ms))) =
        some ([[1430, 1425]], false) := by
      decide +kernel
    have seeded := seed_midnight
    generalize midnightSeed = first at run seeded
    obtain ⟨m, us⟩ := first
    obtain ⟨⟨now, us'⟩, done, found⟩ := Option.map_eq_some_iff.mp run
    obtain ⟨shown, turned⟩ := Prod.mk.inj found
    refine ⟨m, us, seeded, by decide +kernel, now, us', eq_ok_of_toOption (Option.join_eq_some_iff.mp done), shown, ?_⟩
    simpa using turned
  · refine ⟨easternSeed.1, easternSeed.2, seed_eastern, by decide, ?_⟩
    have undated : ({ easternSeed.1 with earlier := easternSeed.1.history, latest := finalBar } :
        Monitor Float).derive?.isNone = true := by
      decide +kernel
    rw [observe_taken easternSeed_accept, Option.isNone_iff_eq_none.mp undated]
    rfl

end Monitor
end TickerBoard

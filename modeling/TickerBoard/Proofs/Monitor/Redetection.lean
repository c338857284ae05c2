import TickerBoard.Proofs.Scalar
import TickerBoard.Proofs.Chart.Forming
import TickerBoard.Proofs.Monitor.Restart

/-! Which bars make a monitor announce a divergence.

Every bar has each chart look for a divergence anew, and while a candle is
forming it finds the same one each time. A chart whose findings are not stale
knows it and stays silent; a stale one announces it with every bar, until the
candle closes (`announced_once_unless_stale`). -/
namespace TickerBoard

/-! ### A divergence is the same as itself -/

theorem Divergence.same_self {d : Divergence Float} (h : d.Carries fun x => x.isNaN = false) : d.same d = true := by
  simp [Divergence.same, Scalar.beq_self h.startPrice, Scalar.beq_self h.startRsi, Scalar.beq_self h.finishPrice,
    Scalar.beq_self h.finishRsi]

namespace Monitor

/-! ### What a tick announces -/

section Charts
variable {α : Type}

/-- Every label that is listed gets its update. -/
theorem labels_apply (m : Monitor α) {d : Derived α} (h : d.detected ⊆ d.charts.map Chart.label) :
    (m.apply d).2.map (·.label) = d.detected := by
  have each : ∀ label ∈ d.detected, ((d.charts.find? (·.label == label)).map
      fun c => (⟨m.symbol, c.label, c.divergences⟩ : PatternUpdate α)).map (·.label) = some label := by
    intro label listed
    obtain ⟨c, hc, rfl⟩ := List.mem_map.mp (h listed)
    cases found : d.charts.find? (·.label == c.label) with
    | none => simpa using List.find?_eq_none.mp found c hc
    | some first => simpa using List.find?_some found
  rw [apply, List.map_filterMap]
  exact (List.filterMap_congr each).trans List.filterMap_some

end Charts

/-! ### Monitors that followed numbers -/

/-- The prices of a bar that a detection may read are numbers. -/
def Priced (b : Bar Float) : Prop := b.high.isNaN = false ∧ b.low.isNaN = false

section Watch
variable [Protractor]

/-- A monitor was seeded from some bars and stored lists and went on to follow other bars. -/
def Reached (rules : AnalysisRules Float) (symbol : String) (m : Monitor Float) : Prop :=
  ∃ bars stored first us₀ later us, (∀ b ∈ bars ++ later, Priced b) ∧
    seed rules symbol bars stored = .ok (first, us₀) ∧ first.follow later = .ok (m, us)

/-- What holds of such a monitor. -/
structure Watching (rules : AnalysisRules Float) (symbol : String) (m : Monitor Float) : Prop where
  governed : m.rules = rules
  named : m.symbol = symbol
  turn : InTurn m.history
  prices : ∀ b ∈ m.history, Priced b
  settings : m.charts.map (·.settings) = rules.charts
  current : ∀ c ∈ m.charts, Chart.Current rules.chartRules symbol m.history c

variable {rules : AnalysisRules Float} {symbol : String} {m next now : Monitor Float} {b : Bar Float}
  {d : Derived Float}

theorem Watching.distinct (watching : Watching rules symbol m) (apart : (rules.charts.map (·.label)).Nodup) :
    Distinct m.charts :=
  distinct_of_settings watching.settings apart

/-- However the charts came about, deriving leaves them current. -/
theorem watching_derived (governed : next.rules = rules) (named : next.symbol = symbol)
    (turn : InTurn next.history) (prices : ∀ b ∈ next.history, Priced b)
    (settings : next.charts.map (·.settings) = rules.charts) (derived : next.derive? = some d) :
    Watching rules symbol (next.apply d).1 := by
  subst governed named
  obtain ⟨updated, -⟩ := derive_eq_some derived
  refine ⟨rfl, rfl, turn, prices, (settings_updateCharts updated).trans settings, fun c' hc' => ?_⟩
  obtain ⟨c, -, new, update⟩ := (exists_of_forall₂ (updateCharts_spec updated).1).2 c' hc'
  refine Chart.current_of_update update fun d reads => Divergence.same_self ?_
  exact carries_of_reads (fun _ => isNaN_of_isFinite) prices reads

theorem Watching.derived (watching : Watching rules symbol m) (price : Priced b)
    (accepted : m.accept b = some next) (derived : next.derive? = some d) :
    Watching rules symbol (next.apply d).1 := by
  obtain ⟨grown, turn⟩ := inTurn_accept watching.turn accepted
  refine watching_derived ((rules_accept accepted).trans watching.governed)
    ((symbol_accept accepted).trans watching.named) turn ?_ ?_ derived
  · rw [grown]
    exact List.forall_mem_append.mpr ⟨watching.prices, List.forall_mem_singleton.mpr price⟩
  · rw [(accept_eq_some.mp accepted).2]
    exact watching.settings

theorem watching_of_reached (reached : Reached rules symbol m) : Watching rules symbol m := by
  obtain ⟨bars, stored, first, us₀, later, us, prices, seeded, followed⟩ := reached
  obtain ⟨before, after⟩ := List.forall_mem_append.mp prices
  obtain ⟨earlier, latest, d, split, derived, applied⟩ := seed_eq_ok.mp seeded
  have start : Watching rules symbol first := by
    obtain ⟨rfl, -⟩ := Prod.mk.inj applied
    refine watching_derived rfl rfl ?_ (fun b hb => before b ?_) (settings_startCharts ..) derived
    · show InTurn (earlier ++ [latest])
      rw [← split]
      exact inTurn_usable bars
    · refine mem_of_mem_usable ?_
      rw [split]
      exact hb
  exact follow_induction (P := fun m _ => Watching rules symbol m) start
    (fun m us b next d hb watching accepted derived => watching.derived (after b hb) accepted derived) followed

/-- A monitor that was just seeded has been reached. -/
theorem reached_of_seed {bars : List (Bar Float)} {stored : DayRecord} {r : Monitor Float × List (PatternUpdate Float)}
    (prices : ∀ b ∈ bars, Priced b) (seeded : seed rules symbol bars stored = .ok r) : Reached rules symbol r.1 :=
  ⟨bars, stored, r.1, r.2, [], [], by simpa using prices, seeded, rfl⟩

/-! ### One tick and many -/

/-- What a tick does to a chart whose forming candle goes on. -/
structure Ticked (rules : AnalysisRules Float) (symbol : String) (history : List (Bar Float))
    (c c' : Chart Float) : Prop where
  announced : Chart.announces rules.chartRules symbol history c = c.stale rules.clock
  stale : c'.stale rules.clock = c.stale rules.clock
  findings : c'.findings = if c.stale rules.clock then c.findings.take 1 else c.findings

theorem Watching.tick (watching : Watching rules symbol m) (accepted : m.accept b = some next)
    (derived : next.derive? = some d) :
    (next.apply d).2.map (·.label) =
        (m.charts.filter (Chart.announces rules.chartRules symbol next.history)).map Chart.label ∧
      List.Forall₂ (fun c c' => c'.settings = c.settings ∧
        (Chart.Forming rules.chartRules c.settings m.history next.history →
          Ticked rules symbol next.history c c')) m.charts d.charts := by
  obtain ⟨grown, turn⟩ := inTurn_accept watching.turn accepted
  obtain ⟨updated, -⟩ := derive_eq_some derived
  have charts : next.charts = m.charts := by rw [(accept_eq_some.mp accepted).2]
  rw [rules_accept accepted, symbol_accept accepted, watching.governed, watching.named, charts] at updated
  obtain ⟨alike, detected⟩ := updateCharts_spec updated
  constructor
  · rw [labels_apply, detected]
    have same := congrArg (List.map ChartSettings.label) (settings_updateCharts updated)
    rw [List.map_map, List.map_map] at same
    show d.detected ⊆ d.charts.map (ChartSettings.label ∘ Chart.settings)
    rw [same]
    exact labels_updateCharts updated
  · refine ((List.forall₂_and_left _ _).mpr ⟨watching.current, alike⟩).imp ?_
    rintro c c' ⟨current, new, update⟩
    refine ⟨settings_update update, fun forming => ?_⟩
    rw [grown] at turn forming update ⊢
    obtain ⟨c₁, new₁, update₁, -, stale, findings, announced⟩ := current.update_within turn forming
    obtain ⟨rfl, rfl⟩ := Prod.mk.inj (Option.some.inj (update.symm.trans update₁))
    have own : Chart.announces rules.chartRules symbol (m.history ++ [b]) c = new.isSome := by
      rw [Chart.announces, update, Option.any_some]
    exact ⟨own.trans announced, stale, findings⟩

/-- While its candle goes on forming, a chart is announced with every bar or with none. -/
theorem Watching.follow (watching : Watching rules symbol now) (apart : (rules.charts.map (·.label)).Nodup)
    {c : Chart Float} (hc : c ∈ now.charts) {more : List (Bar Float)} (prices : ∀ b ∈ more, Priced b)
    {last : Monitor Float} {us : List (PatternUpdate Float)} (followed : now.follow more = .ok (last, us)) :
    Watching rules symbol last ∧ ∃ taken, last.history = now.history ++ taken ∧
      (Chart.Forming rules.chartRules c.settings now.history last.history →
        (us.map (·.label)).count c.label = (if c.stale rules.clock then taken.length else 0) ∧
          ∃ c' ∈ last.charts, c'.settings = c.settings ∧ c'.stale rules.clock = c.stale rules.clock) := by
  refine follow_induction (P := fun m us => Watching rules symbol m ∧ ∃ taken, m.history = now.history ++ taken ∧
    (Chart.Forming rules.chartRules c.settings now.history m.history →
      (us.map (·.label)).count c.label = (if c.stale rules.clock then taken.length else 0) ∧
        ∃ c' ∈ m.charts, c'.settings = c.settings ∧ c'.stale rules.clock = c.stale rules.clock))
    ⟨watching, [], (List.append_nil _).symm, fun _ => ⟨by simp, c, hc, rfl, rfl⟩⟩ ?_ followed
  intro m us b next d hb before accepted derived
  obtain ⟨watching, taken, grown, before⟩ := before
  obtain ⟨longer, turn⟩ := inTurn_accept watching.turn accepted
  obtain ⟨labels, charts⟩ := watching.tick accepted derived
  rw [grown] at longer
  refine ⟨watching.derived (prices b hb) accepted derived, taken ++ [b], by simpa using longer, fun forming => ?_⟩
  rw [apply_history, longer] at forming
  rw [longer] at turn
  obtain ⟨sofar, onward⟩ := forming.split turn
  obtain ⟨counted, c', hc', same, stale⟩ := before (by rw [grown]; exact sofar)
  obtain ⟨c'', hc'', settings, ticked⟩ := (exists_of_forall₂ charts).1 c' hc'
  have ticked := ticked (by rw [grown, longer, same]; exact onward)
  have label : c'.label = c.label := congrArg ChartSettings.label same
  refine ⟨?_, c'', hc'', settings.trans same, ticked.stale.trans stale⟩
  rw [List.map_append, List.count_append, counted, labels, ← label,
    count_announced (watching.distinct apart) hc', ticked.announced, stale]
  split <;> simp

/-- **A divergence that is found again is announced again only if it is stale.** Take a monitor
that was seeded and followed bars, all of prices that are numbers, and that takes one more.
Which charts are announced is which found something new; of a chart whose forming candle goes
on with the bar this is so just if its findings are stale, and just then its findings change:
the newest alone is left. From then on every label is announced at most once with the bar, and
while the candle of a chart goes on forming, with every bar taken if its findings are stale and
with none otherwise. -/
theorem announced_once_unless_stale (reached : Reached rules symbol m) (price : Priced b)
    {us : List (PatternUpdate Float)} (observed : m.observe b = .ok (some (now, us))) :
    us.map (·.label) = (m.charts.filter (Chart.announces rules.chartRules symbol now.history)).map Chart.label ∧
    List.Forall₂ (fun c c' => Chart.Forming rules.chartRules c.settings m.history now.history →
      Ticked rules symbol now.history c c') m.charts now.charts ∧
    ((rules.charts.map (·.label)).Nodup → ∀ c ∈ now.charts, (us.map (·.label)).count c.label ≤ 1 ∧
      ∀ more last others, (∀ b ∈ more, Priced b) → now.follow more = .ok (last, others) →
        Chart.Forming rules.chartRules c.settings now.history last.history →
        (others.map (·.label)).count c.label =
          if c.stale rules.clock then last.history.length - now.history.length else 0) := by
  have watching := watching_of_reached reached
  obtain ⟨next, d, accepted, derived, applied⟩ := observe_eq_some observed
  obtain ⟨rfl, rfl⟩ : (next.apply d).1 = now ∧ (next.apply d).2 = us := Prod.ext_iff.mp applied
  obtain ⟨labels, charts⟩ := watching.tick accepted derived
  refine ⟨labels, charts.imp fun _ _ own => own.2, fun apart c hc => ⟨?_, ?_⟩⟩
  · rw [labels]
    exact List.nodup_iff_count_le_one.mp ((watching.distinct apart).sublist ((List.filter_sublist).map _)) _
  · intro more last others prices followed forming
    obtain ⟨-, taken, grown, counted⟩ :=
      (watching.derived price accepted derived).follow apart hc prices followed
    rw [(counted forming).1, grown, List.length_append, Nat.add_sub_cancel_left]

end Watch

/-! ### Monitors within a day and at its end -/

/-- A divergence of the epoch's first day. -/
def knownFinding : Divergence Float := ⟨"XYZ", .bullish, ⟨0⟩, ⟨0⟩, 1, 30, ⟨0⟩, 1, 40⟩

attribute [local instance] Detection.shallow

/-- A monitor takes two bars after some others. With the first it offers lists of divergences that end in
these minutes, and then its chart holds such, stale or not. -/
def takesTwo (m : Monitor Float) (bars : List (Bar Float)) (b b' : Bar Float) (lists : List (List Int))
    (held : List Int) (stale : Bool) : Bool :=
  (m.observe b).toOption.join.any fun r => (r.1.follow [b']).toOption.any fun r' =>
    r.1.history = bars ++ [b] ∧ r'.1.history = bars ++ [b] ++ [b'] ∧ r.2.map (ends ·.divergences) = lists ∧
      ∀ c ∈ r.1.charts, c.settings ∈ waveRules.charts ∧ ends c.divergences = held ∧ c.stale waveRules.clock = stale

/-- Within the day the divergence that the seed found is not stale, and it is announced no more.
At midnight that of the day before is, and every bar of the candle announces it again. -/
theorem announced_once_unless_stale_midnight :
    (∃ now us last others, waveSeed.1.observe (Candle.pricedBar 36 103) = .ok (some (now, us)) ∧
      now.follow [Candle.pricedBar 37 101] = .ok (last, others) ∧ Reached waveRules "XYZ" waveSeed.1 ∧
      us.map (ends ·.divergences) = [] ∧
      ∀ c ∈ now.charts, ends c.divergences = [25] ∧ (others.map (·.label)).count c.label = 0) ∧
    ∃ now us last others, midnightSeed.1.observe (Candle.pricedBar 1441 97) = .ok (some (now, us)) ∧
      now.follow [Candle.pricedBar 1442 98] = .ok (last, others) ∧ Reached waveRules "XYZ" midnightSeed.1 ∧
      us.map (ends ·.divergences) = [[1430]] ∧
      ∀ c ∈ now.charts, ends c.divergences = [1430] ∧ (others.map (·.label)).count c.label = 1 := by
  have counted : ∀ m bars b b' lists held stale, Reached waveRules "XYZ" m → Priced b → Priced b' →
      takesTwo m bars b b' lists held stale = true →
      (∀ settings ∈ waveRules.charts,
        Chart.Forming waveRules.chartRules settings (bars ++ [b]) (bars ++ [b] ++ [b'])) →
      ∃ now us last others, m.observe b = .ok (some (now, us)) ∧ now.follow [b'] = .ok (last, others) ∧
        Reached waveRules "XYZ" m ∧ us.map (ends ·.divergences) = lists ∧
        ∀ c ∈ now.charts, ends c.divergences = held ∧
          (others.map (·.label)).count c.label = if stale then 1 else 0 := by
    intro m bars b b' lists held stale reached price price' takes forming
    obtain ⟨⟨now, us⟩, seen, rest⟩ := (Option.any_eq_true _ _).mp takes
    obtain ⟨⟨last, others⟩, done, shown⟩ := (Option.any_eq_true _ _).mp rest
    obtain ⟨history, history', listed, charts⟩ := of_decide_eq_true shown
    have observed := eq_ok_of_toOption (Option.join_eq_some_iff.mp seen)
    have followed := eq_ok_of_toOption done
    obtain ⟨-, -, later⟩ := announced_once_unless_stale reached price observed
    refine ⟨now, us, last, others, observed, followed, reached, listed, fun c hc => ?_⟩
    obtain ⟨settings, divergences, old⟩ := charts c hc
    obtain ⟨-, counted⟩ := later (by decide) c hc
    have goesOn : Chart.Forming waveRules.chartRules c.settings now.history last.history := by
      rw [history, history']
      exact forming c.settings settings
    refine ⟨divergences, ?_⟩
    rw [counted [b'] last others (List.forall_mem_singleton.mpr price') followed goesOn, old, history, history',
      List.length_append, Nat.add_sub_cancel_left, List.length_singleton]
  constructor
  · refine counted _ ((wave 0).take 8) _ _ [] [25] false
      (reached_of_seed (by unfold Priced; decide +kernel) seed_wave) (by unfold Priced; decide +kernel)
      (by unfold Priced; decide +kernel) (by decide +kernel) fun settings hs => ?_
    rw [List.mem_singleton.mp hs]
    exact Chart.forming_concat List.getLast?_concat rfl (by decide +kernel) (by decide +kernel) (by decide +kernel)
  · refine counted _ (wave 1390) _ _ [[1430]] [1430] true
      (reached_of_seed (by unfold Priced; decide +kernel) seed_midnight) (by unfold Priced; decide +kernel)
      (by unfold Priced; decide +kernel) (by decide +kernel) fun settings hs => ?_
    rw [List.mem_singleton.mp hs]
    exact Chart.forming_concat List.getLast?_concat rfl (by decide +kernel) (by decide +kernel) (by decide +kernel)

end Monitor
end TickerBoard

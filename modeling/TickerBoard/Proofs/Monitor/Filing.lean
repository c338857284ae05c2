import TickerBoard.Proofs.Monitor.Charts
import TickerBoard.Proofs.Monitor.Seeding
import TickerBoard.Proofs.Storage.Records

/-! Where the divergences of a monitor are on file.

The lists that a monitor offers are written under the day of their newest
divergence, while a session's chart drops its divergences by the day of its
last candle. `Due` and `OnFile` say what monitor and store have in common just
before the charts are derived and once the lists are written. Deriving leads
from one to the other (`Due.onFile`), taking a bar leads back (`OnFile.accept`),
and a seed starts with what the store has (`due_of_seed`). -/
namespace TickerBoard

namespace Candle
variable {α : Type} [Scalar α]

/-- The day of the last candle of some bars. -/
def lastDay (clock : SessionClock) (bars : List (Bar α)) (minutes : Nat) : Option Day :=
  (starts bars minutes).getLast?.bind clock.day?

/-- It never goes back. -/
theorem lastDay_concat {clock : SessionClock} {bars : List (Bar α)} {b : Bar α} {minutes : Nat}
    (turn : InTurn (bars ++ [b])) (kept : NeverLost minutes (bars ++ [b])) {day today : Day}
    (before : lastDay clock bars minutes = some day)
    (after : lastDay clock (bars ++ [b]) minutes = some today) : day.number ≤ today.number := by
  obtain ⟨t, last, dated⟩ := Option.bind_eq_some_iff.mp before
  obtain ⟨t', last', dated'⟩ := Option.bind_eq_some_iff.mp after
  refine day_mono ?_ dated dated'
  rcases starts_concat turn kept with same | ⟨new, grown⟩
  · rw [same, last] at last'
    rw [Option.some.inj last']
  · have ascending := starts_ascending turn minutes
    rw [grown] at ascending last'
    rw [List.getLast?_concat, Option.some.injEq] at last'
    subst last'
    exact Int.le_of_lt ((List.pairwise_append.mp ascending).2.2 t (List.mem_of_getLast? last) new
      (List.mem_singleton.mpr rfl))

/-- If no interval straddles a midnight, it is the day of the last bar. -/
theorem lastDay_eq {clock : SessionClock} {bars : List (Bar α)} {b : Bar α} {minutes : Nat} {day today : Day}
    (splits : Splits clock minutes) (turn : InTurn (bars ++ [b])) (kept : NoneLost minutes (bars ++ [b]))
    (last : lastDay clock (bars ++ [b]) minutes = some day) (dated : clock.day? b.time = some today) : day = today := by
  obtain ⟨t, within_, dated'⟩ := Option.bind_eq_some_iff.mp last
  obtain ⟨t', last', within⟩ := starts_getLast turn kept
  obtain rfl := Option.some.inj (within_.symm.trans last')
  exact splits.day_eq within (within_intervalStart (width_pos minutes) b.time) dated' dated

end Candle

namespace Chart

section Day
variable {α : Type} [Angular α] {rules : ChartRules α} {symbol : String} {history : List (Bar α)}
  {settings : ChartSettings} {series : List (Candle α)} {findings : List (Divergence α)} {today : Day}

/-- A chart that shows a candle has a day. -/
theorem exists_lastDay {b : Bar α} (turn : InTurn (history ++ [b]))
    (kept : Candle.NoneLost settings.minutes (history ++ [b]))
    (shown : seriesOf? rules settings (history ++ [b]) = some series) :
    ∃ today, Candle.lastDay rules.clock (history ++ [b]) settings.minutes = some today := by
  obtain ⟨t, last, -⟩ := Candle.starts_getLast turn kept
  have same := getLast?_seriesOf shown
  rw [last] at same
  obtain ⟨c, hc, rfl⟩ := Option.map_eq_some_iff.mp same
  obtain ⟨today, dated⟩ := day_seriesOf shown (List.mem_of_getLast? hc)
  exact ⟨today, by rw [Candle.lastDay, last, Option.bind_some, dated]⟩

/-- What a session's chart retains is decided by the day of its last candle. -/
theorem retained_of_lastDay (shown : seriesOf? rules settings history = some series)
    (session : settings.sessionScoped = true)
    (dated : Candle.lastDay rules.clock history settings.minutes = some today) (findings : List (Divergence α)) :
    retained? rules settings series findings = some (clearBefore today findings) := by
  obtain ⟨t, last, day⟩ := Option.bind_eq_some_iff.mp dated
  rw [← getLast?_seriesOf shown] at last
  obtain ⟨c, hc, rfl⟩ := Option.map_eq_some_iff.mp last
  simp [retained?, session, hc, day]

/-- Nothing is found of a later day than the last candle's. -/
theorem Reads.day_le_lastDay {d : Divergence α} (reads : Reads rules symbol history settings series (some d))
    (turn : InTurn history) (dated : Candle.lastDay rules.clock history settings.minutes = some today) :
    d.day.number ≤ today.number := by
  obtain ⟨t, last, day⟩ := Option.bind_eq_some_iff.mp dated
  obtain ⟨own, mark⟩ := reads.finish
  exact Candle.day_mono (Candle.mark_le_getLast turn mark last) own day

end Day

section Step
variable [Protractor] {rules : ChartRules Float} {symbol : String} {history : List (Bar Float)} {c c' : Chart Float}
  {new : Option (Divergence Float)} {slot : Day → Option (List (Divergence Float))} {today : Day}

/-- What an update leaves of a session's chart and its slots, if what it retained was in the
slot of the last candle's day. -/
theorem Retained.updated (update : c.update? rules symbol history = some (c', new)) (turn : InTurn history)
    (session : c.settings.sessionScoped = true)
    (dated : Candle.lastDay rules.clock history c.settings.minutes = some today)
    (settled : Settled rules.clock history c.settings.minutes c.findings)
    (retained : Retained slot today (clearBefore today c.findings)) :
    ∃ found, Reads rules symbol history c.settings c'.series found ∧
      new = fresh (clearBefore today c.findings) found ∧
      c'.findings = absorbed c.interval (clearBefore today c.findings) found ∧
      Settled rules.clock history c.settings.minutes c'.findings ∧
      Kept (stored slot new c'.findings) today c.interval found c'.findings := by
  obtain ⟨kept, found, reads, cleared, made, rfl⟩ := update_spec update
  rw [retained_of_lastDay reads.shown session dated, Option.some.injEq] at cleared
  subst cleared
  have findings : c'.findings = absorbed c.interval (clearBefore today c.findings) found := by rw [made]
  have settled := settled.sublist (clearBefore_sublist today c.findings)
  refine ⟨found, reads, rfl, findings, ?_, ?_⟩ <;> rw [findings]
  · exact settled.absorbed reads c.interval
  · refine retained.update c.interval_nonneg (fun d hd => ?_) (fun d e hd he => ?_)
    · subst hd
      exact reads.day_le_lastDay turn dated
    · subst hd
      exact settled.day_le reads (List.mem_of_mem_head? (Option.mem_def.mpr he))

end Step
end Chart

namespace Monitor
variable {σ : Type} [Store σ] {number : Float → Prop}

/-! ### Monitor and store -/

/-- No interval of a session's chart was ever lost. -/
def Unbroken {α : Type} (rules : AnalysisRules α) (history : List (Bar α)) : Prop :=
  ∀ c ∈ rules.charts, c.sessionScoped = true → Candle.NeverLost c.minutes history

theorem Unbroken.head {α : Type} {rules : AnalysisRules α} {history more : List (Bar α)}
    (unbroken : Unbroken rules (history ++ more)) : Unbroken rules history :=
  fun c hc session => (unbroken c hc session).head

/-- What holds of a monitor and a store before and after its charts are derived. -/
structure Sane (number : Float → Prop) (s : σ) (m : Monitor Float) : Prop where
  inTurn : InTurn m.history
  prices : ∀ b ∈ m.history, number b.high ∧ number b.low
  settings : m.charts.map (·.settings) = m.rules.charts
  readable : Store.Readable number s m.symbol
  numbers : ∀ c ∈ m.charts, ∀ d ∈ c.findings, d.Carries number
  unbroken : Unbroken m.rules m.history

theorem Sane.distinct {s : σ} {m : Monitor Float} (sane : Sane number s m)
    (apart : (m.rules.charts.map (·.label)).Nodup) : Distinct m.charts :=
  distinct_of_settings sane.settings apart

theorem Sane.neverLost {s : σ} {m : Monitor Float} (sane : Sane number s m) {c : Chart Float} (hc : c ∈ m.charts)
    (session : c.settings.sessionScoped = true) : Candle.NeverLost c.settings.minutes m.history := by
  refine sane.unbroken c.settings ?_ session
  rw [← sane.settings]
  exact List.mem_map_of_mem hc

/-! ### Deriving the charts -/

section Run
variable [Protractor]

theorem carries_of_reads {rules : ChartRules Float} {symbol : String} {history : List (Bar Float)}
    {settings : ChartSettings} {series : List (Candle Float)} {d : Divergence Float}
    (finite : ∀ x : Float, x.isFinite = true → number x) (prices : ∀ b ∈ history, number b.high ∧ number b.low)
    (reads : Chart.Reads rules symbol history settings series (some d)) : d.Carries number := by
  obtain ⟨kind, a, ha, b, hb, startPrice, startRsi, finishPrice, finishRsi⟩ :=
    Detection.numbers_of_detect reads.detected
  have own := Chart.numbers_seriesOf reads.shown finite prices
  have price : ∀ c ∈ series, number (Detection.price kind c) := by
    intro c hc
    cases kind
    · exact (own c hc).1.2
    · exact (own c hc).1.1
  refine ⟨?_, (own a ha).2 _ startRsi, ?_, (own b hb).2 _ finishRsi⟩
  · rw [startPrice]
    exact price a ha
  · rw [finishPrice]
    exact price b hb

theorem carries_update {rules : ChartRules Float} {symbol : String} {history : List (Bar Float)}
    {c c' : Chart Float} {new : Option (Divergence Float)}
    (finite : ∀ x : Float, x.isFinite = true → number x) (prices : ∀ b ∈ history, number b.high ∧ number b.low)
    (updated : c.update? rules symbol history = some (c', new))
    (numbers : ∀ d ∈ c.findings, d.Carries number) : ∀ d ∈ c'.findings, d.Carries number := by
  obtain ⟨kept, found, reads, retained, made, -⟩ := Chart.update_spec updated
  intro d hd
  rw [made] at hd
  rcases Chart.mem_absorbed hd with old | rfl
  · exact numbers d ((Chart.retained_sublist retained).subset old)
  · exact carries_of_reads finite prices reads

omit [Protractor] in
/-- A list that is written is found in the slot of its newest divergence's day. -/
theorem slot_apply {s : σ} {m : Monitor Float} {d : Derived Float} (trips : Store.RoundTrips σ number)
    (readable : Store.Readable number s m.symbol) (writable : Writer.Writable number m.symbol (m.apply d).2)
    (distinct : Distinct d.charts) {c : Chart Float} (hc : c ∈ d.charts) {new : Option (Divergence Float)}
    (newest : ∀ e, new = some e → c.findings.head? = some e)
    (listed : d.detected.filter (fun label => label = c.label) = if new.isSome then [c.label] else []) :
    Store.slot (Writer.writeEach Writer.writePatterns s (m.apply d).2).1 m.symbol c.label =
      Chart.stored (Store.slot s m.symbol c.label) new c.findings := by
  have own := filter_apply m distinct hc listed
  funext day
  cases new with
  | none =>
    refine Writer.slot_writeEach_others trips readable writable (fun u hu same => ?_) day
    exact List.filter_eq_nil_iff.mp own u hu (decide_eq_true same)
  | some e =>
    have last : c.divergences.getLast? = some e := by
      rw [Chart.divergences, List.getLast?_reverse, newest e rfl]
    rw [Writer.slot_writeEach_single trips readable writable own day, Chart.stored]
    simp only [last, Option.map_some, Option.some.injEq, eq_comm (a := e.day)]
    rfl

/-- Deriving and writing keep a monitor and its store sane. -/
theorem Sane.derived {s : σ} {m : Monitor Float} {d : Derived Float} (trips : Store.RoundTrips σ number)
    (finite : ∀ x : Float, x.isFinite = true → number x) (distinct : Distinct m.charts) (sane : Sane number s m)
    (derived : m.derive? = some d) :
    Distinct d.charts ∧ Writer.Writable number m.symbol (m.apply d).2 ∧
      Sane number (Writer.writeEach Writer.writePatterns s (m.apply d).2).1 (m.apply d).1 := by
  obtain ⟨updated, -⟩ := derive_eq_some derived
  have settings : d.charts.map (·.settings) = m.charts.map (·.settings) := settings_updateCharts updated
  have distinct' : Distinct d.charts := distinct_of_settings settings (by rwa [List.map_map])
  have numbers : ∀ c ∈ d.charts, ∀ e ∈ c.findings, e.Carries number := by
    intro c' hc'
    obtain ⟨c, hc, new, update, -⟩ := mem_updateCharts distinct updated hc'
    exact carries_update finite sane.prices update (sane.numbers c hc)
  have writable : Writer.Writable number m.symbol (m.apply d).2 := by
    intro u hu
    obtain ⟨c, hc, rfl⟩ := mem_apply hu
    exact ⟨rfl, fun e he => numbers c hc e (List.mem_reverse.mp he)⟩
  exact ⟨distinct', writable, sane.inTurn, sane.prices, settings.trans sane.settings,
    Writer.readable_writeEach trips sane.readable writable, numbers, sane.unbroken⟩

/-! ### Monitor and store, before and after -/

/-- The charts are about to be derived: what a session's chart will retain is in its slot of
the day of its last candle, or is nothing. -/
structure Due (number : Float → Prop) (s : σ) (m : Monitor Float) : Prop extends Sane number s m where
  charts : ∀ c ∈ m.charts, c.settings.sessionScoped = true →
    ∀ today, Candle.lastDay m.rules.clock m.history c.settings.minutes = some today →
      Chart.Settled m.rules.clock m.history c.settings.minutes c.findings ∧
      Chart.Retained (Store.slot s m.symbol c.label) today (Chart.clearBefore today c.findings)

/-- The charts are derived and the lists are written. -/
structure OnFile (number : Float → Prop) (s : σ) (m : Monitor Float) : Prop extends Sane number s m where
  charts : ∀ c ∈ m.charts, ∃ found,
    Chart.Reads m.rules.chartRules m.symbol m.history c.settings c.series found ∧
    (c.settings.sessionScoped = true → ∃ today,
      Candle.lastDay m.rules.clock m.history c.settings.minutes = some today ∧
      Chart.Settled m.rules.clock m.history c.settings.minutes c.findings ∧
      Chart.Kept (Store.slot s m.symbol c.label) today c.interval found c.findings)

variable {s : σ} {m : Monitor Float} {d : Derived Float}

/-- Deriving and writing files what is due. -/
theorem Due.onFile (trips : Store.RoundTrips σ number) (finite : ∀ x : Float, x.isFinite = true → number x)
    (apart : (m.rules.charts.map (·.label)).Nodup) (due : Due number s m) (derived : m.derive? = some d) :
    OnFile number (Writer.writeEach Writer.writePatterns s (m.apply d).2).1 (m.apply d).1 := by
  obtain ⟨updated, -⟩ := derive_eq_some derived
  have distinct := due.toSane.distinct apart
  obtain ⟨distinct', writable, sane⟩ := due.toSane.derived trips finite distinct derived
  refine ⟨sane, fun c' hc' => ?_⟩
  obtain ⟨c, hc, new, update, listed⟩ := mem_updateCharts distinct updated hc'
  have same : c'.settings = c.settings := settings_update update
  obtain ⟨-, found, reads, -, -, -⟩ := Chart.update_spec update
  by_cases session : c.settings.sessionScoped = true
  · have turn : InTurn (m.earlier ++ [m.latest]) := due.inTurn
    obtain ⟨today, dated⟩ := Chart.exists_lastDay turn (due.toSane.neverLost hc session).noneLost reads.shown
    obtain ⟨settled, retained⟩ := due.charts c hc session today dated
    obtain ⟨found, reads, rfl, findings, settled, kept⟩ := retained.updated update turn session dated settled
    have newest : ∀ e, Chart.fresh (Chart.clearBefore today c.findings) found = some e →
        c'.findings.head? = some e := by
      intro e he
      rw [findings]
      exact Chart.head?_absorbed he
    refine ⟨found, by rw [same]; exact reads,
      fun _ => ⟨today, by rw [same]; exact dated, by rw [same]; exact settled, ?_⟩⟩
    have label : c'.label = c.label := congrArg ChartSettings.label same
    have interval : c'.interval = c.interval := by simp only [Chart.interval, same]
    show Chart.Kept (Store.slot _ m.symbol c'.label) today c'.interval found c'.findings
    rw [slot_apply trips due.readable writable distinct' hc' newest listed, interval, label]
    exact kept
  · exact ⟨found, by rw [same]; exact reads, fun session' => absurd (same ▸ session') session⟩

/-! ### Taking bars -/

omit [Protractor] in
theorem Sane.accept {next : Monitor Float} {b : Bar Float} (sane : Sane number s m)
    (price : number b.high ∧ number b.low) (accepted : m.accept b = some next)
    (unbroken : Unbroken m.rules next.history) :
    Sane number s next := by
  obtain ⟨grown, turn⟩ := inTurn_accept sane.inTurn accepted
  obtain ⟨-, rfl⟩ := accept_eq_some.mp accepted
  refine ⟨turn, ?_, sane.settings, sane.readable, sane.numbers, unbroken⟩
  rw [grown]
  exact List.forall_mem_append.mpr ⟨sane.prices, List.forall_mem_singleton.mpr price⟩

/-- A bar that is taken leaves a session's chart with what its slot of that day has. -/
theorem OnFile.accept {next : Monitor Float} {b : Bar Float} (onFile : OnFile number s m)
    (price : number b.high ∧ number b.low) (accepted : m.accept b = some next)
    (unbroken : Unbroken m.rules next.history) :
    Due number s next := by
  have sane := onFile.toSane.accept price accepted unbroken
  refine ⟨sane, fun c hc session today dated => ?_⟩
  have kept' := sane.neverLost hc session
  obtain ⟨grown, turn⟩ := inTurn_accept onFile.inTurn accepted
  obtain ⟨-, rfl⟩ := accept_eq_some.mp accepted
  obtain ⟨found, -, own⟩ := onFile.charts c hc
  obtain ⟨day, before, settled, kept⟩ := own session
  rw [grown] at turn dated kept' ⊢
  exact ⟨settled.concat turn kept', kept.retained (Candle.lastDay_concat turn kept' before dated)⟩

/-- Whatever bars a monitor follows, its lists are on file once they are written. -/
theorem OnFile.follow {now : Monitor Float} {bars : List (Bar Float)} {us : List (PatternUpdate Float)}
    (trips : Store.RoundTrips σ number) (finite : ∀ x : Float, x.isFinite = true → number x)
    (apart : (m.rules.charts.map (·.label)).Nodup) (prices : ∀ b ∈ bars, number b.high ∧ number b.low)
    (onFile : OnFile number s m) (followed : m.follow bars = .ok (now, us))
    (unbroken : Unbroken m.rules now.history) :
    now.rules = m.rules ∧ OnFile number (Writer.writeEach Writer.writePatterns s us).1 now := by
  have filed : now.rules = m.rules ∧ (Unbroken m.rules now.history →
      OnFile number (Writer.writeEach Writer.writePatterns s us).1 now) := by
    refine follow_induction (P := fun now us => now.rules = m.rules ∧ (Unbroken m.rules now.history →
      OnFile number (Writer.writeEach Writer.writePatterns s us).1 now)) ⟨rfl, fun _ => onFile⟩ ?_ followed
    intro now us b next d hb before accepted derived
    obtain ⟨rules, before⟩ := before
    have same : next.rules = m.rules := (rules_accept accepted).trans rules
    refine ⟨same, fun (unbroken : Unbroken m.rules next.history) => ?_⟩
    have grown := unbroken
    rw [history_accept accepted] at grown
    have due := (before grown.head).accept (prices b hb) accepted (by rw [rules]; exact unbroken)
    rw [Writer.writeEach_append]
    exact due.onFile trips finite (by rw [same]; exact apart) derived
  exact ⟨filed.1, filed.2 unbroken⟩

/-! ### Seeding -/

/-- What a store has of a chart of a session when a monitor is seeded with the record of a day:
the day is that of the last candle, no list is stored under a later one, and a list of the
day is in order and has its newest divergence on that day. -/
structure Standing (s : σ) (symbol : String) (clock : SessionClock) (history : List (Bar Float)) (c : ChartSettings)
    (today : Day) : Prop where
  onDay : Candle.lastDay clock history c.minutes = some today
  later : ∀ day, today.number < day.number → Store.slot s symbol c.label day = none
  listed : ∀ list, Store.slot s symbol c.label today = some list →
    Chart.Settled clock history c.minutes list.reverse ∧ list.getLast?.map (·.day) = some today

theorem findings_start {clock : SessionClock} {history : List (Bar Float)} {minutes : Nat}
    {list : List (Divergence Float)} (settled : Chart.Settled clock history minutes list.reverse)
    (settings : ChartSettings) : (Chart.start settings list).findings = list.reverse := by
  have sorted : list.mergeSort (fun a b => a.finish.ms ≤ b.finish.ms) = list :=
    List.mergeSort_of_pairwise ((List.pairwise_reverse.mp settled.newestFirst).imp fun h => decide_eq_true h)
  rw [Chart.start, sorted]

/-- A monitor about to be seeded is due what the store has. -/
theorem due_of_seed {rules : AnalysisRules Float} {symbol : String} {bars earlier : List (Bar Float)}
    {latest : Bar Float} {today : Day} {record : DayRecord} (apart : (rules.charts.map (·.label)).Nodup)
    (prices : ∀ b ∈ bars, number b.high ∧ number b.low) (readable : Store.Readable number s symbol)
    (load : Store.loadRecord s symbol today = .ok record) (split : usable bars = earlier ++ [latest])
    (unbroken : Unbroken rules (usable bars))
    (standing : ∀ c ∈ rules.charts, c.sessionScoped = true →
      Standing s symbol rules.clock (usable bars) c today) :
    Due number s ⟨symbol, rules, earlier, latest, startCharts rules.charts record, [], none⟩ := by
  have charts : startCharts rules.charts record =
      rules.charts.map fun c => Chart.start c (record.findD c.label []) := startCharts_eq apart record
  rw [split] at unbroken
  refine ⟨⟨?_, fun b hb => ?_, settings_startCharts .., readable, fun c hc d hd => ?_, unbroken⟩,
    fun c hc session day last => ?_⟩
  · show InTurn (earlier ++ [latest])
    rw [← split]
    exact inTurn_usable bars
  · have hb : b ∈ earlier ++ [latest] := hb
    rw [← split] at hb
    exact prices b (mem_of_mem_usable hb)
  · rw [charts] at hc
    obtain ⟨settings, -, rfl⟩ := List.mem_map.mp hc
    obtain ⟨r, load', carries⟩ := readable today
    obtain rfl := Except.ok.inj (load.symm.trans load')
    have listed : d ∈ record.findD settings.label [] := List.mem_mergeSort.mp (List.mem_reverse.mp hd)
    cases stored : record.find? settings.label with
    | none => simp [Table.findD, stored] at listed
    | some list => exact carries settings.label list stored d (by simpa [Table.findD, stored] using listed)
  · rw [charts] at hc
    obtain ⟨settings, hs, rfl⟩ := List.mem_map.mp hc
    have own := standing settings hs session
    have last : Candle.lastDay rules.clock (earlier ++ [latest]) settings.minutes = some day := last
    rw [split] at own
    obtain rfl := Option.some.inj (own.onDay.symm.trans last)
    show Chart.Settled rules.clock (earlier ++ [latest]) settings.minutes _ ∧
      Chart.Retained (Store.slot s symbol settings.label) today _
    have slot : Store.slot s symbol settings.label today = record.find? settings.label := Store.slot_of_load load _
    cases stored : record.find? settings.label with
    | none =>
      have blank : (Chart.start settings (record.findD settings.label [])).findings = [] := by
        simp [Chart.start, Table.findD, stored]
      rw [blank]
      exact ⟨.nil _ _ _, own.later, .inr ⟨slot.trans stored, rfl⟩⟩
    | some list =>
      obtain ⟨settled, newest⟩ := own.listed list (slot.trans stored)
      have listed : (Chart.start settings (record.findD settings.label [])).findings = list.reverse := by
        rw [Table.findD, stored, Option.getD_some, findings_start settled]
      have front : list.reverse.head?.map (·.day) = some today := by rw [List.head?_reverse, newest]
      rw [listed, Chart.clearBefore_of_today front]
      exact ⟨settled, own.later, .inl ⟨by rw [slot, stored, List.reverse_reverse], front⟩⟩

end Run

end Monitor
end TickerBoard

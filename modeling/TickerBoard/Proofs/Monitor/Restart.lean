import TickerBoard.Proofs.Chart.Closed
import TickerBoard.Proofs.Chart.Detected
import TickerBoard.Proofs.Monitor.Filing

/-! A monitor that starts again on the same day has its divergences back.

`Backed` says what a monitor and the store of its lists have in common after
all lists that it offered were written. It holds of a monitor seeded over a
store without records and after every bar that is taken (`Backed.follow`), and
it is enough to seed the charts that belong to a session anew, from history and
stored record alone (`Backed.restart`). `restart_restores` joins the two, for
histories in which no interval of a session's chart was ever lost. -/
namespace TickerBoard.Monitor
variable {σ : Type} [Store σ] {number : Float → Prop}

section Run
variable [Protractor]

/-! ### Monitor and store -/

/-- The charts of a monitor are about to be derived: what a chart of a session will retain
is in its slot of today, or is nothing. -/
structure Ready (number : Float → Prop) (s : σ) (m : Monitor Float) : Prop extends Sane number s m where
  charts : ∀ c ∈ m.charts, c.settings.sessionScoped = true →
    ∀ today, m.rules.clock.day? m.lastUpdated = some today →
      Chart.Settled m.rules.clock m.history c.settings.minutes c.findings ∧
      Chart.Retained (Store.slot s m.symbol c.label) today (Chart.clearBefore today c.findings)

/-- The charts of a monitor are derived and its lists are written. -/
structure Backed (number : Float → Prop) (s : σ) (m : Monitor Float) : Prop extends Sane number s m where
  levels : ∃ levels, levels? m.rules m.lastUpdated m.history = some levels
  charts : ∀ c ∈ m.charts, ∃ found,
    Chart.Reads m.rules.chartRules m.symbol m.history c.settings c.series found ∧
    (c.settings.sessionScoped = true → ∃ today, m.rules.clock.day? m.lastUpdated = some today ∧
      Chart.Settled m.rules.clock m.history c.settings.minutes c.findings ∧
      Chart.Kept (Store.slot s m.symbol c.label) today c.interval found c.findings)

/-- The charts of some rules are told apart, and no interval of one that belongs to a
session straddles a midnight. -/
structure Regular (rules : AnalysisRules Float) : Prop where
  distinct : (rules.charts.map (·.label)).Nodup
  splits : ∀ c ∈ rules.charts, c.sessionScoped = true → Candle.Splits rules.clock c.minutes

omit [Protractor] in
theorem Sane.splits {s : σ} {m : Monitor Float} (sane : Sane number s m) (regular : Regular m.rules)
    {c : Chart Float} (hc : c ∈ m.charts) (session : c.settings.sessionScoped = true) :
    Candle.Splits m.rules.clock c.settings.minutes := by
  refine regular.splits c.settings ?_ session
  rw [← sane.settings]
  exact List.mem_map.mpr ⟨c, hc, rfl⟩

/-! ### Deriving the charts -/

theorem day_of_levels {rules : AnalysisRules Float} {last : Instant} {history : List (Bar Float)}
    {levels : List (PriceLevel Float)} (h : levels? rules last history = some levels) :
    ∃ today, rules.clock.day? last = some today := by
  simp only [levels?, SessionClock.daysAgo?, Option.bind_eq_bind, Option.bind_eq_some_iff] at h
  obtain ⟨_, ⟨today, dated, -⟩, -⟩ := h
  exact ⟨today, dated⟩

theorem Ready.due {s : σ} {m : Monitor Float} {today : Day} (regular : Regular m.rules) (ready : Ready number s m)
    (dated : m.rules.clock.day? m.lastUpdated = some today) : Due number s m := by
  refine ⟨ready.toSane, fun c hc session day last => ?_⟩
  have turn : InTurn (m.earlier ++ [m.latest]) := ready.inTurn
  have kept := (ready.toSane.neverLost hc session).noneLost
  obtain rfl := Candle.lastDay_eq (ready.toSane.splits regular hc session) turn kept last dated
  exact ready.charts c hc session day dated

/-- Deriving and writing turns what is ready into what is backed. -/
theorem Ready.backed {s : σ} {m : Monitor Float} {d : Derived Float} (trips : Store.RoundTrips σ number)
    (finite : ∀ x : Float, x.isFinite = true → number x) (regular : Regular m.rules)
    (ready : Ready number s m) (derived : m.derive? = some d) :
    Backed number (Writer.writeEach Writer.writePatterns s (m.apply d).2).1 (m.apply d).1 := by
  obtain ⟨-, leveled, -⟩ := derive_eq_some derived
  obtain ⟨today, dated⟩ := day_of_levels leveled
  have onFile := (ready.due regular dated).onFile trips finite regular.distinct derived
  refine ⟨onFile.toSane, ⟨d.levels, leveled⟩, fun c hc => ?_⟩
  obtain ⟨found, reads, own⟩ := onFile.charts c hc
  refine ⟨found, reads, fun session => ?_⟩
  obtain ⟨day, last, settled, kept⟩ := own session
  have turn : InTurn (m.earlier ++ [m.latest]) := ready.inTurn
  have unlost := (onFile.toSane.neverLost hc session).noneLost
  obtain rfl := Candle.lastDay_eq (onFile.toSane.splits regular hc session) turn unlost last dated
  exact ⟨day, dated, settled, kept⟩

/-! ### Taking bars -/

/-- A bar that is taken leaves a chart of a session with what its slot of that day has. -/
theorem Backed.accept {s : σ} {m taken : Monitor Float} {b : Bar Float} (backed : Backed number s m)
    (price : number b.high ∧ number b.low) (accepted : m.accept b = some taken)
    (unbroken : Unbroken m.rules taken.history) : Ready number s taken := by
  have sane := backed.toSane.accept price accepted unbroken
  refine ⟨sane, fun c hc session today dated => ?_⟩
  have unlost := sane.neverLost hc session
  obtain ⟨grown, turn⟩ := inTurn_accept backed.inTurn accepted
  obtain ⟨⟨-, newer⟩, rfl⟩ := accept_eq_some.mp accepted
  obtain ⟨found, -, own⟩ := backed.charts c hc
  obtain ⟨day, before, settled, kept⟩ := own session
  rw [grown] at turn unlost ⊢
  exact ⟨settled.concat turn unlost, kept.retained (Candle.day_mono (Int.le_of_lt newer) before dated)⟩

/-- Whatever bars a monitor follows, it stays backed once its lists are written. -/
theorem Backed.follow {s : σ} {m now : Monitor Float} {bars : List (Bar Float)}
    {us : List (PatternUpdate Float)} (trips : Store.RoundTrips σ number)
    (finite : ∀ x : Float, x.isFinite = true → number x) (regular : Regular m.rules)
    (prices : ∀ b ∈ bars, number b.high ∧ number b.low) (backed : Backed number s m)
    (followed : m.follow bars = .ok (now, us)) (unbroken : Unbroken m.rules now.history) :
    now.rules = m.rules ∧ now.symbol = m.symbol ∧
      Backed number (Writer.writeEach Writer.writePatterns s us).1 now := by
  have whole : now.rules = m.rules ∧ now.symbol = m.symbol ∧ (Unbroken m.rules now.history →
      Backed number (Writer.writeEach Writer.writePatterns s us).1 now) := by
    refine follow_induction (P := fun now us => now.rules = m.rules ∧ now.symbol = m.symbol ∧
      (Unbroken m.rules now.history → Backed number (Writer.writeEach Writer.writePatterns s us).1 now))
      ⟨rfl, rfl, fun _ => backed⟩ ?_ followed
    intro now us b taken d hb before accepted derived
    obtain ⟨rules, symbol, backed⟩ := before
    have same := rules_accept accepted
    refine ⟨same.trans rules, (symbol_accept accepted).trans symbol,
      fun (unbroken : Unbroken m.rules taken.history) => ?_⟩
    have grown := unbroken
    rw [history_accept accepted] at grown
    have ready := (backed grown.head).accept (prices b hb) accepted (by rw [rules]; exact unbroken)
    rw [Writer.writeEach_append]
    exact ready.backed trips finite (by rw [same, rules]; exact regular) derived
  exact ⟨whole.1, whole.2.1, whole.2.2 unbroken⟩

/-! ### Seeding -/

/-- A monitor seeded over a store without records of its symbol is backed. -/
theorem backed_of_seed {s : σ} {rules : AnalysisRules Float} {symbol : String} {bars : List (Bar Float)}
    {m : Monitor Float} {us : List (PatternUpdate Float)} (trips : Store.RoundTrips σ number)
    (finite : ∀ x : Float, x.isFinite = true → number x) (regular : Regular rules)
    (prices : ∀ b ∈ bars, number b.high ∧ number b.low)
    (blank : ∀ day, Store.loadRecord s symbol day = .ok .empty)
    (seeded : seed rules symbol bars .empty = .ok (m, us)) (unbroken : Unbroken rules m.history) :
    m.rules = rules ∧ m.symbol = symbol ∧
      Backed number (Writer.writeEach Writer.writePatterns s us).1 m := by
  obtain ⟨earlier, latest, d, split, derived, applied⟩ := seed_eq_ok.mp seeded
  obtain ⟨rfl, rfl⟩ := Prod.mk.inj applied
  have charts : (startCharts rules.charts .empty : List (Chart Float)) =
      rules.charts.map fun c => Chart.start c [] := startCharts_eq regular.distinct .empty
  have blankCharts : ∀ c ∈ (startCharts rules.charts .empty : List (Chart Float)), c.findings = [] := by
    intro c hc
    rw [charts] at hc
    obtain ⟨settings, -, rfl⟩ := List.mem_map.mp hc
    simp [Chart.start]
  have ready : Ready number s
      ⟨symbol, rules, earlier, latest, startCharts rules.charts .empty, [], none⟩ := by
    refine ⟨⟨?_, fun b hb => ?_, ?_, fun day => ⟨_, blank day, DayRecord.carries_empty number⟩,
        fun c hc e he => ?_, unbroken⟩,
      fun c hc _ today _ => ?_⟩
    · show InTurn (earlier ++ [latest])
      rw [← split]
      exact inTurn_usable bars
    · have hb : b ∈ earlier ++ [latest] := hb
      rw [← split] at hb
      exact prices b (mem_of_mem_usable hb)
    · rw [charts, List.map_map]
      exact List.map_id _
    · rw [blankCharts c hc] at he
      cases he
    · rw [blankCharts c hc]
      have none : ∀ day, Store.slot s symbol c.label day = none := fun day => by
        rw [Store.slot_of_load (blank day)]
        rfl
      exact ⟨.nil _ _ _, fun day _ => none day, .inr ⟨none today, rfl⟩⟩
  exact ⟨rfl, rfl, ready.backed trips finite regular derived⟩

/-- The chart is the same, if it belongs to a session. -/
def SameSession (c c' : Chart Float) : Prop :=
  c'.settings = c.settings ∧ (c.settings.sessionScoped = true → c' = c)

omit [Protractor] in
theorem session_charts_eq {charts charts' : List (Chart Float)} (h : List.Forall₂ SameSession charts charts') :
    charts'.filter (·.settings.sessionScoped) = charts.filter (·.settings.sessionScoped) := by
  induction h with
  | nil => rfl
  | @cons c c' rest rest' own _ ih =>
    cases session : c.settings.sessionScoped with
    | false => simp [own.1, session, ih]
    | true =>
      rw [own.2 session]
      simp [session, ih]

/-- From its history and the stored record of the day, a backed monitor is seeded anew with
the charts of the session that it has. -/
theorem Backed.restart {s : σ} {m : Monitor Float} (regular : Regular m.rules) (backed : Backed number s m) :
    ∃ today record, m.rules.clock.day? m.lastUpdated = some today ∧
      Store.loadRecord s m.symbol today = .ok record ∧
      ∃ m' us, seed m.rules m.symbol m.history record = .ok (m', us) ∧
        m'.charts.filter (·.settings.sessionScoped) = m.charts.filter (·.settings.sessionScoped) := by
  obtain ⟨levels, leveled⟩ := backed.levels
  obtain ⟨today, dated⟩ := day_of_levels leveled
  obtain ⟨record, load, -⟩ := backed.readable today
  have usable : usable m.history = m.earlier ++ [m.latest] := usable_of_inTurn backed.inTurn
  have charts : startCharts m.rules.charts record =
      m.charts.map fun c => Chart.start c.settings (record.findD c.label []) := by
    rw [startCharts_eq regular.distinct, ← backed.settings, List.map_map]
    rfl
  obtain ⟨charts', labels, updated, alike⟩ : ∃ charts' labels,
      updateCharts? m.rules.chartRules m.symbol m.history (startCharts m.rules.charts record) =
        some (charts', labels) ∧ List.Forall₂ SameSession m.charts charts' := by
    rw [charts]
    refine updateCharts_of_forall fun c hc => ?_
    obtain ⟨found, reads, own⟩ := backed.charts c hc
    obtain ⟨kept, retained⟩ := Chart.retained_some reads.shown
      (Chart.start c.settings (record.findD c.label [])).findings
    refine ⟨_, _, Chart.update_of_reads (c := Chart.start c.settings _) reads retained, rfl,
      fun session => ?_⟩
    obtain ⟨day, sameDay, settled, standing⟩ := own session
    obtain rfl := Option.some.inj (dated.symm.trans sameDay)
    have inTurn : InTurn (m.earlier ++ [m.latest]) := backed.inTurn
    have unlost := (backed.toSane.neverLost hc session).noneLost
    obtain ⟨last, hlast, onDay, -⟩ := reads.today inTurn unlost (backed.toSane.splits regular hc session) dated
    rw [Chart.retained?, session, hlast] at retained
    have cleared : kept = Chart.clearBefore today
        (Chart.start c.settings ((Store.slot s m.symbol c.label today).getD [])).findings := by
      rw [Store.slot_of_load load]
      simpa [onDay, Table.findD] using retained.symm
    have restored := standing.restored settled.newestFirst c.settings
    rw [← cleared] at restored
    show (⟨c.settings, c.series, Chart.absorbed c.interval kept found⟩ : Chart Float) = c
    rw [restored]
  refine ⟨today, record, dated, load, ?_⟩
  have derived : (⟨m.symbol, m.rules, m.earlier, m.latest, startCharts m.rules.charts record, [], none⟩ :
      Monitor Float).derive? =
      some ⟨charts', labels, levels, averageRange? m.rules.rangePeriod charts'⟩ := derive?_eq updated leveled
  exact ⟨_, _, seed_eq_ok.mpr ⟨_, _, _, usable, derived, rfl⟩, session_charts_eq alike⟩

/-- **A restart on the same day gives back the divergences of the session.** Seed a monitor
from any bars over a store without records of its symbol, let it follow any others, on any
days, and write every list that it offers, in turn. Then the store has a record of the day
of its last bar from which, with its history, a monitor is seeded whose charts of a session
are the same, with the same divergences. The store takes numbers of a kind, among them all
that are finite and the highs and lows of the bars; and of the session's charts no interval
was ever lost. -/
theorem restart_restores (trips : Store.RoundTrips σ number)
    (finite : ∀ x : Float, x.isFinite = true → number x) {rules : AnalysisRules Float}
    (regular : Regular rules) {symbol : String} {bars later : List (Bar Float)}
    (prices : ∀ b ∈ bars ++ later, number b.high ∧ number b.low) {s : σ}
    (blank : ∀ day, Store.loadRecord s symbol day = .ok .empty) {m₀ m : Monitor Float}
    {us₀ us : List (PatternUpdate Float)} (seeded : seed rules symbol bars .empty = .ok (m₀, us₀))
    (followed : m₀.follow later = .ok (m, us)) (unbroken : Unbroken rules m.history) :
    ∃ today record, rules.clock.day? m.lastUpdated = some today ∧
      Store.loadRecord (Writer.writeEach Writer.writePatterns s (us₀ ++ us)).1 symbol today = .ok record ∧
      ∃ m' us', seed rules symbol m.history record = .ok (m', us') ∧
        m'.charts.filter (·.settings.sessionScoped) = m.charts.filter (·.settings.sessionScoped) := by
  obtain ⟨before, after⟩ := List.forall_mem_append.mp prices
  have earlier : Unbroken rules m₀.history := by
    obtain ⟨taken, grown⟩ := history_follow followed
    exact (show Unbroken rules (m₀.history ++ taken) by rwa [grown]).head
  obtain ⟨rfl, rfl, backed⟩ := backed_of_seed trips finite regular before blank seeded earlier
  obtain ⟨rules, symbol, backed⟩ := backed.follow trips finite regular after followed unbroken
  rw [Writer.writeEach_append, ← rules, ← symbol]
  exact backed.restart (by rw [rules]; exact regular)

end Run

/-! ### Seeds that come in turn -/

theorem eq_ok_of_toOption {ε β : Type} {x : Except ε β} {y : β} (h : x.toOption = some y) : x = .ok y := by
  cases x with
  | error e => cases h
  | ok z => rw [Option.some.inj h]

/-- Traded volumes that add up to words break nothing. -/
theorem unbroken_of_fits {α : Type} {rules : AnalysisRules α} {history : List (Bar α)}
    (fits : ∀ c ∈ rules.charts, Candle.Fits c.minutes history) (traded : ∀ b ∈ history, b.isTraded = true) :
    Unbroken rules history :=
  fun c hc _ => (fits c hc).neverLost traded

/-- A single chart is told apart. -/
theorem regular_of_single {rules : AnalysisRules Float} {settings : ChartSettings} (only : rules.charts = [settings])
    (splits : Candle.Splits rules.clock settings.minutes) : Regular rules := by
  refine ⟨by simp [only], fun c hc _ => ?_⟩
  rw [only, List.mem_singleton] at hc
  rwa [hc]

section Settle
variable [Protractor]

/-- The monitor with its derived part, if it has one. -/
def settle (m : Monitor Float) : Monitor Float × List (PatternUpdate Float) := (m.derive?.map m.apply).getD (m, [])

theorem settle_eq {m : Monitor Float} (h : m.derive?.isSome = true) :
    ∃ d, m.derive? = some d ∧ m.apply d = settle m := by
  obtain ⟨d, derived⟩ := Option.isSome_iff_exists.mp h
  exact ⟨d, derived, by rw [settle, derived]; rfl⟩

theorem history_settle (m : Monitor Float) : (settle m).1.history = m.history := by
  rw [settle]
  cases m.derive? <;> rfl

/-- A monitor of some bars whose charts have not been derived yet. -/
def unsettled (rules : AnalysisRules Float) (earlier : List (Bar Float)) (latest : Bar Float) (stored : DayRecord) :
    Monitor Float :=
  ⟨"XYZ", rules, earlier, latest, startCharts rules.charts stored, [], none⟩

variable {rules : AnalysisRules Float} {stored : DayRecord}

/-- Seeding from bars in turn settles the monitor of them. -/
theorem seed_eq_settle (earlier : List (Bar Float)) (latest : Bar Float) (turn : InTurn (earlier ++ [latest]))
    (derives : (unsettled rules earlier latest stored).derive?.isSome = true) :
    seed rules "XYZ" (earlier ++ [latest]) stored = .ok (settle (unsettled rules earlier latest stored)) := by
  obtain ⟨d, derived, settled⟩ := settle_eq derives
  exact seed_eq_ok.mpr ⟨earlier, latest, d, usable_of_inTurn turn, derived, settled⟩

theorem seed_eq_outsideCalendar (earlier : List (Bar Float)) (latest : Bar Float) (turn : InTurn (earlier ++ [latest]))
    (undated : (unsettled rules earlier latest stored).derive? = none) :
    seed rules "XYZ" (earlier ++ [latest]) stored = .error .outsideCalendar := by
  have newestFirst : (usable (earlier ++ [latest])).reverse = latest :: earlier.reverse := by
    rw [usable_of_inTurn turn, List.reverse_append, List.reverse_singleton, List.singleton_append]
  simp only [seed, newestFirst, List.reverse_reverse]
  rw [← unsettled, undated]
  rfl

end Settle

/-- A bar at a minute of the epoch's first day. -/
def flatBar (minute : Int) : Bar Float := ⟨"XYZ", ⟨minute * 60000⟩, 1, 1, 1, 1, 10⟩

/-- One chart of five minutes that belongs to the session. -/
def sessionRules : AnalysisRules Float :=
  ⟨[⟨"5Min", 5, 20, 2, true⟩], ⟨14, .standard, ⟨0⟩⟩, 60, .standard, 7, 14⟩

/-! ### A monitor of one chart that restarts -/

theorem isNaN_of_isFinite {x : Float} (h : x.isFinite = true) : x.isNaN = false := by
  have finite : x.toModel.unpack.isFinite = true := h
  show x.toModel.unpack.isNaN = false
  cases unpacked : x.toModel.unpack with
  | notANumber =>
    rw [unpacked] at finite
    cases finite
  | _ => rfl

attribute [local instance] Detection.shallow

/-- A chart of five minutes that belongs to the session, with an oscillator of two candles. -/
def waveRules : AnalysisRules Float :=
  ⟨[⟨"5Min", 5, 3, 2, true⟩], ⟨2, ⟨1, 50, 50⟩, ⟨0⟩⟩, 60, .standard, 7, 14⟩

theorem regular_wave : Regular waveRules := regular_of_single rfl ⟨by decide, by decide⟩

/-- Eleven bars, one for each five minutes from a minute on. Of the divergences a bearish one
ends with the sixth bar, another with the eighth and a bullish one with the ninth. -/
def wave (minute : Int) : List (Bar Float) :=
  [100, 100, 100, 101, 96, 102, 96, 102, 95, 100, 96].zipIdx.map
    fun (price, place) => Candle.pricedBar (minute + 5 * place) price

/-- The minutes in which divergences end. -/
def ends (divergences : List (Divergence Float)) : List Int := divergences.map (·.finish.ms / 60000)

/-- The monitor of the first eight bars, with the lists that it offers. -/
def waveSeed : Monitor Float × List (PatternUpdate Float) :=
  settle (unsettled waveRules ((wave 0).take 7) (Candle.pricedBar 35 102) .empty)

theorem seed_wave : seed waveRules "XYZ" ((wave 0).take 8) .empty = .ok waveSeed :=
  seed_eq_settle ((wave 0).take 7) (Candle.pricedBar 35 102) ⟨by decide, by decide⟩ (by decide +kernel)

/-- The second bearish divergence takes the place of the first, which the seed had found. With
the bullish one behind it, it is given back. -/
theorem restart_restores_wave : ∃ m₀ us₀ m us,
    seed waveRules "XYZ" ((wave 0).take 8) .empty = .ok (m₀, us₀) ∧ m₀.follow ((wave 0).drop 8) = .ok (m, us) ∧
    (us₀ ++ us).map (ends ·.divergences) = [[25], [35], [35, 40]] ∧ Unbroken waveRules m.history ∧
    ∃ today record, waveRules.clock.day? m.lastUpdated = some today ∧
      Store.loadRecord (Writer.writeEach Writer.writePatterns MemoryStore.empty (us₀ ++ us)).1 "XYZ" today =
        .ok record ∧
      ∃ m' us', seed waveRules "XYZ" m.history record = .ok (m', us') ∧
        m'.charts.filter (·.settings.sessionScoped) = m.charts.filter (·.settings.sessionScoped) ∧
        (m'.charts.filter (·.settings.sessionScoped)).map (ends ·.divergences) = [[35, 40]] := by
  have prices : ∀ b ∈ (wave 0).take 8 ++ (wave 0).drop 8, b.high.isNaN = false ∧ b.low.isNaN = false := by
    decide +kernel
  have run : (waveSeed.1.follow ((wave 0).drop 8)).toOption.map (fun r =>
      ((waveSeed.2 ++ r.2).map (ends ·.divergences),
        (r.1.charts.filter (·.settings.sessionScoped)).map (ends ·.divergences), r.1.history)) =
      some ([[25], [35], [35, 40]], [[35, 40]], wave 0) := by
    decide +kernel
  have seeded := seed_wave
  generalize waveSeed = first at run seeded
  obtain ⟨m₀, us₀⟩ := first
  obtain ⟨⟨m, us⟩, done, found⟩ := Option.map_eq_some_iff.mp run
  obtain ⟨offered, found⟩ := Prod.mk.inj found
  obtain ⟨shown, history⟩ := Prod.mk.inj found
  have followed : m₀.follow ((wave 0).drop 8) = .ok (m, us) := eq_ok_of_toOption done
  have unbroken : Unbroken waveRules m.history := by
    rw [history]
    exact unbroken_of_fits (by decide +kernel) (by decide +kernel)
  obtain ⟨today, record, dated, loaded, m', us', again, same⟩ :=
    restart_restores (s := MemoryStore.empty) (MemoryStore.roundTrips fun x => x.isNaN = false)
      (fun _ => isNaN_of_isFinite) regular_wave prices (fun _ => rfl) seeded followed unbroken
  exact ⟨m₀, us₀, m, us, seeded, followed, offered, unbroken, today, record, dated, loaded, m', us', again, same,
    by rw [same, shown]⟩

/-- A bar of the minute after the epoch's first day that brings the volume of its five minutes
to a word, together with the last bar of a wave that ends at midnight. -/
def heavyBar : Bar Float := { Candle.pricedBar 1441 97 with volume := 18446744073709551606 }

/-- The charts of monitors that lie a quarter of a turn to the east. -/
def easternRules : AnalysisRules Float :=
  { sessionRules with chartRules := { sessionRules.chartRules with clock := ⟨18000⟩ } }

theorem regular_eastern : Regular easternRules := regular_of_single rfl ⟨by decide, by decide⟩

/-- A bar of the calendar's last minute. -/
def finalBar : Bar Float := ⟨"XYZ", ⟨8210266876740000⟩, 1, 1, 1, 1, 10⟩

/-- The monitor of a wave that ends at midnight, with the list that it offers. -/
def midnightSeed : Monitor Float × List (PatternUpdate Float) :=
  settle (unsettled waveRules ((wave 1390).take 10) (Candle.pricedBar 1440 96) .empty)

theorem seed_midnight : seed waveRules "XYZ" (wave 1390) .empty = .ok midnightSeed :=
  seed_eq_settle ((wave 1390).take 10) (Candle.pricedBar 1440 96) ⟨by decide, by decide⟩ (by decide +kernel)

/-- The monitor of one bar in the east. -/
def easternSeed : Monitor Float × List (PatternUpdate Float) :=
  settle (unsettled easternRules [] (flatBar 0) .empty)

theorem seed_eastern : seed easternRules "XYZ" [flatBar 0] .empty = .ok easternSeed :=
  seed_eq_settle [] (flatBar 0) ⟨by decide, by decide⟩ (by decide +kernel)

theorem easternSeed_accept : easternSeed.1.accept finalBar =
    some { easternSeed.1 with earlier := easternSeed.1.history, latest := finalBar } :=
  accept_eq_some.mpr ⟨by decide +kernel, rfl⟩

/-- With the heavy bar the candle of midnight is lost. So the monitor finds the bearish divergence
behind the bullish one, while one that restarts is of the new day and has the bearish one alone.
And a monitor that takes a bar in the east when the calendar ends cannot restart. -/
theorem restart_differs_at_limits :
    (Regular waveRules ∧ ∃ m₀ us₀ m us, seed waveRules "XYZ" (wave 1390) .empty = .ok (m₀, us₀) ∧
      m₀.follow [heavyBar] = .ok (m, us) ∧
      (∀ b ∈ m.history, b.volume < Word.size 64 ∧ b.high.isNaN = false ∧ b.low.isNaN = false) ∧
      ∃ today record, waveRules.clock.day? m.lastUpdated = some today ∧
        Store.loadRecord (Writer.writeEach Writer.writePatterns MemoryStore.empty (us₀ ++ us)).1 "XYZ" today =
          .ok record ∧
        ∃ m' us', seed waveRules "XYZ" m.history record = .ok (m', us') ∧
          m.charts.map (ends ·.divergences) = [[1430, 1425]] ∧ m'.charts.map (ends ·.divergences) = [[1425]]) ∧
    Regular easternRules ∧ ∃ m₀ us₀ m, seed easternRules "XYZ" [flatBar 0] .empty = .ok (m₀, us₀) ∧
      m₀.accept finalBar = some m ∧ seed easternRules "XYZ" m.history .empty = .error .outsideCalendar := by
  constructor
  · have run : (midnightSeed.1.follow [heavyBar]).toOption.map (fun r =>
        let stored := (Writer.writeEach Writer.writePatterns MemoryStore.empty (midnightSeed.2 ++ r.2)).1
        let again := unsettled waveRules (wave 1390) heavyBar (stored.record "XYZ" ⟨1⟩)
        (r.1.charts.map (ends ·.divergences), r.1.history, again.derive?.isSome,
          (settle again).1.charts.map (ends ·.divergences))) =
        some ([[1430, 1425]], wave 1390 ++ [heavyBar], true, [[1425]]) := by
      decide +kernel
    have seeded := seed_midnight
    generalize midnightSeed = first at run seeded
    obtain ⟨m₀, us₀⟩ := first
    obtain ⟨⟨m, us⟩, done, found⟩ := Option.map_eq_some_iff.mp run
    simp only [Prod.mk.injEq] at found
    obtain ⟨shown, history, derives, restarted⟩ := found
    have latest : m.latest = heavyBar := List.singleton_inj.mp (List.append_inj' history rfl).2
    have dated : waveRules.clock.day? m.lastUpdated = some ⟨1⟩ := by
      rw [lastUpdated, latest]
      decide +kernel
    have turn : InTurn (wave 1390 ++ [heavyBar]) := ⟨by decide, by decide⟩
    have again := seed_eq_settle (wave 1390) heavyBar turn derives
    rw [← history] at again
    generalize settle _ = next at again restarted
    obtain ⟨m', us'⟩ := next
    refine ⟨regular_wave, m₀, us₀, m, us, seeded, eq_ok_of_toOption done, ?_, ⟨1⟩, _, dated, rfl, m', us', again,
      shown, restarted⟩
    rw [history]
    decide +kernel
  · refine ⟨regular_eastern, easternSeed.1, easternSeed.2, _, seed_eastern, easternSeed_accept, ?_⟩
    have history : easternSeed.1.history = [flatBar 0] := history_settle _
    show seed easternRules "XYZ" (easternSeed.1.history ++ [finalBar]) .empty = .error .outsideCalendar
    rw [history]
    exact seed_eq_outsideCalendar [flatBar 0] finalBar ⟨by decide, by decide⟩ (by decide +kernel)

end TickerBoard.Monitor

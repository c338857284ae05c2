import TickerBoard.Proofs.Monitor.Redetection

/-! What a write makes of a stored list.

A divergence is found as soon as two candles have closed behind its end, so the
first bars of a day may bring one that ended the day before. Found in time, on
the day of the last candle, it is recorded in the list stored under its day;
found late, after the chart dropped its list of that day, it is written in the
place of the whole stored list (`writes_extend_stored`). -/
namespace TickerBoard

namespace Chart

/-- A stored list, oldest first, once the chart has recorded a divergence in it. -/
def extended {α : Type} [BEq α] (c : Chart α) (list : List (Divergence α)) (d : Divergence α) :
    List (Divergence α) :=
  ({ c with findings := list.reverse }.record d).1.divergences

theorem extended_of_new {α : Type} [BEq α] (c : Chart α) {findings : List (Divergence α)} {d : Divergence α}
    (new : isNewest findings d = false) : c.extended findings.reverse d = (recorded c.interval findings d).reverse := by
  rw [extended, record, List.reverse_reverse, new]
  rfl

/-- Recording drops nothing that is not superseded. -/
theorem mem_extended {α : Type} [BEq α] (c : Chart α) {list : List (Divergence α)} (d : Divergence α)
    {e : Divergence α} (he : e ∈ list) : e ∈ c.extended list d ∨ supersedes c.interval d e = true := by
  unfold extended record
  split
  · exact .inl (by simpa [divergences] using he)
  · by_cases own : supersedes c.interval d e = true
    · exact .inr own
    · left
      have split := List.takeWhile_append_dropWhile (p := supersedes c.interval d) (l := list.reverse)
      have listed : e ∈ list.reverse := List.mem_reverse.mpr he
      rw [← split] at listed
      rcases List.mem_append.mp listed with taken | left
      · exact absurd (List.mem_takeWhile_imp taken) own
      · exact List.mem_reverse.mpr (List.mem_cons_of_mem _ left)

section Step
variable [Protractor] {rules : ChartRules Float} {symbol : String} {history : List (Bar Float)} {c c' : Chart Float}
  {slot : Day → Option (List (Divergence Float))} {today : Day}

/-- What a session's chart has once it found something new: of today, and its divergences are
the stored ones with that recorded; of an earlier day, and it stands alone. -/
theorem Retained.announced {e : Divergence Float} (update : c.update? rules symbol history = some (c', some e))
    (turn : InTurn history) (session : c.settings.sessionScoped = true)
    (dated : Candle.lastDay rules.clock history c.settings.minutes = some today)
    (settled : Settled rules.clock history c.settings.minutes c.findings)
    (retained : Retained slot today (clearBefore today c.findings)) :
    c'.divergences.getLast? = some e ∧ e.day.number ≤ today.number ∧
      (e.day = today → c'.divergences = c'.extended ((slot today).getD []) e) ∧
      (e.day ≠ today → c'.divergences = [e]) := by
  obtain ⟨found, reads, new, findings, -, -⟩ := retained.updated update turn session dated settled
  obtain ⟨rfl, taken⟩ := absorbed_of_fresh_some c.interval new.symm
  have unknown : isNewest (clearBefore today c.findings) e = false := by
    have := (Option.filter_eq_some_iff.mp new.symm).2
    simpa using this
  have same : c'.settings = c.settings := by
    obtain ⟨_, _, -, -, made, -⟩ := update_spec update
    rw [made]
  have interval : c'.interval = c.interval := by simp only [interval, same]
  rw [taken] at findings
  have reached := reads.day_le_lastDay turn dated
  refine ⟨?_, reached, fun _ => ?_, fun earlier => ?_⟩
  · rw [divergences, List.getLast?_reverse, findings]
    rfl
  · have listed : (slot today).getD [] = (clearBefore today c.findings).reverse := by
      rcases retained.standing with ⟨stored, -⟩ | ⟨blank, none⟩
      · rw [stored, Option.getD_some]
      · rw [blank, none]
        rfl
    rw [listed, extended_of_new c' unknown, interval, divergences, findings]
  · -- had it retained findings of today, it would have found nothing before them
    have none : clearBefore today c.findings = [] := by
      rcases retained.standing with ⟨-, own⟩ | ⟨-, none⟩
      · obtain ⟨former, front, rfl⟩ := Option.map_eq_some_iff.mp own
        have kept := settled.sublist (clearBefore_sublist former.day c.findings)
        have order := kept.day_le reads (List.mem_of_mem_head? (Option.mem_def.mpr front))
        exact absurd (congrArg Day.mk (Int.le_antisymm reached order)) earlier
      · exact none
    rw [divergences, findings, none]
    rfl

end Step
end Chart

namespace Monitor
variable {σ : Type} [Store σ] {number : Float → Prop} {s : σ} {m : Monitor Float} {d : Derived Float}

/-! ### One write -/

/-- What writing a list of a session's chart does to the slots of its symbol, if the day of the
chart's last candle is `today`. -/
structure Filing (s : σ) (symbol : String) (c : Chart Float) (today : Day) (u : PatternUpdate Float)
    (newest : Divergence Float) : Prop where
  leads : u.divergences.getLast? = some newest
  reached : newest.day.number ≤ today.number
  /-- A divergence of today is recorded in the list that was stored. -/
  onTime : newest.day = today → Store.slot (Writer.writePatterns s u).1 symbol c.label newest.day =
    some (c.extended ((Store.slot s symbol c.label newest.day).getD []) newest)
  /-- What it does not supersede stays. -/
  keeps : newest.day = today → ∀ e ∈ (Store.slot s symbol c.label newest.day).getD [],
    e ∈ u.divergences ∨ Chart.supersedes c.interval newest e = true
  /-- One of an earlier day takes the place of the whole list. -/
  late : newest.day ≠ today → Store.slot (Writer.writePatterns s u).1 symbol c.label newest.day = some [newest]
  others : ∀ label day, ¬(label = c.label ∧ day = newest.day) →
    Store.slot (Writer.writePatterns s u).1 symbol label day = Store.slot s symbol label day

theorem filing_of_list {symbol : String} {c : Chart Float} {today : Day} {newest : Divergence Float}
    (trips : Store.RoundTrips σ number) (readable : Store.Readable number s symbol)
    (carries : ∀ d ∈ c.divergences, d.Carries number) (leads : c.divergences.getLast? = some newest)
    (reached : newest.day.number ≤ today.number)
    (onTime : newest.day = today →
      c.divergences = c.extended ((Store.slot s symbol c.label today).getD []) newest)
    (late : newest.day ≠ today → c.divergences = [newest]) :
    Filing s symbol c today ⟨symbol, c.label, c.divergences⟩ newest := by
  have slots : ∀ label day, Store.slot (Writer.writePatterns s ⟨symbol, c.label, c.divergences⟩).1 symbol label day =
      if label = c.label ∧ day = newest.day then some c.divergences else Store.slot s symbol label day := by
    intro label day
    have spec := (Writer.writePatterns_spec (u := ⟨symbol, c.label, c.divergences⟩) trips readable carries).2 label day
    simpa only [leads, Option.map_some, Option.some.injEq, eq_comm] using spec
  refine ⟨leads, reached, fun own => ?_, fun own e he => ?_, fun other => ?_, fun label day other => ?_⟩
  · rw [slots, if_pos ⟨rfl, rfl⟩, own, ← onTime own]
  · rw [own] at he
    show e ∈ c.divergences ∨ _
    rw [onTime own]
    exact c.mem_extended newest he
  · rw [slots, if_pos ⟨rfl, rfl⟩, late other]
  · rw [slots, if_neg other]

/-- Whichever chart of a session a list is of, writing it files the newest divergence. -/
def Filed (s : σ) (m : Monitor Float) (u : PatternUpdate Float) : Prop :=
  ∀ c ∈ m.charts, c.label = u.label → c.settings.sessionScoped = true → ∃ today newest,
    Candle.lastDay m.rules.clock m.history c.settings.minutes = some today ∧ Filing s m.symbol c today u newest

section File
variable [Protractor]

/-- Every list that a derivation offers is filed, in turn. -/
theorem Due.filed (trips : Store.RoundTrips σ number) (finite : ∀ x : Float, x.isFinite = true → number x)
    (apart : (m.rules.charts.map (·.label)).Nodup) (due : Due number s m) (derived : m.derive? = some d)
    {before after : List (PatternUpdate Float)} {u : PatternUpdate Float}
    (offered : (m.apply d).2 = before ++ u :: after) :
    Filed (Writer.writeEach Writer.writePatterns s before).1 (m.apply d).1 u := by
  intro c' hc' label session
  obtain ⟨updated, -⟩ := derive_eq_some derived
  have distinct := due.toSane.distinct apart
  obtain ⟨distinct', writable, -⟩ := due.toSane.derived trips finite distinct derived
  obtain ⟨c, hc, new, update, listed⟩ := mem_updateCharts distinct updated hc'
  have own := filter_apply m distinct' hc' listed
  rw [offered, List.filter_append, List.filter_cons_of_pos (by simp [label])] at own
  cases new with
  | none => exact absurd own (List.append_ne_nil_of_right_ne_nil _ (List.cons_ne_nil _ _))
  | some e =>
    -- the list is the only one of its label
    obtain ⟨others, same, -⟩ : (∀ a ∈ before, a.label ≠ c'.label) ∧ u = ⟨m.symbol, c'.label, c'.divergences⟩ ∧
        ∀ a ∈ after, a.label ≠ c'.label := by
      simpa [List.append_eq_singleton_iff] using own
    rw [offered] at writable
    obtain ⟨earlier, rest⟩ := List.forall_mem_append.mp writable
    obtain ⟨⟨-, carries⟩, -⟩ := List.forall_mem_cons.mp rest
    subst same
    have settings : c'.settings = c.settings := settings_update update
    rw [settings] at session
    have turn : InTurn (m.earlier ++ [m.latest]) := due.inTurn
    obtain ⟨_, _, reads, -, -, -⟩ := Chart.update_spec update
    obtain ⟨today, dated⟩ := Chart.exists_lastDay turn (due.toSane.neverLost hc session).noneLost reads.shown
    obtain ⟨settled, retained⟩ := due.charts c hc session today dated
    obtain ⟨leads, reached, onTime, late⟩ := retained.announced update turn session dated settled
    have untouched := Writer.slot_writeEach_others trips due.readable earlier others today
    refine ⟨today, e, by rw [settings]; exact dated, filing_of_list trips
      (Writer.readable_writeEach trips due.readable earlier) carries leads reached (fun own => ?_) late⟩
    rw [show (m.apply d).1.symbol = m.symbol from rfl, untouched, show c'.label = c.label from
      congrArg ChartSettings.label settings]
    exact onTime own

/-- **A day's stored list is extended by what is found in time and replaced by what is found
late.** Take charts whose labels differ, and seed a monitor with the record that a store has of
the day of the last candles. Of every list that it offers, at once or with any bar that it
takes after following any others, let the ones before it be written, and let no interval of a
session's chart have been lost by then. Then writing the list of a
session's chart changes one slot, that of its newest divergence. If that is of the day of the
last candle, the slot gets what recording it makes of the list stored there, with all that it
does not supersede; if not, it is of an earlier day, and the slot gets it alone. -/
theorem writes_extend_stored (trips : Store.RoundTrips σ number)
    (finite : ∀ x : Float, x.isFinite = true → number x) {rules : AnalysisRules Float}
    (apart : (rules.charts.map (·.label)).Nodup) {symbol : String} {bars : List (Bar Float)}
    (prices : ∀ b ∈ bars, number b.high ∧ number b.low) (readable : Store.Readable number s symbol)
    {today : Day} {record : DayRecord} (load : Store.loadRecord s symbol today = .ok record)
    (standing : ∀ c ∈ rules.charts, c.sessionScoped = true →
      Standing s symbol rules.clock (usable bars) c today)
    {m₀ : Monitor Float} {us₀ : List (PatternUpdate Float)}
    (seeded : seed rules symbol bars record = .ok (m₀, us₀)) (unbroken : Unbroken rules m₀.history) :
    (∀ before u after, us₀ = before ++ u :: after →
      Filed (Writer.writeEach Writer.writePatterns s before).1 m₀ u) ∧
    ∀ earlier b m us m' new, (∀ a ∈ earlier ++ [b], number a.high ∧ number a.low) →
      m₀.follow earlier = .ok (m, us) → m.observe b = .ok (some (m', new)) → Unbroken rules m'.history →
      ∀ before u after, new = before ++ u :: after →
        Filed (Writer.writeEach Writer.writePatterns s (us₀ ++ us ++ before)).1 m' u := by
  obtain ⟨first, latest, d, split, derived, applied⟩ := seed_eq_ok.mp seeded
  have usable : Unbroken rules (usable bars) := by
    rw [split]
    rwa [← congrArg (·.1.history) applied] at unbroken
  have due := due_of_seed apart prices readable load split usable standing
  constructor
  · intro before u after offered
    obtain ⟨rfl, rfl⟩ := Prod.mk.inj applied
    exact due.filed trips finite apart derived offered
  · intro earlier b m us m' new numbers followed observed unbroken before u after offered
    obtain ⟨ahead, price⟩ := List.forall_mem_append.mp numbers
    have onFile := due.onFile trips finite apart derived
    rw [applied] at onFile
    have rules₀ : m₀.rules = rules := (congrArg (·.1.rules) applied).symm
    subst rules₀
    obtain ⟨next, d', accepted, derived', applied'⟩ := observe_eq_some observed
    obtain ⟨rfl, rfl⟩ : (next.apply d').1 = m' ∧ (next.apply d').2 = new := Prod.ext_iff.mp applied'
    have whole : Unbroken m₀.rules next.history := unbroken
    have grown := whole
    rw [history_accept accepted] at grown
    obtain ⟨same, onFile⟩ := onFile.follow trips finite apart ahead followed grown.head
    have due' := onFile.accept (price b (List.mem_singleton.mpr rfl)) accepted (by rw [same]; exact whole)
    have rules' : next.rules = m₀.rules := (rules_accept accepted).trans same
    rw [Writer.writeEach_append, Writer.writeEach_append]
    exact due'.filed trips finite (by rw [rules']; exact apart) derived' offered

end File

/-! ### A day that is stored, and its midnight -/

/-- A store with the divergence of the day. -/
def knownStore : MemoryStore := MemoryStore.empty.saveRecord "XYZ" ⟨0⟩ (Table.ofList [("5Min", [knownFinding])])

theorem knownStore_slot (day : Day) :
    Store.slot knownStore "XYZ" "5Min" day = if day = ⟨0⟩ then some [knownFinding] else none := by
  rw [Store.slot_of_load (r := knownStore.record "XYZ" day) rfl]
  by_cases same : day = ⟨0⟩
  · subst same
    simp [knownStore, MemoryStore.saveRecord, MemoryStore.record, Table.findD, Table.ofList]
  · simp [knownStore, MemoryStore.saveRecord, MemoryStore.record, Table.findD, same, Ne.symm same, MemoryStore.empty]

attribute [local instance] Detection.shallow

theorem knownStore_standing : ∀ c ∈ waveRules.charts, c.sessionScoped = true →
    Standing knownStore "XYZ" waveRules.clock (usable ((wave 1390).take 8)) c ⟨0⟩ := by
  intro c hc _
  rw [List.mem_singleton.mp hc, usable_of_inTurn ⟨by decide +kernel, by decide +kernel⟩]
  refine ⟨by decide +kernel, fun day later => ?_, fun list stored => ?_⟩
  · rw [knownStore_slot, if_neg]
    rintro rfl
    exact absurd later (Int.lt_irrefl _)
  · rw [knownStore_slot, if_pos rfl] at stored
    obtain rfl := Option.some.inj stored
    refine ⟨⟨List.pairwise_singleton _ _, fun d hd => ?_, fun d hd => ?_⟩, rfl⟩
    · rw [List.mem_singleton.mp hd]
      rfl
    · rw [List.mem_singleton.mp hd]
      exact ⟨⟨84900000⟩, by decide +kernel, by decide⟩

/-- The monitor of a wave that comes up to midnight, seeded with the divergence of the day. -/
def knownSeed : Monitor Float × List (PatternUpdate Float) :=
  settle (unsettled waveRules ((wave 1390).take 7) (Candle.pricedBar 1425 102) (knownStore.record "XYZ" ⟨0⟩))

theorem seed_known : seed waveRules "XYZ" ((wave 1390).take 8) (knownStore.record "XYZ" ⟨0⟩) = .ok knownSeed :=
  seed_eq_settle ((wave 1390).take 7) (Candle.pricedBar 1425 102) ⟨by decide, by decide⟩ (by decide +kernel)

/-- The divergences that are stored for the day after some lists were written. -/
def storedEnds (us : List (PatternUpdate Float)) : Option (List Int) :=
  (Store.slot (Writer.writeEach Writer.writePatterns knownStore us).1 "XYZ" "5Min" ⟨0⟩).map ends

/-- Until midnight the stored list is extended, and a divergence of it superseded. The first bar of the
next day brings another of the day, which is left alone. -/
theorem writes_extend_stored_midnight : ∃ m₀ us₀ m us m' new,
    seed waveRules "XYZ" ((wave 1390).take 8) (knownStore.record "XYZ" ⟨0⟩) = .ok (m₀, us₀) ∧
    m₀.follow [Candle.pricedBar 1430 95, Candle.pricedBar 1435 100] = .ok (m, us) ∧
    m.observe (Candle.pricedBar 1440 96) = .ok (some (m', new)) ∧ Unbroken waveRules m'.history ∧
    (us₀ ++ us ++ new).map (ends ·.divergences) = [[0, 1415], [0, 1425], [1430]] ∧
    storedEnds us₀ = some [0, 1415] ∧ storedEnds (us₀ ++ us) = some [0, 1425] ∧
    storedEnds (us₀ ++ us ++ new) = some [1430] ∧
    (∀ before u after, us₀ = before ++ u :: after →
      Filed (Writer.writeEach Writer.writePatterns knownStore before).1 m₀ u) ∧
    ∀ before u after, new = before ++ u :: after →
      Filed (Writer.writeEach Writer.writePatterns knownStore (us₀ ++ us ++ before)).1 m' u := by
  have run : ((knownSeed.1.follow [Candle.pricedBar 1430 95, Candle.pricedBar 1435 100]).toOption.any fun r =>
      (r.1.observe (Candle.pricedBar 1440 96)).toOption.join.any fun r' => r'.1.history = wave 1390 ∧
        (knownSeed.2 ++ r.2 ++ r'.2).map (ends ·.divergences) = [[0, 1415], [0, 1425], [1430]] ∧
        storedEnds knownSeed.2 = some [0, 1415] ∧ storedEnds (knownSeed.2 ++ r.2) = some [0, 1425] ∧
        storedEnds (knownSeed.2 ++ r.2 ++ r'.2) = some [1430]) = true := by
    decide +kernel
  have first : Unbroken waveRules knownSeed.1.history := by
    rw [knownSeed, history_settle]
    exact unbroken_of_fits (by decide +kernel) (by decide +kernel)
  have seeded := seed_known
  generalize knownSeed = start at run first seeded
  obtain ⟨m₀, us₀⟩ := start
  obtain ⟨⟨m, us⟩, done, rest⟩ := (Option.any_eq_true _ _).mp run
  obtain ⟨⟨m', new⟩, seen, shown⟩ := (Option.any_eq_true _ _).mp rest
  obtain ⟨history, offered, atOnce, before, after⟩ := of_decide_eq_true shown
  have followed : m₀.follow [Candle.pricedBar 1430 95, Candle.pricedBar 1435 100] = .ok (m, us) :=
    eq_ok_of_toOption done
  have observed := eq_ok_of_toOption (Option.join_eq_some_iff.mp seen)
  have whole : Unbroken waveRules m'.history := by
    rw [history]
    exact unbroken_of_fits (by decide +kernel) (by decide +kernel)
  have readable : Store.Readable (fun _ => True) knownStore "XYZ" :=
    fun day => ⟨_, rfl, fun _ _ _ _ _ => ⟨trivial, trivial, trivial, trivial⟩⟩
  obtain ⟨extended, later⟩ := writes_extend_stored (MemoryStore.roundTrips fun _ => True) (fun _ _ => trivial)
    (by decide) (fun _ _ => ⟨trivial, trivial⟩) readable rfl knownStore_standing seeded first
  exact ⟨m₀, us₀, m, us, m', new, seeded, followed, observed, whole, offered, atOnce, before, after, extended,
    later _ _ _ _ _ _ (fun _ _ => ⟨trivial, trivial⟩) followed observed whole⟩

end Monitor
end TickerBoard

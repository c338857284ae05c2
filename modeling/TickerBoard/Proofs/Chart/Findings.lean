import Mathlib.Data.List.TakeWhile
import TickerBoard.Proofs.Chart.Shown

/-! What the findings of a chart and their stored slot have in common.

An update first drops findings of earlier days and then takes the divergence at
the end of the series. `Settled` says that findings are in the order of their
ends, each of the day of its end. `Kept` ties them to the slots in which the
chart's lists are stored by day: either the slot of today holds just them, or it
is empty and so were they before the last detection. Every update keeps this
(`Kept.update`), and it is enough to have them back (`Kept.restored`). -/
namespace TickerBoard.Chart
variable {α : Type}

/-! ### Taking a divergence -/

section Absorb
variable [BEq α]

/-- The findings once the divergence at the end of the series, if any, is taken. -/
def absorbed (interval : Int) (findings : List (Divergence α)) : Option (Divergence α) → List (Divergence α)
  | none => findings
  | some d => if isNewest findings d then findings else recorded interval findings d

/-- The divergence, if it is new to the findings. -/
def fresh (findings : List (Divergence α)) (found : Option (Divergence α)) : Option (Divergence α) :=
  found.filter fun d => !isNewest findings d

theorem absorbed_nil (interval : Int) (found : Option (Divergence α)) :
    absorbed interval [] found = found.toList := by
  cases found <;> rfl

theorem fresh_nil (found : Option (Divergence α)) : fresh [] found = found := by
  cases found <;> rfl

theorem absorbed_of_fresh_none {interval : Int} {findings : List (Divergence α)}
    {found : Option (Divergence α)} (h : fresh findings found = none) :
    absorbed interval findings found = findings := by
  cases found with
  | none => rfl
  | some d =>
    have newest : isNewest findings d = true := by simpa [fresh] using h
    rw [absorbed, if_pos newest]

theorem absorbed_of_fresh_some (interval : Int) {findings : List (Divergence α)}
    {found : Option (Divergence α)} {d : Divergence α} (h : fresh findings found = some d) :
    found = some d ∧ absorbed interval findings found = recorded interval findings d := by
  obtain ⟨rfl, new⟩ := Option.filter_eq_some_iff.mp h
  have new : isNewest findings d = false := by simpa using new
  exact ⟨rfl, by rw [absorbed, new]; rfl⟩

theorem head?_absorbed {interval : Int} {findings : List (Divergence α)} {found : Option (Divergence α)}
    {d : Divergence α} (h : fresh findings found = some d) :
    (absorbed interval findings found).head? = some d := by
  rw [(absorbed_of_fresh_some interval h).2]
  rfl

theorem mem_absorbed {interval : Int} {findings : List (Divergence α)} {found : Option (Divergence α)}
    {d : Divergence α} (h : d ∈ absorbed interval findings found) : d ∈ findings ∨ found = some d := by
  cases found with
  | none => exact .inl h
  | some e =>
    rw [absorbed] at h
    split at h
    · exact .inl h
    · rcases List.mem_cons.mp h with rfl | old
      · exact .inr rfl
      · exact .inl ((List.dropWhile_sublist _).subset old)

omit [BEq α] in
/-- A divergence takes its own place. -/
theorem supersedes_self {interval : Int} (wide : 0 ≤ interval) (d : Divergence α) :
    supersedes interval d d = true := by
  simp [supersedes, wide]

/-- Taking a divergence again changes nothing. -/
theorem absorbed_absorbed {interval : Int} (wide : 0 ≤ interval) (findings : List (Divergence α))
    (found : Option (Divergence α)) :
    absorbed interval (absorbed interval findings found) found = absorbed interval findings found := by
  cases h : fresh findings found with
  | none => rw [absorbed_of_fresh_none h, absorbed_of_fresh_none h]
  | some d =>
    obtain ⟨rfl, taken⟩ := absorbed_of_fresh_some interval h
    rw [taken, absorbed]
    split
    · rfl
    · have others : (findings.dropWhile (supersedes interval d)).dropWhile (supersedes interval d) =
          findings.dropWhile (supersedes interval d) :=
        List.dropWhile_eq_self_iff.mpr fun left => List.dropWhile_get_zero_not _ findings left
      rw [recorded, recorded, List.dropWhile_cons_of_pos (supersedes_self wide d), others]

end Absorb

theorem interval_nonneg (c : Chart α) : 0 ≤ c.interval := by
  unfold interval
  omega

theorem clearBefore_sublist (today : Day) (findings : List (Divergence α)) :
    (clearBefore today findings).Sublist findings := by
  unfold clearBefore
  split
  · exact List.nil_sublist _
  · exact List.Sublist.refl _

/-! ### One update -/

section Update
variable [Angular α] {rules : ChartRules α} {symbol : String} {history : List (Bar α)}

/-- What a chart of some settings reads from a history: its series and the divergence at
the end of it. -/
structure Reads (rules : ChartRules α) (symbol : String) (history : List (Bar α)) (settings : ChartSettings)
    (series : List (Candle α)) (found : Option (Divergence α)) : Prop where
  shown : seriesOf? rules settings history = some series
  detected : Detection.detect? symbol rules.detection rules.clock series = some found

/-- A series that is shown is read to its end. -/
theorem exists_reads {settings : ChartSettings} {series : List (Candle α)}
    (h : seriesOf? rules settings history = some series) (symbol : String) :
    ∃ found, Reads rules symbol history settings series found := by
  obtain ⟨found, detected⟩ := Option.isSome_iff_exists.mp (Detection.detect?_isSome (Candle.trimDays_spec h).2.2
    symbol rules.detection)
  exact ⟨found, h, detected⟩

theorem retained_some {settings : ChartSettings} {series : List (Candle α)}
    (h : seriesOf? rules settings history = some series) (findings : List (Divergence α)) :
    ∃ kept, retained? rules settings series findings = some kept := by
  cases session : settings.sessionScoped with
  | false => exact ⟨findings, by simp [retained?, session]⟩
  | true =>
    cases last : series.getLast? with
    | none => exact ⟨findings, by simp [retained?, session, last]⟩
    | some c =>
      obtain ⟨day, hday⟩ := day_seriesOf h (List.mem_of_getLast? last)
      exact ⟨clearBefore day findings, by simp [retained?, session, last, hday]⟩

omit [Angular α] in
theorem retained_sublist {settings : ChartSettings} {series : List (Candle α)} {findings kept : List (Divergence α)}
    (h : retained? rules settings series findings = some kept) : kept.Sublist findings := by
  unfold retained? at h
  split at h
  · obtain ⟨day, -, rfl⟩ := Option.map_eq_some_iff.mp h
    exact clearBefore_sublist day findings
  · obtain rfl := Option.some.inj h
    exact List.Sublist.refl _

/-- What is read decides an update, up to what is retained of the findings. -/
theorem update_of_reads {c : Chart α} {series : List (Candle α)} {found : Option (Divergence α)}
    (reads : Reads rules symbol history c.settings series found) {kept : List (Divergence α)}
    (retained : retained? rules c.settings series c.findings = some kept) :
    c.update? rules symbol history =
      some (⟨c.settings, series, absorbed c.interval kept found⟩, fresh kept found) := by
  simp only [update?, reads.shown, retained, reads.detected, Option.bind_eq_bind, Option.bind_some]
  cases found with
  | none => rfl
  | some d =>
    cases newest : isNewest kept d with
    | true => simp [record, absorbed, fresh, newest, Option.filter_some]
    | false => simp [record, absorbed, fresh, newest, interval, Option.filter_some]

/-- All that an update comes to. -/
theorem update_spec {c c' : Chart α} {new : Option (Divergence α)}
    (h : c.update? rules symbol history = some (c', new)) :
    ∃ kept found, Reads rules symbol history c.settings c'.series found ∧
      retained? rules c.settings c'.series c.findings = some kept ∧
      c' = ⟨c.settings, c'.series, absorbed c.interval kept found⟩ ∧ new = fresh kept found := by
  have steps := h
  simp only [update?, Option.bind_eq_bind, Option.bind_eq_some_iff] at steps
  obtain ⟨series, shown, kept, retained, found, detected, -⟩ := steps
  have reads : Reads rules symbol history c.settings series found := ⟨shown, detected⟩
  rw [update_of_reads reads retained] at h
  obtain ⟨rfl, rfl⟩ := Prod.mk.inj (Option.some.inj h)
  exact ⟨kept, found, reads, retained, rfl, rfl⟩

end Update

/-! ### Findings in order -/

section Order
variable [Angular α]

/-- The findings of a chart over a history: newest first, each of the day of its end, and
none that ends behind the candle that the next one would end at. -/
structure Settled (clock : SessionClock) (history : List (Bar α)) (minutes : Nat)
    (findings : List (Divergence α)) : Prop where
  newestFirst : findings.Pairwise fun a b => b.finish.ms ≤ a.finish.ms
  dated : ∀ d ∈ findings, clock.day? d.finish = some d.day
  reached : ∀ d ∈ findings, ∃ t, Candle.mark history minutes = some t ∧ d.finish.ms ≤ t.ms

variable {rules : ChartRules α} {symbol : String} {history : List (Bar α)} {settings : ChartSettings}
  {series : List (Candle α)} {findings : List (Divergence α)}

theorem Settled.nil (clock : SessionClock) (history : List (Bar α)) (minutes : Nat) :
    Settled clock history minutes [] :=
  ⟨.nil, nofun, nofun⟩

theorem Settled.sublist {clock : SessionClock} {minutes : Nat} {fewer : List (Divergence α)}
    (settled : Settled clock history minutes findings) (h : fewer.Sublist findings) :
    Settled clock history minutes fewer :=
  ⟨settled.newestFirst.sublist h, fun d hd => settled.dated d (h.subset hd),
    fun d hd => settled.reached d (h.subset hd)⟩

theorem Settled.concat {clock : SessionClock} {minutes : Nat} {b : Bar α}
    (settled : Settled clock history minutes findings) (inTurn : InTurn (history ++ [b]))
    (kept : Candle.NeverLost minutes (history ++ [b])) : Settled clock (history ++ [b]) minutes findings := by
  refine ⟨settled.newestFirst, settled.dated, fun d hd => ?_⟩
  obtain ⟨t, ht, before⟩ := settled.reached d hd
  obtain ⟨t', ht', further⟩ := Candle.mark_concat inTurn kept ht
  exact ⟨t', ht', by omega⟩

/-- What is found ends at the candle it may end at, on its day. -/
theorem Reads.finish {d : Divergence α} (reads : Reads rules symbol history settings series (some d)) :
    rules.clock.day? d.finish = some d.day ∧ Candle.mark history settings.minutes = some d.finish := by
  obtain ⟨dated, c, third, same⟩ := Detection.finish_of_detect reads.detected
  exact ⟨dated, by rw [mark_of_seriesOf reads.shown third, same]⟩

/-- What is found ends on no earlier day than any finding. -/
theorem Settled.day_le {d e : Divergence α} (settled : Settled rules.clock history settings.minutes findings)
    (reads : Reads rules symbol history settings series (some d)) (he : e ∈ findings) :
    e.day.number ≤ d.day.number := by
  obtain ⟨dated, mark⟩ := reads.finish
  obtain ⟨t, ht, reached⟩ := settled.reached e he
  obtain rfl := Option.some.inj (mark.symm.trans ht)
  exact Candle.day_mono reached (settled.dated e he) dated

theorem Settled.absorbed {found : Option (Divergence α)}
    (settled : Settled rules.clock history settings.minutes findings)
    (reads : Reads rules symbol history settings series found) (interval : Int) :
    Settled rules.clock history settings.minutes (absorbed interval findings found) := by
  cases h : fresh findings found with
  | none =>
    rw [absorbed_of_fresh_none h]
    exact settled
  | some d =>
    obtain ⟨rfl, taken⟩ := absorbed_of_fresh_some interval h
    obtain ⟨dated, mark⟩ := reads.finish
    have others := settled.sublist (List.dropWhile_sublist (supersedes interval d))
    rw [taken, recorded]
    refine ⟨List.pairwise_cons.mpr ⟨fun e he => ?_, others.newestFirst⟩, ?_, ?_⟩
    · obtain ⟨t, ht, before⟩ := others.reached e he
      obtain rfl := Option.some.inj (mark.symm.trans ht)
      exact before
    · exact List.forall_mem_cons.mpr ⟨dated, others.dated⟩
    · exact List.forall_mem_cons.mpr ⟨⟨d.finish, mark, Int.le_refl _⟩, others.reached⟩

/-- The last candle is of the day of the last bar. -/
theorem Reads.today {found : Option (Divergence α)} {b : Bar α} {today : Day}
    (reads : Reads rules symbol (history ++ [b]) settings series found) (inTurn : InTurn (history ++ [b]))
    (kept : Candle.NoneLost settings.minutes (history ++ [b]))
    (splits : Candle.Splits rules.clock settings.minutes) (ht : rules.clock.day? b.time = some today) :
    ∃ c, series.getLast? = some c ∧ rules.clock.day? c.start = some today ∧
      (Candle.starts (history ++ [b]) settings.minutes).getLast? = some c.start := by
  obtain ⟨t, last, within⟩ := Candle.starts_getLast inTurn kept
  have shown := getLast?_seriesOf reads.shown
  rw [last] at shown
  obtain ⟨c, hc, rfl⟩ := Option.map_eq_some_iff.mp shown
  obtain ⟨day, hday⟩ := day_seriesOf reads.shown (List.mem_of_getLast? hc)
  have own := Candle.within_intervalStart (Candle.width_pos settings.minutes) b.time
  obtain rfl := splits.day_eq within own hday ht
  exact ⟨c, hc, hday, last⟩

end Order

/-! ### Stored lists -/

section Slots
variable [BEq α] {slot : Day → Option (List (Divergence α))} {today : Day} {interval : Int}
  {found : Option (Divergence α)} {findings : List (Divergence α)}

/-- The slots after the findings were stored for a new one, if there is one. -/
def stored (slot : Day → Option (List (Divergence α))) (new : Option (Divergence α))
    (findings : List (Divergence α)) (day : Day) : Option (List (Divergence α)) :=
  match new with
  | none => slot day
  | some d => if day = d.day then some findings.reverse else slot day

/-- What is retained of the findings today: what the slot of today has, or nothing. -/
structure Retained (slot : Day → Option (List (Divergence α))) (today : Day)
    (findings : List (Divergence α)) : Prop where
  later : ∀ day, today.number < day.number → slot day = none
  standing : (slot today = some findings.reverse ∧ findings.head?.map (·.day) = some today) ∨
    (slot today = none ∧ findings = [])

/-- Findings and slots after the update with which `found` was found: the slot of today has
the findings, or all they are was found just now, with an end on an earlier day. -/
structure Kept (slot : Day → Option (List (Divergence α))) (today : Day) (interval : Int)
    (found : Option (Divergence α)) (findings : List (Divergence α)) : Prop where
  later : ∀ day, today.number < day.number → slot day = none
  standing : (slot today = some findings.reverse ∧ findings.head?.map (·.day) = some today ∧
      absorbed interval findings found = findings) ∨
    (slot today = none ∧ findings = found.toList ∧ ∀ d, found = some d → d.day.number < today.number)

omit [BEq α] in
theorem clearBefore_of_today (h : findings.head?.map (·.day) = some today) :
    clearBefore today findings = findings := by
  obtain ⟨d, hd, rfl⟩ := Option.map_eq_some_iff.mp h
  simp [clearBefore, hd]

omit [BEq α] in
theorem clearBefore_of_earlier (h : ∀ d, findings.head? = some d → d.day.number < today.number) :
    clearBefore today findings = [] := by
  cases findings with
  | nil => simp [clearBefore]
  | cons d rest => simp [clearBefore, h d rfl]

/-- On the same day or a later one, the update drops what the slot of that day has not. -/
theorem Kept.retained {day : Day} (kept : Kept slot day interval found findings)
    (order : day.number ≤ today.number) : Retained slot today (clearBefore today findings) := by
  refine ⟨fun later h => kept.later later (by omega), ?_⟩
  rcases Int.lt_or_eq_of_le order with newDay | same
  · refine .inr ⟨kept.later today newDay, clearBefore_of_earlier fun d hd => ?_⟩
    rcases kept.standing with ⟨-, own, -⟩ | ⟨-, rfl, earlier⟩
    · rw [hd] at own
      obtain rfl := Option.some.inj own
      exact newDay
    · cases found with
      | none => cases hd
      | some e =>
        obtain rfl := Option.some.inj hd
        have := earlier e rfl
        omega
  · obtain rfl : day = today := by
      cases day
      cases today
      exact congrArg Day.mk same
    rcases kept.standing with ⟨stored, own, -⟩ | ⟨none, rfl, earlier⟩
    · exact .inl ⟨by rw [clearBefore_of_today own, stored], by rw [clearBefore_of_today own, own]⟩
    · refine .inr ⟨none, clearBefore_of_earlier fun d hd => earlier d ?_⟩
      cases found with
      | none => cases hd
      | some e => exact hd

/-- An update stores its findings where it leaves them. -/
theorem Retained.update (retained : Retained slot today findings) (wide : 0 ≤ interval)
    (bound : ∀ d, found = some d → d.day.number ≤ today.number)
    (onward : ∀ d e, found = some d → findings.head? = some e → e.day.number ≤ d.day.number) :
    Kept (stored slot (fresh findings found) (absorbed interval findings found)) today interval found
      (absorbed interval findings found) := by
  have again := absorbed_absorbed wide findings found
  cases h : fresh findings found with
  | none =>
    rw [absorbed_of_fresh_none h] at again ⊢
    refine ⟨retained.later, ?_⟩
    rcases retained.standing with ⟨slot, own⟩ | ⟨slot, rfl⟩
    · exact .inl ⟨slot, own, again⟩
    · rw [fresh_nil] at h
      exact .inr ⟨slot, by rw [h]; rfl, fun d hd => by rw [h] at hd; cases hd⟩
  | some d =>
    obtain ⟨rfl, taken⟩ := absorbed_of_fresh_some interval h
    have limit := bound d rfl
    rw [taken] at again ⊢
    refine ⟨fun day later => ?_, ?_⟩
    · have other : day ≠ d.day := by
        rintro rfl
        omega
      rw [stored, if_neg other]
      exact retained.later day later
    · by_cases own : d.day = today
      · refine .inl ⟨by rw [stored, if_pos own.symm], by rw [recorded, List.head?_cons, Option.map_some, own],
          again⟩
      · rcases retained.standing with ⟨-, front⟩ | ⟨slot, rfl⟩
        · obtain ⟨e, he, rfl⟩ := Option.map_eq_some_iff.mp front
          have := onward d e rfl he
          exact absurd (congrArg Day.mk (Int.le_antisymm limit this)) own
        · refine .inr ⟨by rw [stored, if_neg (Ne.symm own), slot], rfl, fun e he => ?_⟩
          obtain rfl := Option.some.inj he
          rcases Int.lt_or_eq_of_le limit with earlier | same
          · exact earlier
          · exact absurd (congrArg Day.mk same) own

/-- The slot of today gives the findings back, once the same is found again. -/
theorem Kept.restored (kept : Kept slot today interval found findings)
    (newestFirst : findings.Pairwise fun a b => b.finish.ms ≤ a.finish.ms) (settings : ChartSettings) :
    absorbed interval (clearBefore today (start settings ((slot today).getD [])).findings) found =
      findings := by
  rcases kept.standing with ⟨slot, own, again⟩ | ⟨slot, rfl, -⟩
  · have sorted : findings.reverse.mergeSort (fun a b => a.finish.ms ≤ b.finish.ms) = findings.reverse :=
      List.mergeSort_of_pairwise (List.pairwise_reverse.mpr (newestFirst.imp fun h => decide_eq_true h))
    rw [slot, Option.getD_some, start, sorted, List.reverse_reverse, clearBefore_of_today own, again]
  · rw [slot, Option.getD_none, start, List.mergeSort_nil]
    exact absorbed_nil interval found

end Slots
end TickerBoard.Chart

import TickerBoard.Proofs.Chart.Closed
import TickerBoard.Proofs.Chart.Findings
import TickerBoard.Proofs.Chart.Window

/-! Updates while a candle is forming.

A bar of the forming candle's interval leaves the closed candles and the days
that are shown as they were, so the same is detected again (`Reads.within`).
Whether the chart takes it for new hangs on one thing: a divergence that ended
on a day before that of the forming candle is dropped before each detection and
found after it. A chart that has one is `stale`. The update of any other leaves
its findings alone and is silent; a stale one is left with its newest finding
and announces it each time (`update_within`). -/
namespace TickerBoard

section Turn
variable {α : Type} {bars more : List (Bar α)} {a b : Bar α}

theorem InTurn.head (turn : InTurn (bars ++ more)) : InTurn bars :=
  ⟨fun b hb => turn.traded b (List.mem_append_left _ hb), (List.pairwise_append.mp turn.ascending).1⟩

/-- The last of some bars in turn is no later than the last of all. -/
theorem InTurn.getLast_le (turn : InTurn (bars ++ more)) (ha : bars.getLast? = some a)
    (hb : (bars ++ more).getLast? = some b) : a.time.ms ≤ b.time.ms := by
  rw [List.getLast?_append] at hb
  cases last : more.getLast? with
  | none =>
    rw [last, Option.none_or, ha] at hb
    rw [Option.some.inj hb]
  | some c =>
    rw [last, Option.some_or] at hb
    obtain rfl := Option.some.inj hb
    exact Int.le_of_lt ((List.pairwise_append.mp turn.ascending).2.2 a (List.mem_of_getLast? ha) c
      (List.mem_of_getLast? last))

end Turn

namespace Candle
variable {α : Type}

/-- Two bars fall into one interval. -/
def SameInterval (minutes : Nat) (a b : Bar α) : Prop :=
  intervalStart (width minutes) a.time = intervalStart (width minutes) b.time

/-- So do bars between them. -/
theorem SameInterval.between {minutes : Nat} {a b c : Bar α} (h : SameInterval minutes a c)
    (first : a.time.ms ≤ b.time.ms) (last : b.time.ms ≤ c.time.ms) :
    SameInterval minutes a b ∧ SameInterval minutes b c := by
  have lower := intervalStart_mono (width minutes) (width_pos minutes) first
  have upper := intervalStart_mono (width minutes) (width_pos minutes) last
  unfold SameInterval at h ⊢
  omega

/-- The days that are taken hang on the starts of the candles alone. -/
theorem takeDays_same_starts {clock : SessionClock} {limit : Nat} {seen : List Day}
    {candles candles' taken : List (Candle α)} (same : candles'.map (·.start) = candles.map (·.start))
    (h : takeDays clock limit seen candles = some taken) :
    takeDays clock limit seen candles' = some (candles'.take taken.length) := by
  induction candles generalizing candles' seen taken with
  | nil =>
    obtain rfl := List.map_eq_nil_iff.mp same
    obtain rfl := Option.some.inj h
    rfl
  | cons c rest ih =>
    cases candles' with
    | nil => cases same
    | cons c' rest' =>
      obtain ⟨first, others⟩ := List.cons.inj same
      have first : c'.start = c.start := first
      rw [takeDays] at h ⊢
      rw [first]
      split at h
      · cases h
      · split at h
        · rename_i met
          obtain ⟨more, later, rfl⟩ := Option.map_eq_some_iff.mp h
          rw [if_pos met, ih others later]
          rfl
        · rename_i new
          split at h
          · rename_i full
            obtain rfl := Option.some.inj h
            rw [if_neg new, if_pos full]
            rfl
          · rename_i room
            obtain ⟨more, later, rfl⟩ := Option.map_eq_some_iff.mp h
            rw [if_neg new, if_neg room, ih others later]
            rfl

/-- Candles with the same starts are cut at the same place. -/
theorem trimDays_same_starts {clock : SessionClock} {days : Nat} {candles candles' series : List (Candle α)}
    (same : candles'.map (·.start) = candles.map (·.start)) (h : trimDays? clock days candles = some series) :
    ∃ k, series = candles.drop k ∧ trimDays? clock days candles' = some (candles'.drop k) := by
  have suffix := List.suffix_iff_eq_drop.mp (trimDays_spec h).1
  have lengths := congrArg List.length same
  rw [List.length_map, List.length_map] at lengths
  obtain ⟨taken, newest, rfl⟩ := Option.map_eq_some_iff.mp h
  have reversed : candles'.reverse.map (·.start) = candles.reverse.map (·.start) := by
    rw [List.map_reverse, List.map_reverse, same]
  refine ⟨_, suffix, ?_⟩
  rw [trimDays?, takeDays_same_starts reversed newest, Option.map_some, List.take_reverse, List.reverse_reverse,
    lengths, List.length_reverse]

variable [Scalar α] {bars : List (Bar α)} {a b : Bar α} {minutes : Nat}

/-- A bar of the forming candle's interval moves no candle, and no closed one changes, unless
the interval was lost or is now. -/
theorem resample_within (h : InTurn (bars ++ [b])) (last : bars.getLast? = some a)
    (same : SameInterval minutes a b) (stood : Stands minutes bars a) (stands : Stands minutes (bars ++ [b]) b) :
    (resample (bars ++ [b]) minutes).dropLast = (resample bars minutes).dropLast ∧
      starts (bars ++ [b]) minutes = starts bars minutes := by
  obtain ⟨before, -, newer⟩ := inTurn_concat.mp h
  have laid := laid_foldl (width_pos minutes) before
  rcases gather_cases (width_pos minutes) laid newer with ⟨older, c, split, gathered⟩ | ⟨smaller, -⟩
  · have gathered : ((bars ++ [b]).foldl (gather (width minutes)) Table.empty).entries =
        older ++ [(intervalStart (width minutes) b.time, c.extend b)] := by
      rw [List.foldl_append, List.foldl_cons, List.foldl_nil, gathered]
    have heavy : 0 < c.volume := by
      refine stood.volume_pos ?_
      rw [split, same]
      exact List.mem_append_right _ (List.mem_singleton.mpr rfl)
    have heavier : 0 < (c.extend b).volume := by
      refine stands.volume_pos ?_
      rw [gathered]
      exact List.mem_append_right _ (List.mem_singleton.mpr rfl)
    have shown : resample bars minutes = (older.map (·.2)).filter (fun c => 0 < c.volume) ++ [c] := by
      simp only [resample, Table.values, split]
      simp [heavy]
    have shown' : resample (bars ++ [b]) minutes =
        (older.map (·.2)).filter (fun c => 0 < c.volume) ++ [c.extend b] := by
      simp only [resample, Table.values, gathered]
      simp [heavier]
    rw [starts, starts, shown, shown', List.dropLast_concat, List.dropLast_concat]
    exact ⟨rfl, by simp [extend]⟩
  · -- the interval of the last bar has a candle, which is not before itself
    have newest := laid.newest
    rw [last, Option.map_some] at newest
    obtain ⟨e, he, own⟩ := Option.map_eq_some_iff.mp newest
    have := smaller e (List.mem_of_getLast? he)
    rw [own, same] at this
    exact absurd this (Int.lt_irrefl _)

/-- Candles with the column of the oscillator and no average. -/
theorem withoutAverage_addIndicators (candles : List (Candle α)) (rsiPeriod averagePeriod : Nat) :
    (addIndicators candles rsiPeriod averagePeriod).map withoutAverage =
      (candles.zip (Rsi.column (candles.map (·.closing)) rsiPeriod)).map
        fun (c, rsi) => { c with rsi, average := none } := by
  have columns : (Rsi.column (candles.map (·.closing)) rsiPeriod).length ≤
      (Ema.column (candles.map (·.closing)) averagePeriod).length := by
    simp [Rsi.column, Ema.column, length_alignTail]
  rw [addIndicators, List.map_map]
  conv_rhs => rw [← List.map_fst_zip columns, List.zip_map_right, List.map_map]
  rfl

/-- What a detection looks at hangs on the closed candles, unless a reading is lost or won
back with the forming one. -/
theorem dropLast_withoutAverage {candles candles' : List (Candle α)} {rsiPeriod : Nat}
    (length : candles'.length = candles.length) (same : candles'.dropLast = candles.dropLast)
    (many : (Rsi.values (candles'.map (·.closing)) rsiPeriod).length =
      (Rsi.values (candles.map (·.closing)) rsiPeriod).length) (averagePeriod : Nat) :
    ((addIndicators candles' rsiPeriod averagePeriod).map withoutAverage).dropLast =
      ((addIndicators candles rsiPeriod averagePeriod).map withoutAverage).dropLast := by
  have readings := Rsi.dropLast_column (by rw [List.length_map, List.length_map, length])
    (by rw [← List.map_dropLast, ← List.map_dropLast, same]) many
  have split : ∀ candles : List (Candle α),
      (candles.zip (Rsi.column (candles.map (·.closing)) rsiPeriod)).dropLast =
        candles.dropLast.zip (Rsi.column (candles.map (·.closing)) rsiPeriod).dropLast := by
    intro candles
    have column : (Rsi.column (candles.map (·.closing)) rsiPeriod).length = candles.length := by
      rw [Rsi.column, length_alignTail, List.length_map]
    simp only [List.dropLast_eq_take, List.zip_eq_zipWith, List.length_zipWith, List.take_zipWith, column,
      Nat.min_self]
  rw [withoutAverage_addIndicators, withoutAverage_addIndicators, ← List.map_dropLast, ← List.map_dropLast, split,
    split, same, readings]

end Candle

namespace Chart
variable {α : Type} [Angular α]

/-- How many readings the oscillator has over a history. -/
def readings (rules : ChartRules α) (settings : ChartSettings) (history : List (Bar α)) : Nat :=
  (Rsi.values ((Candle.resample history settings.minutes).map (·.closing)) rules.rsiPeriod).length

/-- A history grew by bars of the forming candle's interval, none of which made the oscillator
lose a reading or win one back, or the candle its volume. -/
structure Forming (rules : ChartRules α) (settings : ChartSettings) (before after : List (Bar α)) : Prop where
  interval : ∃ a b, before.getLast? = some a ∧ after.getLast? = some b ∧ Candle.SameInterval settings.minutes a b
  readings : ∀ history, before <+: history → history <+: after →
    readings rules settings history = readings rules settings before
  stands : ∀ history b, before <+: history → history <+: after → history.getLast? = some b →
    Candle.Stands settings.minutes history b

/-- A session's findings are stale if the newest ended on a day before that of the forming
candle: the next update drops them. -/
def stale (clock : SessionClock) (c : Chart α) : Bool :=
  c.settings.sessionScoped && ((c.series.getLast?.map (·.start)).bind clock.day?).any fun today =>
    c.findings.head?.any (·.day.number < today.number)

/-- A chart as an update over a history has left it, if what is detected equals itself. -/
def Current (rules : ChartRules α) (symbol : String) (history : List (Bar α)) (c : Chart α) : Prop :=
  ∃ former kept found, Reads rules symbol history c.settings c.series found ∧
    retained? rules c.settings c.series former = some kept ∧ c.findings = absorbed c.interval kept found ∧
    ∀ d, found = some d → d.same d = true

variable {rules : ChartRules α} {symbol : String} {history : List (Bar α)} {settings : ChartSettings}
  {series : List (Candle α)} {found : Option (Divergence α)} {a b : Bar α}

theorem forming_concat (last : history.getLast? = some a) (same : Candle.SameInterval settings.minutes a b)
    (many : readings rules settings (history ++ [b]) = readings rules settings history)
    (stood : Candle.Stands settings.minutes history a) (stands : Candle.Stands settings.minutes (history ++ [b]) b) :
    Forming rules settings history (history ++ [b]) := by
  refine ⟨⟨a, b, last, List.getLast?_concat, same⟩, fun between first rest => ?_, fun between e first rest he => ?_⟩
  · rcases List.prefix_concat_iff.mp rest with rfl | rest
    · exact many
    · rw [rest.eq_of_length_le first.length_le]
  · rcases List.prefix_concat_iff.mp rest with rfl | rest
    · rw [List.getLast?_concat] at he
      exact Option.some.inj he ▸ stands
    · rw [rest.eq_of_length_le first.length_le] at he ⊢
      exact Option.some.inj (last.symm.trans he) ▸ stood

/-- What holds of all the bars holds of the first of them, and of the others after these. -/
theorem Forming.split {more later : List (Bar α)} (forming : Forming rules settings history (history ++ more ++ later))
    (turn : InTurn (history ++ more ++ later)) :
    Forming rules settings history (history ++ more) ∧
      Forming rules settings (history ++ more) (history ++ more ++ later) := by
  obtain ⟨⟨a, c, first, last, same⟩, many, stands⟩ := forming
  obtain ⟨b, middle⟩ : ∃ b, (history ++ more).getLast? = some b := by
    rw [List.getLast?_append, first]
    cases more.getLast? <;> exact ⟨_, rfl⟩
  have turn' : InTurn (history ++ more) := turn.head
  obtain ⟨before, after⟩ := same.between (turn'.getLast_le first middle) (turn.getLast_le middle last)
  have grown : history <+: history ++ more := List.prefix_append ..
  have whole : history ++ more <+: history ++ more ++ later := List.prefix_append ..
  refine ⟨⟨⟨a, b, first, middle, before⟩, fun h from_ upTo => many h from_ (upTo.trans whole),
      fun h b from_ upTo => stands h b from_ (upTo.trans whole)⟩,
    ⟨⟨b, c, middle, last, after⟩, fun h from_ upTo => ?_, fun h b from_ => stands h b (grown.trans from_)⟩⟩
  rw [many h (grown.trans from_) upTo, many _ grown whole]

/-- With a bar of the forming candle's interval the same is detected, and the last candle
stays where it is. -/
theorem Reads.within (reads : Reads rules symbol history settings series found) (turn : InTurn (history ++ [b]))
    (forming : Forming rules settings history (history ++ [b])) :
    ∃ series', Reads rules symbol (history ++ [b]) settings series' found ∧
      series'.getLast?.map (·.start) = series.getLast?.map (·.start) := by
  obtain ⟨⟨a, b', last, newest, same⟩, many, stands⟩ := forming
  rw [List.getLast?_concat, Option.some.injEq] at newest
  subst newest
  have many := many (history ++ [b]) (List.prefix_append ..) List.prefix_rfl
  obtain ⟨closed, starts⟩ := Candle.resample_within turn last same
    (stands history a List.prefix_rfl (List.prefix_append ..) last)
    (stands _ b (List.prefix_append ..) List.prefix_rfl List.getLast?_concat)
  have length : (Candle.resample (history ++ [b]) settings.minutes).length =
      (Candle.resample history settings.minutes).length := by
    simpa [Candle.starts] using congrArg List.length starts
  have looked := Candle.dropLast_withoutAverage length closed many settings.averagePeriod
  have places : ∀ history : List (Bar α), (Candle.addIndicators (Candle.resample history settings.minutes)
      rules.rsiPeriod settings.averagePeriod).map (·.start) = Candle.starts history settings.minutes :=
    fun _ => Candle.map_start_addIndicators ..
  obtain ⟨k, rfl, trimmed⟩ := Candle.trimDays_same_starts
    ((places (history ++ [b])).trans (starts.trans (places history).symm)) reads.shown
  have shown : seriesOf? rules settings (history ++ [b]) = some _ := trimmed
  refine ⟨_, ⟨shown, ?_⟩, ?_⟩
  · rw [← reads.detected]
    refine Detection.detect?_eq symbol rules.detection rules.clock ?_
    rw [List.map_drop, List.map_drop, List.dropLast_drop_eq_drop_dropLast, List.dropLast_drop_eq_drop_dropLast, looked]
  · rw [getLast?_seriesOf shown, starts, ← getLast?_seriesOf reads.shown]

/-- What remains of findings is nothing if they are stale, else all of them. -/
theorem retained_eq (shown : seriesOf? rules settings history = some series) (findings : List (Divergence α)) :
    retained? rules settings series findings =
      some (if stale rules.clock ⟨settings, series, findings⟩ then [] else findings) := by
  cases session : settings.sessionScoped with
  | false => simp [retained?, stale, session]
  | true =>
    cases last : series.getLast? with
    | none => simp [retained?, stale, session, last]
    | some c =>
      obtain ⟨day, dated⟩ := day_seriesOf shown (List.mem_of_getLast? last)
      simp [retained?, stale, session, last, dated, clearBefore]

/-- The divergence that was taken is the newest finding. -/
theorem fresh_absorbed (own : ∀ d, found = some d → d.same d = true) (interval : Int)
    (findings : List (Divergence α)) : fresh (absorbed interval findings found) found = none := by
  cases h : fresh findings found with
  | none => rw [absorbed_of_fresh_none h, h]
  | some d =>
    obtain ⟨rfl, taken⟩ := absorbed_of_fresh_some interval h
    simp [taken, recorded, fresh, isNewest, own d rfl]

/-- Findings that are stale after an update lead with what it detected. -/
theorem head?_of_stale {c : Chart α} {former kept : List (Divergence α)}
    (retained : retained? rules c.settings c.series former = some kept)
    (taken : c.findings = absorbed c.interval kept found) (old : c.stale rules.clock = true) :
    c.findings.head? = found := by
  cases h : fresh kept found with
  | some d =>
    obtain ⟨rfl, -⟩ := absorbed_of_fresh_some c.interval h
    rw [taken, head?_absorbed h]
  | none =>
    -- what remained after the last update is not stale
    rw [absorbed_of_fresh_none h] at taken
    simp only [stale, Bool.and_eq_true] at old
    obtain ⟨session, old⟩ := old
    cases last : c.series.getLast? with
    | none => simp [last] at old
    | some forming =>
      simp only [last, Option.map_some, Option.bind_some] at old
      cases dated : rules.clock.day? forming.start with
      | none => simp [dated] at old
      | some today =>
        rw [retained?, session, last] at retained
        simp only [dated, Option.map_some, Option.some.injEq] at retained
        rw [dated, Option.any_some, taken, ← retained, clearBefore] at old
        split at old
        · simp at old
        · contradiction

theorem current_of_update {c c' : Chart α} {new : Option (Divergence α)}
    (updated : c.update? rules symbol history = some (c', new))
    (own : ∀ d, Reads rules symbol history c.settings c'.series (some d) → d.same d = true) :
    Current rules symbol history c' := by
  obtain ⟨kept, found, reads, retained, made, -⟩ := update_spec updated
  refine ⟨c.findings, kept, found, ?_⟩
  rw [made]
  exact ⟨reads, retained, rfl, fun d hd => own d (hd ▸ reads)⟩

/-- A bar of the forming candle's interval leaves a chart alone unless its findings are stale:
then the newest is dropped and found again, each time. -/
theorem Current.update_within {c : Chart α} (current : Current rules symbol history c)
    (turn : InTurn (history ++ [b])) (forming : Forming rules c.settings history (history ++ [b])) :
    ∃ c' new, c.update? rules symbol (history ++ [b]) = some (c', new) ∧
      Current rules symbol (history ++ [b]) c' ∧ c'.stale rules.clock = c.stale rules.clock ∧
      c'.findings = (if c.stale rules.clock then c.findings.take 1 else c.findings) ∧
      new.isSome = c.stale rules.clock := by
  obtain ⟨former, kept, found, reads, retained, taken, own⟩ := current
  obtain ⟨series', reads', place⟩ := reads.within turn forming
  have again := retained_eq reads'.shown c.findings
  have asBefore : stale rules.clock ⟨c.settings, series', c.findings⟩ = c.stale rules.clock := by
    simp only [stale, place]
  rw [asBefore] at again
  cases old : c.stale rules.clock with
  | false =>
    rw [old, if_neg Bool.false_ne_true] at again
    have same : absorbed c.interval c.findings found = c.findings := by
      rw [taken, absorbed_absorbed c.interval_nonneg]
    have silent : fresh c.findings found = none := by
      rw [taken, fresh_absorbed own]
    refine ⟨_, _, update_of_reads reads' again, ⟨c.findings, c.findings, found, reads', again, rfl, own⟩, ?_, ?_, ?_⟩
    · rw [same, asBefore, old]
    · exact same
    · rw [silent]
      rfl
  | true =>
    rw [old, if_pos rfl] at again
    have newest := head?_of_stale retained taken old
    have left : absorbed c.interval [] found = c.findings.take 1 := by
      rw [absorbed_nil, ← newest, List.take_one]
    refine ⟨_, _, update_of_reads reads' again, ⟨c.findings, [], found, reads', again, rfl, own⟩, ?_, ?_, ?_⟩
    · rw [left, ← old, ← asBefore]
      simp only [stale, List.head?_take]
      rfl
    · exact left
    · simp only [stale, Bool.and_eq_true, Option.any_eq_true] at old
      obtain ⟨-, today, -, d, front, -⟩ := old
      rw [fresh_nil, ← newest, front]
      rfl

end Chart
end TickerBoard

import Mathlib.Data.List.Induction
import TickerBoard.Proofs.Service.Courses

/-! Registry, slots, books, session and exchange agree after every call.

Users subscribe and unsubscribe in any order while the exchange takes or
rejects each stream request as it likes. `Agrees` is what no call breaks
(`agrees_call`). Only one thing can go astray: a subscription that fails and
whose undoing is rejected leaves its symbol in the chart stream, until a later
removal of it is taken (`leaked_of_streamed`). `calls_agree` puts this together
with what a failed call leaves. -/
namespace TickerBoard

/-! ### Who listens -/

def Subscription.listens (s : Subscription) : StreamKind → Bool
  | .chart => !s.charts.isEmpty
  | .quote => s.quotes

/-- The subscription of a symbol listens to a kind of stream. -/
def Registry.listens (r : Registry) (kind : StreamKind) (symbol : String) : Bool :=
  (r.find? symbol).any (·.listens kind)

theorem Registry.listens_of_find? {r : Registry} {symbol : String} {sub : Subscription}
    (h : r.find? symbol = some sub) (kind : StreamKind) : r.listens kind symbol = sub.listens kind := by
  rw [listens, h]
  rfl

theorem Registry.isSubscribed_of_listens {r : Registry} {kind : StreamKind} {symbol : String}
    (h : r.listens kind symbol = true) : r.isSubscribed symbol = true := by
  obtain ⟨sub, found, -⟩ := (Option.any_eq_true _ _).mp h
  rw [isSubscribed, found]
  rfl

theorem Registry.listens_insert (r : Registry) (symbol : String) (sub : Subscription) (kind : StreamKind)
    (name : String) :
    (⟨r.entries.insert symbol sub⟩ : Registry).listens kind name =
      if symbol = name then sub.listens kind else r.listens kind name := by
  simp only [listens, find?, Table.find?_insert]
  split <;> simp

/-- What a teardown that succeeded leaves listening. -/
theorem Registry.listens_detach_ok (r : Registry) (symbol : String) (charts : Bool) (kind : StreamKind) (name : String) :
    (r.detach symbol ⟨charts, .ok ()⟩).1.listens kind name = (decide (symbol ≠ name) && r.listens kind name) := by
  simp only [listens, find?, detach, Table.find?_erase]
  by_cases same : symbol = name <;> simp [same]

/-- What a teardown that failed after the charts leaves listening. -/
theorem Registry.listens_detach_error (r : Registry) (symbol : String) (f : Fault) (kind : StreamKind) (name : String) :
    (r.detach symbol ⟨true, .error f⟩).1.listens kind name =
      (decide (kind = .chart → symbol ≠ name) && r.listens kind name) := by
  simp only [listens, find?, detach, if_true, Table.find?_modify]
  by_cases same : symbol = name
  · cases kind <;> cases r.entries.find? name <;> simp [same, Subscription.listens]
  · simp [same]

/-- The desk without the listeners of a symbol's charts. -/
def Desk.withoutCharts (d : Desk) (symbol : String) : Desk :=
  { d with
    registry := ⟨d.registry.entries.modify symbol fun sub => { sub with charts := [] }⟩
    slots := d.slots.erase symbol }

/-- The desk without a symbol. -/
def Desk.withoutSymbol (d : Desk) (symbol : String) : Desk :=
  { d with
    registry := ⟨d.registry.entries.erase symbol⟩
    slots := d.slots.erase symbol
    books := d.books.erase symbol }

theorem Desk.detach_ok (d : Desk) (symbol : String) :
    d.detach symbol ⟨true, .ok ()⟩ = d.withoutSymbol symbol := rfl

theorem Desk.detach_error (d : Desk) (symbol : String) (f : Fault) :
    d.detach symbol ⟨true, .error f⟩ = d.withoutCharts symbol := rfl

namespace Desk

@[simp] theorem listens_withoutSymbol (d : Desk) (symbol : String) (kind : StreamKind) (name : String) :
    (d.withoutSymbol symbol).registry.listens kind name =
      (decide (symbol ≠ name) && d.registry.listens kind name) :=
  Registry.listens_detach_ok d.registry symbol true kind name

@[simp] theorem isSubscribed_withoutSymbol (d : Desk) (symbol name : String) :
    (d.withoutSymbol symbol).registry.isSubscribed name =
      (decide (symbol ≠ name) && d.registry.isSubscribed name) := by
  simp only [Registry.isSubscribed, Registry.find?, withoutSymbol, Table.find?_erase]
  by_cases same : symbol = name <;> simp [same]

@[simp] theorem listens_withoutCharts (d : Desk) (symbol : String) (kind : StreamKind) (name : String) :
    (d.withoutCharts symbol).registry.listens kind name =
      (decide (kind = .chart → symbol ≠ name) && d.registry.listens kind name) :=
  Registry.listens_detach_error d.registry symbol (.plain "") kind name

@[simp] theorem isSubscribed_withoutCharts (d : Desk) (symbol name : String) :
    (d.withoutCharts symbol).registry.isSubscribed name = d.registry.isSubscribed name := by
  simp only [Registry.isSubscribed, Registry.find?, withoutCharts, Table.find?_modify]
  split <;> simp

end Desk

namespace Service
variable {σ β : Type}

/-! ### The invariant -/

/-- What registry, slots, books, session and exchange always agree on. -/
structure Agrees (s : Service σ (Recorded β)) : Prop where
  slots : ∀ symbol, (s.desk.slots.find? symbol).isSome = s.desk.registry.listens .chart symbol
  books : ∀ symbol, (s.desk.books.find? symbol).isSome = s.desk.registry.isSubscribed symbol
  streams : ∀ kind symbol, s.desk.registry.listens kind symbol = true →
    (kind, symbol) ∈ streamed s.brokerage.asked
  quotes : ∀ symbol, (.quote, symbol) ∈ streamed s.brokerage.asked →
    s.desk.registry.listens .quote symbol = true
  knows : s.session.Knows s.brokerage.asked

/-- As long as the desk stays, only the charts of symbols without a subscription may change. -/
theorem Agrees.of_desk {s s' : Service σ (Recorded β)} (agrees : s.Agrees) (desk : s'.desk = s.desk)
    (knows : s'.session.Knows s'.brokerage.asked)
    (streams : ∀ e : Streamed, (e.1 = .chart → s.desk.registry.isSubscribed e.2 = true) →
      (e ∈ streamed s'.brokerage.asked ↔ e ∈ streamed s.brokerage.asked)) : s'.Agrees := by
  refine ⟨?_, ?_, fun kind symbol h => ?_, fun symbol h => ?_, knows⟩ <;> rw [desk] at *
  · exact agrees.slots
  · exact agrees.books
  · exact (streams _ fun _ => Registry.isSubscribed_of_listens h).mpr (agrees.streams kind symbol h)
  · exact agrees.quotes symbol ((streams _ fun h => by cases h).mp h)

theorem mem_streamed_undone {s : Service σ (Recorded β)} (knows : s.session.Knows s.brokerage.asked)
    (symbol : String) (undo : Bool) (e : Streamed) :
    e ∈ streamed (s.brokerage.asked ++ [⟨s.session.entry .chart symbol, true⟩] ++
        [⟨(s.session.entered .chart).entry .quote symbol, false⟩] ++ [⟨.removal .chart symbol, undo⟩]) ↔
      (e ∈ streamed s.brokerage.asked ∨ e = (.chart, symbol)) ∧ (undo = true → e ≠ (.chart, symbol)) := by
  cases undo with
  | true =>
    rw [mem_streamed_removed, streamed_rejected, knows.mem_streamed_entered]
    simp
  | false =>
    rw [streamed_rejected, streamed_rejected, knows.mem_streamed_entered]
    simp

theorem mem_streamed_installed {s : Service σ (Recorded β)} (knows : s.session.Knows s.brokerage.asked)
    (symbol : String) (e : Streamed) :
    e ∈ streamed (s.brokerage.asked ++ [⟨s.session.entry .chart symbol, true⟩] ++
        [⟨(s.session.entered .chart).entry .quote symbol, true⟩]) ↔
      e ∈ streamed s.brokerage.asked ∨ e.2 = symbol := by
  rw [(knows.entered .chart symbol).mem_streamed_entered, knows.mem_streamed_entered]
  obtain ⟨kind, name⟩ := e
  cases kind <;> simp

theorem mem_streamed_detached (asked : List Asked) (symbol : String) (sub : Subscription)
    (result : Except Fault Unit) (e : Streamed) :
    e ∈ streamed (asked ++ (if sub.charts.isEmpty then [] else [⟨.removal .chart symbol, true⟩]) ++
        if sub.quotes then [⟨.removal .quote symbol, result.isOk⟩] else []) ↔
      e ∈ streamed asked ∧ (sub.listens .chart = true → e ≠ (.chart, symbol)) ∧
        (sub.listens .quote = true → result.isOk = true → e ≠ (.quote, symbol)) := by
  have charts : e ∈ streamed (asked ++ if sub.charts.isEmpty then [] else [⟨.removal .chart symbol, true⟩]) ↔
      e ∈ streamed asked ∧ (sub.listens .chart = true → e ≠ (.chart, symbol)) := by
    cases h : sub.charts.isEmpty <;> simp [Subscription.listens, h]
  rw [← and_assoc, ← charts]
  generalize asked ++ (if sub.charts.isEmpty then [] else [⟨.removal .chart symbol, true⟩]) = before
  cases quoted : sub.quotes with
  | false => simp [Subscription.listens, quoted]
  | true =>
    cases h : result.isOk <;> simp [Subscription.listens, quoted]

theorem agrees_subscribing {s s' : Service σ (Recorded β)} {result : Except Failure Unit}
    (agrees : s.Agrees) (course : Subscribing s s' result) : s'.Agrees := by
  cases course with
  | unasked e desk session asked =>
    refine agrees.of_desk desk ?_ fun e _ => by rw [asked]
    rw [session, asked]
    exact agrees.knows
  | rejected e symbol desk session asked =>
    refine agrees.of_desk desk ?_ fun e _ => by rw [asked, streamed_rejected]
    rw [session, asked]
    exact agrees.knows.mono fun e he => by rwa [streamed_rejected] at he
  | undone e symbol undo new desk session asked =>
    refine agrees.of_desk desk ?_ fun e subscribed => ?_
    · rw [session, asked]
      refine (agrees.knows.entered .chart symbol).mono fun e he => ?_
      rw [agrees.knows.mem_streamed_entered]
      exact ((mem_streamed_undone agrees.knows symbol undo e).mp he).1
    · have other : e ≠ (.chart, symbol) := by
        rintro rfl
        exact absurd (subscribed rfl) (by simp [new])
      rw [asked, mem_streamed_undone agrees.knows]
      simp [other]
  | installed m registry slots books session asked =>
    have carried := mem_streamed_installed agrees.knows m.symbol
    have listens : ∀ kind name, s'.desk.registry.listens kind name =
        (decide (m.symbol = name) || s.desk.registry.listens kind name) := by
      intro kind name
      rw [registry, Registry.listens_insert]
      by_cases same : m.symbol = name
      · cases kind <;> simp [same, Subscription.listens, Subscription.full]
      · simp [same]
    refine ⟨fun name => ?_, fun name => ?_, fun kind name h => ?_, fun name h => ?_, ?_⟩
    · rw [listens, slots, Table.find?_insert, ← agrees.slots]
      by_cases same : m.symbol = name <;> simp [same]
    · have := agrees.books name
      simp only [books, registry, Registry.isSubscribed, Registry.find?, Table.find?_insert] at this ⊢
      by_cases same : m.symbol = name <;> simp [same, this]
    · rw [asked, carried]
      rw [listens, Bool.or_eq_true, decide_eq_true_eq] at h
      rcases h with rfl | h
      · exact .inr rfl
      · exact .inl (agrees.streams kind name h)
    · rw [asked, carried] at h
      rw [listens, Bool.or_eq_true, decide_eq_true_eq]
      rcases h with h | rfl
      · exact .inr (agrees.quotes name h)
      · exact .inl rfl
    · rw [session, asked]
      exact (agrees.knows.entered .chart m.symbol).entered .quote m.symbol

theorem agrees_leaving {symbol : String} {s s' : Service σ (Recorded β)} {result : Except Failure Unit}
    (agrees : s.Agrees) (course : Leaving symbol s s' result) : s'.Agrees := by
  cases course with
  | unasked e desk session asked =>
    refine agrees.of_desk desk ?_ fun e _ => by rw [asked]
    rw [session, asked]
    exact agrees.knows
  | rejected e desk session asked =>
    refine agrees.of_desk desk ?_ fun e _ => by rw [asked, streamed_rejected]
    rw [session, asked]
    exact agrees.knows.mono fun e he => by rwa [streamed_rejected] at he
  | detached sub result found unquoted desk session asked =>
    have own := Registry.listens_of_find? found
    have carried := mem_streamed_detached s.brokerage.asked symbol sub result
    have knows : s'.session.Knows s'.brokerage.asked := by
      rw [session, asked]
      exact agrees.knows.mono fun e he => ((carried e).mp he).1
    cases result with
    | ok _ =>
      rw [Desk.detach_ok] at desk
      refine ⟨fun name => ?_, fun name => ?_, fun kind name h => ?_, fun name h => ?_, knows⟩
      · rw [desk, Desk.listens_withoutSymbol, ← agrees.slots]
        simp only [Desk.withoutSymbol, Table.find?_erase]
        by_cases same : symbol = name <;> simp [same]
      · rw [desk, Desk.isSubscribed_withoutSymbol, ← agrees.books]
        simp only [Desk.withoutSymbol, Table.find?_erase]
        by_cases same : symbol = name <;> simp [same]
      · rw [desk, Desk.listens_withoutSymbol, Bool.and_eq_true, decide_eq_true_eq] at h
        rw [asked, carried]
        simp [agrees.streams kind name h.2, Ne.symm h.1]
      · rw [asked, carried] at h
        have before := agrees.quotes name h.1
        rw [desk, Desk.listens_withoutSymbol, before, Bool.and_true, decide_eq_true_eq]
        rintro rfl
        exact h.2.2 ((own .quote).symm.trans before) rfl rfl
    | error f =>
      rw [Desk.detach_error] at desk
      refine ⟨fun name => ?_, fun name => ?_, fun kind name h => ?_, fun name h => ?_, knows⟩
      · rw [desk, Desk.listens_withoutCharts, ← agrees.slots]
        simp only [Desk.withoutCharts, Table.find?_erase]
        by_cases same : symbol = name <;> simp [same]
      · rw [desk, Desk.isSubscribed_withoutCharts, ← agrees.books]
        rfl
      · rw [desk, Desk.listens_withoutCharts, Bool.and_eq_true, decide_eq_true_eq] at h
        rw [asked, carried]
        refine ⟨agrees.streams kind name h.2, fun _ same => ?_, fun _ taken => by cases taken⟩
        obtain ⟨rfl, rfl⟩ := Prod.mk.inj same
        exact h.1 rfl rfl
      · rw [asked, carried] at h
        rw [desk, Desk.listens_withoutCharts, agrees.quotes name h.1]
        rfl

/-- The service with an empty desk and a closed session, whose stream requests are noted
from now on. -/
def idle (s : Service σ β) : Service σ (Recorded β) :=
  { s with desk := .empty, session := .start, brokerage := ⟨s.brokerage, []⟩ }

theorem agrees_idle (s : Service σ β) : s.idle.Agrees :=
  ⟨fun _ => rfl, fun _ => rfl, fun _ _ h => (nomatch h), fun _ h => (nomatch h), StreamSession.knows_start⟩

/-! ### Symbols that stay in the chart stream -/

theorem entry_ne_removal (session : StreamSession) (kind : StreamKind) (symbol : String)
    (r : StreamRequest) (removal : r.op = .remove) : session.entry kind symbol ≠ r := by
  rintro rfl
  simp only [StreamSession.entry, StreamSession.entering] at removal
  split at removal <;> cases removal

/-- What a subscription asks has not removed a symbol that is still in the chart stream. -/
theorem Subscribing.unremoved {s s' : Service σ (Recorded β)} {result : Except Failure Unit}
    (agrees : s.Agrees) (course : Subscribing s s' result) {symbol : String}
    (still : (.chart, symbol) ∈ streamed s'.brokerage.asked) :
    ∃ later, s'.brokerage.asked = s.brokerage.asked ++ later ∧
      ⟨.removal .chart symbol, true⟩ ∉ later := by
  have entry : ∀ session : StreamSession, ∀ kind name, session.entry kind name ≠ .removal .chart symbol :=
    fun session kind name => entry_ne_removal session kind name _ rfl
  cases course with
  | unasked e desk session asked => exact ⟨[], by rw [asked, List.append_nil], by simp⟩
  | rejected e name desk session asked => exact ⟨_, asked, by simp⟩
  | undone e name undo new desk session asked =>
    rw [List.append_assoc, List.append_assoc] at asked
    refine ⟨_, asked, ?_⟩
    cases undo with
    | false => simp [(entry s.session .chart name).symm]
    | true =>
      rw [asked, ← List.append_assoc, ← List.append_assoc, mem_streamed_undone agrees.knows] at still
      have other : StreamRequest.removal .chart symbol ≠ .removal .chart name := by
        intro same
        injection same with _ _ symbols
        exact still.2 rfl (by rw [List.singleton_inj.mp symbols])
      simp [(entry s.session .chart name).symm, other]
  | installed m registry slots books session asked =>
    rw [List.append_assoc] at asked
    exact ⟨_, asked, by simp [(entry s.session .chart m.symbol).symm,
      (entry (s.session.entered .chart) .quote m.symbol).symm]⟩

theorem Leaving.unremoved {name : String} {s s' : Service σ (Recorded β)} {result : Except Failure Unit}
    (course : Leaving name s s' result) {symbol : String}
    (still : (.chart, symbol) ∈ streamed s'.brokerage.asked) :
    ∃ later, s'.brokerage.asked = s.brokerage.asked ++ later ∧
      ⟨.removal .chart symbol, true⟩ ∉ later := by
  cases course with
  | unasked e desk session asked => exact ⟨[], by rw [asked, List.append_nil], by simp⟩
  | rejected e desk session asked => exact ⟨_, asked, by simp⟩
  | detached sub result found unquoted desk session asked =>
    rw [asked, mem_streamed_detached] at still
    rw [List.append_assoc] at asked
    refine ⟨_, asked, fun removed => ?_⟩
    rcases List.mem_append.mp removed with charts | quotes
    · split at charts
      · cases charts
      · rename_i charted
        have same : symbol = name := by
          simpa [StreamRequest.removal] using List.mem_singleton.mp charts
        exact still.2.1 (by simpa [Subscription.listens] using charted) (by rw [same])
    · split at quotes
      · simp [StreamRequest.removal] at quotes
      · cases quotes

/-- A subscription that makes a symbol stay in the chart stream fails, and the undoing of
its charts is rejected. -/
theorem Subscribing.leaks {s s' : Service σ (Recorded β)} {result : Except Failure Unit}
    (agrees : s.Agrees) (course : Subscribing s s' result) {symbol : String}
    (still : (.chart, symbol) ∈ streamed s'.brokerage.asked)
    (unheard : s'.desk.registry.listens .chart symbol = false)
    (before : (.chart, symbol) ∈ streamed s.brokerage.asked →
      s.desk.registry.listens .chart symbol = true) :
    (∃ e, result = .error e) ∧
      s'.brokerage.asked = s.brokerage.asked ++ [⟨s.session.entry .chart symbol, true⟩] ++
        [⟨(s.session.entered .chart).entry .quote symbol, false⟩] ++ [⟨.removal .chart symbol, false⟩] := by
  cases course with
  | unasked e desk session asked =>
    rw [asked] at still
    rw [desk, before still] at unheard
    cases unheard
  | rejected e name desk session asked =>
    rw [asked, streamed_rejected] at still
    rw [desk, before still] at unheard
    cases unheard
  | undone e name undo new desk session asked =>
    have carried := still
    rw [asked, mem_streamed_undone agrees.knows] at carried
    obtain ⟨old | same, left⟩ := carried
    · rw [desk, before old] at unheard
      cases unheard
    · obtain ⟨-, rfl⟩ := Prod.mk.inj same
      cases undo with
      | false => exact ⟨⟨e, rfl⟩, asked⟩
      | true => exact absurd rfl (left rfl)
  | installed m registry slots books session asked =>
    rw [asked, mem_streamed_installed agrees.knows] at still
    simp only [registry, Registry.listens, Registry.find?, Table.find?_insert] at unheard
    rcases still with old | rfl
    · have := before old
      rw [Registry.listens, Registry.find?] at this
      split at unheard
      · cases unheard
      · rw [this] at unheard
        cases unheard
    · rw [if_pos rfl] at unheard
      cases unheard

/-- An unsubscription makes no symbol stay in the chart stream. -/
theorem Leaving.heard {name : String} {s s' : Service σ (Recorded β)} {result : Except Failure Unit}
    (course : Leaving name s s' result) {symbol : String}
    (still : (.chart, symbol) ∈ streamed s'.brokerage.asked)
    (before : (.chart, symbol) ∈ streamed s.brokerage.asked →
      s.desk.registry.listens .chart symbol = true) :
    s'.desk.registry.listens .chart symbol = true := by
  cases course with
  | unasked e desk session asked =>
    rw [asked] at still
    rw [desk, before still]
  | rejected e desk session asked =>
    rw [asked, streamed_rejected] at still
    rw [desk, before still]
  | detached sub result found unquoted desk session asked =>
    rw [asked, mem_streamed_detached] at still
    have heard := before still.1
    have other : name ≠ symbol := by
      rintro rfl
      exact still.2.1 ((Registry.listens_of_find? found .chart).symm.trans heard) rfl
    cases result with
    | ok _ => rw [desk, Desk.detach_ok, Desk.listens_withoutSymbol, heard, decide_eq_true other]; rfl
    | error f =>
      rw [desk, Desk.detach_error, Desk.listens_withoutCharts, heard, decide_eq_true fun _ => other]
      rfl

/-! ### Runs of calls -/

/-- A call of a user. -/
inductive Call
  | subscribe (now : Instant) (query : String)
  | unsubscribe (query : String)

section Calls
variable [Store σ] [Brokerage β]

/-- Whether a call succeeds, and the service after it. -/
def call (s : Service σ β) : Call → Except Failure Unit × Service σ β
  | .subscribe now query =>
    ((s.carryOut (subscribe now query)).1.map fun _ => (), (s.carryOut (subscribe now query)).2)
  | .unsubscribe query =>
    ((s.carryOut (unsubscribe query)).1.map fun _ => (), (s.carryOut (unsubscribe query)).2)

/-- The service after calls, whatever came of each. -/
def callAll (s : Service σ β) (calls : List Call) : Service σ β :=
  calls.foldl (fun s c => (s.call c).2) s

theorem callAll_concat (s : Service σ β) (calls : List Call) (c : Call) :
    s.callAll (calls ++ [c]) = ((s.callAll calls).call c).2 := by
  rw [callAll, List.foldl_append]
  rfl

theorem call_subscribe (s : Service σ (Recorded β)) (now : Instant) (query : String) :
    Subscribing s (s.call (.subscribe now query)).2 (s.call (.subscribe now query)).1 := by
  simp only [call]
  exact subscribe_course s now query

theorem call_unsubscribe (s : Service σ (Recorded β)) (query : String) :
    Leaving (leaving query) s (s.call (.unsubscribe query)).2 (s.call (.unsubscribe query)).1 := by
  simp only [call]
  exact unsubscribe_course s query

theorem agrees_call {s : Service σ (Recorded β)} (agrees : s.Agrees) (c : Call) : (s.call c).2.Agrees := by
  cases c with
  | subscribe now query => exact agrees_subscribing agrees (call_subscribe s now query)
  | unsubscribe query => exact agrees_leaving agrees (call_unsubscribe s query)

theorem agrees_callAll {s : Service σ (Recorded β)} (agrees : s.Agrees) (calls : List Call) :
    (s.callAll calls).Agrees := by
  induction calls using List.reverseRecOn with
  | nil => exact agrees
  | append_singleton calls c ih =>
    rw [callAll_concat]
    exact agrees_call ih c

/-- One of the calls was a subscription of the symbol that failed after its charts were
taken, with the undoing of the charts rejected, and no later removal of the charts was
taken. -/
def Leaked (s : Service σ (Recorded β)) (calls : List Call) (symbol : String) : Prop :=
  ∃ before now query after, calls = before ++ .subscribe now query :: after ∧
    let start := s.callAll before
    let failed := start.call (.subscribe now query)
    (∃ e, failed.1 = .error e) ∧
    failed.2.brokerage.asked = start.brokerage.asked ++ [⟨start.session.entry .chart symbol, true⟩] ++
      [⟨(start.session.entered .chart).entry .quote symbol, false⟩] ++
      [⟨.removal .chart symbol, false⟩] ∧
    ∃ later, (s.callAll calls).brokerage.asked = failed.2.brokerage.asked ++ later ∧
      ⟨.removal .chart symbol, true⟩ ∉ later

theorem leaked_of_streamed {s : Service σ (Recorded β)} (agrees : s.Agrees)
    (clean : streamed s.brokerage.asked = []) (calls : List Call) (symbol : String)
    (still : (.chart, symbol) ∈ streamed (s.callAll calls).brokerage.asked)
    (unheard : (s.callAll calls).desk.registry.listens .chart symbol = false) :
    Leaked s calls symbol := by
  induction calls using List.reverseRecOn with
  | nil =>
    rw [callAll, List.foldl_nil, clean] at still
    cases still
  | append_singleton calls c ih =>
    have agrees' := agrees_callAll agrees calls
    have last := callAll_concat s calls c
    rw [last] at still unheard
    by_cases before : (.chart, symbol) ∈ streamed (s.callAll calls).brokerage.asked →
        (s.callAll calls).desk.registry.listens .chart symbol = true
    · cases c with
      | subscribe now query =>
        have course := call_subscribe (s.callAll calls) now query
        obtain ⟨failed, asked⟩ := course.leaks agrees' still unheard before
        exact ⟨calls, now, query, [], rfl, failed, asked, [], by rw [last, List.append_nil], by simp⟩
      | unsubscribe query =>
        have course := call_unsubscribe (s.callAll calls) query
        rw [course.heard still before] at unheard
        cases unheard
    · simp only [Classical.not_imp, Bool.not_eq_true] at before
      obtain ⟨more, asked', unremoved'⟩ : ∃ more, ((s.callAll calls).call c).2.brokerage.asked =
          (s.callAll calls).brokerage.asked ++ more ∧ ⟨.removal .chart symbol, true⟩ ∉ more := by
        cases c with
        | subscribe now query => exact (call_subscribe _ now query).unremoved agrees' still
        | unsubscribe query => exact (call_unsubscribe _ query).unremoved still
      obtain ⟨first, now, query, after, rfl, failed, asked, later, rest, unremoved⟩ := ih before.1 before.2
      refine ⟨first, now, query, after ++ [c], by simp, failed, asked, later ++ more, ?_, ?_⟩
      · rw [last, asked', rest, List.append_assoc]
      · rw [List.mem_append]
        exact fun h => h.elim unremoved unremoved'

/-! ### Failed calls -/

theorem desk_of_subscribe_error {s : Service σ (Recorded β)} {now : Instant} {query : String} {e : Failure}
    (h : (s.call (.subscribe now query)).1 = .error e) :
    (s.call (.subscribe now query)).2.desk = s.desk := by
  have course := call_subscribe s now query
  rw [h] at course
  cases course with
  | unasked e desk session asked => exact desk
  | rejected e name desk session asked => exact desk
  | undone e name undo new desk session asked => exact desk

theorem desk_of_unsubscribe_error {s : Service σ (Recorded β)} {query : String} {e : Failure}
    (h : (s.call (.unsubscribe query)).1 = .error e) :
    (s.call (.unsubscribe query)).2.desk = s.desk ∨
      (s.call (.unsubscribe query)).2.desk = s.desk.withoutCharts (leaving query) := by
  have course := call_unsubscribe s query
  generalize (s.call (.unsubscribe query)).1 = result at h course
  cases course with
  | unasked e desk session asked => exact .inl desk
  | rejected e desk session asked => exact .inl desk
  | detached sub result' found unquoted desk session asked =>
    cases result' with
    | ok _ =>
      cases h
    | error f => exact .inr desk

/-- **After any calls, all that knows of a symbol agrees.** Start with nothing subscribed,
let users subscribe and unsubscribe anything, and let the exchange reject whatever stream
requests it likes. Then slots are where charts are listened to and books where there is a
subscription; what is listened to is streamed; what is streamed to nobody is a chart whose
subscription failed and could not be undone. One more call that fails leaves the desk as it
was, or takes just the charts of its symbol. -/
theorem calls_agree (s : Service σ β) (calls : List Call) :
    let after := s.idle.callAll calls
    let registry := after.desk.registry
    let onStream := streamed after.brokerage.asked
    (∀ symbol, (after.desk.slots.find? symbol).isSome = registry.listens .chart symbol) ∧
    (∀ symbol, (after.desk.books.find? symbol).isSome = registry.isSubscribed symbol) ∧
    (∀ kind symbol, registry.listens kind symbol = true → (kind, symbol) ∈ onStream) ∧
    (∀ kind symbol, (kind, symbol) ∈ onStream → registry.listens kind symbol = false →
      kind = .chart ∧ Leaked s.idle calls symbol) ∧
    (∀ now query e, (after.call (.subscribe now query)).1 = .error e →
      (after.call (.subscribe now query)).2.desk = after.desk) ∧
    (∀ query e, (after.call (.unsubscribe query)).1 = .error e →
      (after.call (.unsubscribe query)).2.desk = after.desk ∨
        (after.call (.unsubscribe query)).2.desk = after.desk.withoutCharts (leaving query)) := by
  have agrees := agrees_callAll s.agrees_idle calls
  refine ⟨agrees.slots, agrees.books, agrees.streams, fun kind symbol still unheard => ?_,
    fun _ _ _ => desk_of_subscribe_error, fun _ _ => desk_of_unsubscribe_error⟩
  cases kind with
  | chart => exact ⟨rfl, leaked_of_streamed s.agrees_idle rfl calls symbol still unheard⟩
  | quote =>
    rw [agrees.quotes symbol still] at unheard
    cases unheard

end Calls
end Service
end TickerBoard

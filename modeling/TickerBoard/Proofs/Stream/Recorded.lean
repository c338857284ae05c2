import TickerBoard.Brokerage.Basic
import TickerBoard.Stream.Session

/-! A brokerage whose stream requests are written down.

Around any brokerage, `Recorded` notes every stream request with whether it was
taken, and `streamed` reads from such notes what the exchange streams: a taken
request changes that, a rejected one does not. Which requests are rejected is
the business of the brokerage inside, so a law about all recorded brokerages
holds however the exchange decides. -/
namespace TickerBoard

/-- A stream request, and whether the exchange took it. -/
structure Asked where
  request : StreamRequest
  taken : Bool
deriving Repr, DecidableEq

/-- A brokerage and its stream requests, oldest first. -/
structure Recorded (β : Type) where
  inner : β
  asked : List Asked

/-- A symbol in a stream of a kind. -/
abbrev Streamed := StreamKind × String

/-! ### What the exchange streams -/

/-- The request that takes a symbol out of the stream of a kind. -/
def StreamRequest.removal (kind : StreamKind) (symbol : String) : StreamRequest :=
  ⟨kind, .remove, [symbol]⟩

/-- What is streamed once a request is taken. Opening a stream makes it anew. -/
def StreamRequest.serve (r : StreamRequest) (on : List Streamed) : List Streamed :=
  match r.op with
  | .opening => (on.filter fun e => e.1 ≠ r.kind) ++ r.symbols.map fun symbol => (r.kind, symbol)
  | .add => on ++ r.symbols.map fun symbol => (r.kind, symbol)
  | .remove => on.filter fun e => ¬(e.1 = r.kind ∧ e.2 ∈ r.symbols)

def Asked.serve (on : List Streamed) (a : Asked) : List Streamed :=
  if a.taken then a.request.serve on else on

/-- What is streamed after requests, if nothing was before them. -/
def streamed (asked : List Asked) : List Streamed := asked.foldl Asked.serve []

theorem streamed_concat (asked : List Asked) (a : Asked) :
    streamed (asked ++ [a]) = a.serve (streamed asked) := by
  rw [streamed, List.foldl_append]
  rfl

@[simp] theorem streamed_rejected (asked : List Asked) (r : StreamRequest) :
    streamed (asked ++ [⟨r, false⟩]) = streamed asked :=
  streamed_concat asked ⟨r, false⟩

theorem streamed_taken (asked : List Asked) (r : StreamRequest) :
    streamed (asked ++ [⟨r, true⟩]) = r.serve (streamed asked) :=
  streamed_concat asked ⟨r, true⟩

/-- What a removal of one symbol leaves. -/
@[simp] theorem mem_streamed_removed (asked : List Asked) (kind : StreamKind) (symbol : String)
    (e : Streamed) :
    e ∈ streamed (asked ++ [⟨.removal kind symbol, true⟩]) ↔
      e ∈ streamed asked ∧ e ≠ (kind, symbol) := by
  rw [streamed_taken]
  obtain ⟨k, name⟩ := e
  simp [StreamRequest.removal, StreamRequest.serve, Decidable.imp_iff_not_or]

/-! ### The session -/

namespace StreamSession

/-- The request that brings a symbol into the stream of a kind. -/
def entry (s : StreamSession) (kind : StreamKind) (symbol : String) : StreamRequest :=
  ⟨kind, s.entering kind, [symbol]⟩

/-- The session after a symbol came into the stream of a kind. -/
def entered (s : StreamSession) (kind : StreamKind) : StreamSession :=
  if s.isOpen kind then s else ⟨kind :: s.opened⟩

theorem isOpen_entered (s : StreamSession) (kind k : StreamKind) :
    (s.entered kind).isOpen k = true ↔ k = kind ∨ s.isOpen k = true := by
  unfold entered
  split
  · rename_i already
    constructor
    · exact .inr
    · rintro (rfl | h)
      · exact already
      · exact h
  · simp [isOpen]

/-- The session knows every stream that carries something as open. -/
def Knows (s : StreamSession) (asked : List Asked) : Prop :=
  ∀ e ∈ streamed asked, s.isOpen e.1 = true

/-- A symbol that enters loses nobody's place, since only a stream without symbols is opened. -/
theorem Knows.mem_streamed_entered {s : StreamSession} {asked : List Asked} (knows : s.Knows asked)
    (kind : StreamKind) (symbol : String) (e : Streamed) :
    e ∈ streamed (asked ++ [⟨s.entry kind symbol, true⟩]) ↔
      e ∈ streamed asked ∨ e = (kind, symbol) := by
  rw [streamed_taken, entry, entering]
  split
  · simp [StreamRequest.serve]
  · rename_i closed
    have others : (streamed asked).filter (fun e => e.1 ≠ kind) = streamed asked := by
      refine List.filter_eq_self.mpr fun e he => decide_eq_true fun same => closed ?_
      rw [← same]
      exact knows e he
    simp only [StreamRequest.serve, others, List.map_cons, List.map_nil, List.mem_append,
      List.mem_singleton]

theorem Knows.entered {s : StreamSession} {asked : List Asked} (knows : s.Knows asked)
    (kind : StreamKind) (symbol : String) :
    (s.entered kind).Knows (asked ++ [⟨s.entry kind symbol, true⟩]) := by
  intro e he
  rw [isOpen_entered]
  rcases (knows.mem_streamed_entered kind symbol e).mp he with old | rfl
  · exact .inr (knows e old)
  · exact .inl rfl

theorem knows_start : start.Knows [] := fun _ he => by cases he

theorem Knows.mono {s : StreamSession} {asked later : List Asked} (knows : s.Knows asked)
    (fewer : ∀ e ∈ streamed later, e ∈ streamed asked) : s.Knows later :=
  fun e he => knows e (fewer e he)

end StreamSession

/-! ### The brokerage -/

namespace Recorded
variable {β : Type} [Brokerage β]

/-- Passes a request on and notes what came of it. -/
def request (b : Recorded β) (r : StreamRequest) : Recorded β × Except Fault Unit :=
  let (inner, result) := Exchange.request b.inner r
  (⟨inner, b.asked ++ [⟨r, result.isOk⟩]⟩, result)

/-- Passes a question on, of which nothing is noted. -/
def pass {α : Type} (b : Recorded β) (f : β → β × α) : Recorded β × α :=
  let (inner, answer) := f b.inner
  ({ b with inner }, answer)

instance : Brokerage (Recorded β) where
  request := request
  account b := Brokerage.account b.inner
  resolve b query := b.pass (Brokerage.resolve · query)
  history b symbol since now := b.pass (Brokerage.history · symbol since now)
  chains b q := b.pass (Brokerage.chains · q)

theorem request_cases (b : Recorded β) (r : StreamRequest) :
    (∃ inner, Exchange.request b r = (⟨inner, b.asked ++ [⟨r, true⟩]⟩, .ok ())) ∨
      ∃ inner f, Exchange.request b r = (⟨inner, b.asked ++ [⟨r, false⟩]⟩, .error f) := by
  show (∃ inner, b.request r = _) ∨ ∃ inner f, b.request r = _
  unfold request
  rcases Exchange.request b.inner r with ⟨inner, f | _⟩
  · exact .inr ⟨inner, f, rfl⟩
  · exact .inl ⟨inner, rfl⟩

@[simp] theorem resolve_asked (b : Recorded β) (query : String) :
    (Brokerage.resolve b query).1.asked = b.asked := rfl

@[simp] theorem tradedHistory_asked (b : Recorded β) (symbol : String) (since now : Instant) :
    (Brokerage.tradedHistory b symbol since now).1.asked = b.asked := rfl

end Recorded

/-! ### Entering and leaving the streams -/

namespace StreamSession
variable {β : Type} [Brokerage β]

theorem enterKind_cases (s : StreamSession) (b : Recorded β) (kind : StreamKind) (symbol : String) :
    (∃ inner, s.enterKind b kind symbol =
      (s.entered kind, ⟨inner, b.asked ++ [⟨s.entry kind symbol, true⟩]⟩, .ok ())) ∨
    ∃ inner f, s.enterKind b kind symbol =
      (s, ⟨inner, b.asked ++ [⟨s.entry kind symbol, false⟩]⟩, .error f) := by
  unfold enterKind
  rcases b.request_cases (s.entry kind symbol) with ⟨inner, h⟩ | ⟨inner, f, h⟩ <;>
    rw [entry] at h <;> rw [h]
  · exact .inl ⟨inner, rfl⟩
  · exact .inr ⟨inner, f, rfl⟩

/-- Starting a stream for a symbol asks once, whatever comes of it: to open the stream as long as it is not
open, and then to add the symbol. So the next start of a kind is its next entry among the requests. -/
theorem asked_enterKind (s : StreamSession) (b : Recorded β) (kind : StreamKind) (symbol : String) :
    (s.enterKind b kind symbol).2.1.asked =
      b.asked ++ [⟨⟨kind, if s.isOpen kind then .add else .opening, [symbol]⟩,
        (s.enterKind b kind symbol).2.2.isOk⟩] := by
  rcases s.enterKind_cases b kind symbol with ⟨inner, entered⟩ | ⟨inner, f, entered⟩ <;> rw [entered] <;> rfl

theorem leaveKind_cases (b : Recorded β) (kind : StreamKind) (symbol : String) :
    ∃ inner result, leaveKind b kind symbol =
      (⟨inner, b.asked ++ [⟨.removal kind symbol, result.isOk⟩]⟩, result) := by
  rcases b.request_cases (.removal kind symbol) with ⟨inner, h⟩ | ⟨inner, f, h⟩
  · exact ⟨inner, .ok (), h⟩
  · exact ⟨inner, .error f, h⟩

/-- Both kinds are taken, or the charts are rejected, or the quotes are and the charts are
to be undone. -/
theorem enter_full_cases (s : StreamSession) (b : Recorded β) (symbol : String) :
    (∃ inner, s.enter b symbol .full =
      ((s.entered .chart).entered .quote,
        ⟨inner, b.asked ++ [⟨s.entry .chart symbol, true⟩] ++
          [⟨(s.entered .chart).entry .quote symbol, true⟩]⟩, .ok ())) ∨
    (∃ inner f, s.enter b symbol .full =
      (s, ⟨inner, b.asked ++ [⟨s.entry .chart symbol, false⟩]⟩, .error f)) ∨
    ∃ inner f undo, s.enter b symbol .full =
      (s.entered .chart,
        ⟨inner, b.asked ++ [⟨s.entry .chart symbol, true⟩] ++
          [⟨(s.entered .chart).entry .quote symbol, false⟩] ++ [⟨.removal .chart symbol, undo⟩]⟩,
        .error f) := by
  have wanted : ∀ (s : StreamSession) (b : Recorded β) kind,
      enterIf true s b kind symbol = s.enterKind b kind symbol := fun _ _ _ => rfl
  have charted : (!Subscription.full.charts.isEmpty) = true := rfl
  have quoted : Subscription.full.quotes = true := rfl
  simp only [enter, charted, quoted, wanted, if_true]
  rcases enterKind_cases s b .chart symbol with ⟨inner, charts⟩ | ⟨inner, f, charts⟩
  · rcases enterKind_cases (s.entered .chart) ⟨inner, b.asked ++ [⟨s.entry .chart symbol, true⟩]⟩
      .quote symbol with ⟨inner', quotes⟩ | ⟨inner', f, quotes⟩
    · simp only [charts, quotes]
      exact .inl ⟨inner', rfl⟩
    · obtain ⟨inner'', result, undone⟩ := leaveKind_cases (⟨inner', b.asked ++
        [⟨s.entry .chart symbol, true⟩] ++ [⟨(s.entered .chart).entry .quote symbol, false⟩]⟩ : Recorded β)
        .chart symbol
      simp only [charts, quotes, undone]
      exact .inr (.inr ⟨inner'', f, result.isOk, rfl⟩)
  · simp only [charts]
    exact .inr (.inl ⟨inner, f, rfl⟩)

/-- The charts are not let go, or they are and the quotes have a result. -/
theorem leave_cases (b : Recorded β) (symbol : String) (sub : Subscription) :
    (∃ inner f, leave b symbol sub =
      (⟨inner, b.asked ++ [⟨.removal .chart symbol, false⟩]⟩, ⟨false, .error f⟩)) ∨
    ∃ inner result, (sub.quotes = false → result = .ok ()) ∧
      leave b symbol sub =
        (⟨inner, b.asked ++ (if sub.charts.isEmpty then [] else [⟨.removal .chart symbol, true⟩]) ++
            if sub.quotes then [⟨.removal .quote symbol, result.isOk⟩] else []⟩,
          ⟨true, result⟩) := by
  have quotes : ∀ x : Recorded β, ∃ inner result, (sub.quotes = false → result = .ok ()) ∧
      leaveIf sub.quotes x .quote symbol =
        (⟨inner, x.asked ++ if sub.quotes then [⟨.removal .quote symbol, result.isOk⟩] else []⟩,
          result) := by
    intro x
    unfold leaveIf
    split
    · rename_i wanted
      obtain ⟨inner, result, left⟩ := leaveKind_cases x .quote symbol
      exact ⟨inner, result, fun unwanted => absurd (unwanted.symm.trans wanted) (by decide), left⟩
    · exact ⟨x.inner, .ok (), fun _ => rfl, by rw [List.append_nil]⟩
  rw [leave]
  cases charted : sub.charts.isEmpty with
  | true =>
    have kept : leaveIf (!true) b .chart symbol = (b, .ok ()) := rfl
    obtain ⟨inner, result, quiet, left⟩ := quotes b
    rw [kept]
    simp only [left]
    exact .inr ⟨inner, result, quiet, by simp⟩
  | false =>
    have asked : leaveIf (!false) b .chart symbol = leaveKind b .chart symbol := rfl
    obtain ⟨inner, result, charts⟩ := leaveKind_cases b .chart symbol
    rw [asked, charts]
    cases result with
    | error f => exact .inl ⟨inner, f, rfl⟩
    | ok _ =>
      obtain ⟨inner', result, quiet, left⟩ := quotes ⟨inner, b.asked ++ [⟨.removal .chart symbol, true⟩]⟩
      simp only [Except.isOk, Except.toBool, left]
      exact .inr ⟨inner', result, quiet, by simp⟩

end StreamSession
end TickerBoard

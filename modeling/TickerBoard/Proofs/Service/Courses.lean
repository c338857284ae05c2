import TickerBoard.Proofs.Desk.Run
import TickerBoard.Proofs.Service.Requests
import TickerBoard.Proofs.Stream.Recorded

/-! The courses that subscribing and unsubscribing may take.

Whatever the brokerage answers, a subscription ends in one of four ways and an
unsubscription in one of three: `Subscribing` and `Leaving` list them with all
that is asked of the exchange in each and all that happens to desk and session.
`subscribe_course` and `unsubscribe_course` say that there are no others, so
that what holds after every call is one case analysis away. -/
namespace TickerBoard
open StreamSession (entered)

namespace Service
variable {σ β α γ : Type}

/-! ### Requests that leave the streams alone -/

/-- Desk and session are the same, and nothing was asked of the exchange. -/
structure SameStreams (s s' : Service σ (Recorded β)) : Prop where
  running : s'.isRunning = s.isRunning
  desk : s'.desk = s.desk
  session : s'.session = s.session
  asked : s'.brokerage.asked = s.brokerage.asked

theorem SameStreams.refl (s : Service σ (Recorded β)) : SameStreams s s := ⟨rfl, rfl, rfl, rfl⟩

theorem SameStreams.trans {s s' s'' : Service σ (Recorded β)} (a : SameStreams s s')
    (b : SameStreams s' s'') : SameStreams s s'' :=
  ⟨b.running.trans a.running, b.desk.trans a.desk, b.session.trans a.session, b.asked.trans a.asked⟩

theorem publish_frame (s : Service σ β) (e : ViewerEvent) : ∃ audience, s.publish e = { s with audience } := by
  unfold publish
  split
  · exact ⟨s.audience, rfl⟩
  · exact ⟨_, rfl⟩

/-- Effects reach the audience and the queue only. -/
theorem perform_frame (s : Service σ β) (effects : List Desk.Effect) :
    ∃ audience, s.perform effects = { s with audience, queue := s.queue.offerAll (Desk.stored effects) } := by
  induction effects generalizing s with
  | nil => exact ⟨s.audience, rfl⟩
  | cons e rest ih =>
    cases e with
    | publish e =>
      obtain ⟨told, published⟩ := publish_frame s e
      obtain ⟨audience, others⟩ := ih { s with audience := told }
      exact ⟨audience, (congrArg (·.perform rest) published).trans others⟩
    | store job =>
      obtain ⟨audience, others⟩ := ih (s.offer job)
      exact ⟨audience, others⟩

@[simp] theorem perform_desk (s : Service σ β) (effects : List Desk.Effect) :
    (s.perform effects).desk = s.desk := by
  obtain ⟨audience, same⟩ := perform_frame s effects
  rw [same]

@[simp] theorem perform_session (s : Service σ β) (effects : List Desk.Effect) :
    (s.perform effects).session = s.session := by
  obtain ⟨audience, same⟩ := perform_frame s effects
  rw [same]

@[simp] theorem perform_brokerage (s : Service σ β) (effects : List Desk.Effect) :
    (s.perform effects).brokerage = s.brokerage := by
  obtain ⟨audience, same⟩ := perform_frame s effects
  rw [same]

@[simp] theorem perform_store (s : Service σ β) (effects : List Desk.Effect) :
    (s.perform effects).store = s.store := by
  obtain ⟨audience, same⟩ := perform_frame s effects
  rw [same]

theorem sameStreams_perform (s : Service σ (Recorded β)) (effects : List Desk.Effect) :
    SameStreams s (s.perform effects) := by
  obtain ⟨audience, same⟩ := perform_frame s effects
  rw [same]
  exact ⟨rfl, rfl, rfl, rfl⟩

theorem sameStreams_publish (s : Service σ (Recorded β)) (e : ViewerEvent) :
    SameStreams s (s.publish e) :=
  sameStreams_perform s [.publish e]

/-- The request leaves the streams alone. -/
def Aside (r : Request σ (Recorded β) α) : Prop := ∀ s, SameStreams s (s.carryOut r).2

theorem aside_ask {f : Recorded β → Recorded β × Except Fault α}
    (unnoted : ∀ b, (f b).1.asked = b.asked) : Aside (ask f : Request σ (Recorded β) α) := by
  intro s
  rw [carryOut_ask]
  exact ⟨rfl, rfl, rfl, unnoted s.brokerage⟩

/-- All that precedes the streams leaves them alone. -/
theorem aside_prepare [Store σ] [Brokerage β] (now : Instant) (query : String) :
    Aside (prepare now query : Request σ (Recorded β) (Monitor Float)) := by
  refine keeps_prepare .refl (fun _ _ _ => .trans) (fun query => aside_ask fun b => b.resolve_asked query)
    (fun symbol since => aside_ask fun b => b.tradedHistory_asked symbol since now)
    (fun symbol bars s => ?_) (fun effects s => ?_) query
  · rw [carryOut_save]
    exact ⟨rfl, rfl, rfl, rfl⟩
  · rw [carryOut_modify]
    exact sameStreams_perform s effects

/-! ### The courses of a subscription -/

/-- The ways that a subscription may go, with its result. -/
inductive Subscribing (s s' : Service σ (Recorded β)) : Except Failure Unit → Prop
  /-- It fails before anything is asked of the exchange. -/
  | unasked (e : Failure) (desk : s'.desk = s.desk) (session : s'.session = s.session)
      (asked : s'.brokerage.asked = s.brokerage.asked) : Subscribing s s' (.error e)
  /-- The charts are rejected. -/
  | rejected (e : Failure) (symbol : String) (desk : s'.desk = s.desk) (session : s'.session = s.session)
      (asked : s'.brokerage.asked = s.brokerage.asked ++ [⟨s.session.entry .chart symbol, false⟩]) :
      Subscribing s s' (.error e)
  /-- The quotes are rejected; the charts are undone, unless that is rejected too. -/
  | undone (e : Failure) (symbol : String) (undo : Bool)
      (new : s.desk.registry.isSubscribed symbol = false) (desk : s'.desk = s.desk)
      (session : s'.session = s.session.entered .chart)
      (asked : s'.brokerage.asked = s.brokerage.asked ++ [⟨s.session.entry .chart symbol, true⟩] ++
        [⟨(s.session.entered .chart).entry .quote symbol, false⟩] ++
        [⟨.removal .chart symbol, undo⟩]) :
      Subscribing s s' (.error e)
  /-- The symbol is streamed and its monitor is at work. -/
  | installed (m : Monitor Float)
      (registry : s'.desk.registry = ⟨s.desk.registry.entries.insert m.symbol .full⟩)
      (slots : s'.desk.slots = s.desk.slots.insert m.symbol (.fresh m (s.desk.lastEpoch + 1)))
      (books : s'.desk.books = s.desk.books.insert m.symbol .empty)
      (session : s'.session = (s.session.entered .chart).entered .quote)
      (asked : s'.brokerage.asked = s.brokerage.asked ++ [⟨s.session.entry .chart m.symbol, true⟩] ++
        [⟨(s.session.entered .chart).entry .quote m.symbol, true⟩]) :
      Subscribing s s' (.ok ())

theorem install_new {d : Desk} {m : Monitor Float} (new : d.registry.isSubscribed m.symbol = false)
    (sub : Subscription) :
    d.install m sub =
      ({ d with
          registry := ⟨d.registry.entries.insert m.symbol sub⟩
          lastEpoch := d.lastEpoch + 1
          slots := d.slots.insert m.symbol (.fresh m (d.lastEpoch + 1))
          books := d.books.insert m.symbol .empty },
        [.publish (.updateChart m.snapshot)], .ok m.snapshot) := by
  simp [Desk.install, Registry.insert, new]

theorem enlist_course [Brokerage β] (m : Monitor Float) (s : Service σ (Recorded β)) :
    Subscribing s (enlist m s).1 (((enlist m s).2.mapError .refused).map fun _ => ()) := by
  unfold enlist
  split
  · exact .unasked _ rfl rfl rfl
  split
  · exact .unasked _ rfl rfl rfl
  rename_i subscribed
  have new := eq_false_of_ne_true subscribed
  rcases s.session.enter_full_cases s.brokerage m.symbol with
    ⟨inner, h⟩ | ⟨inner, f, h⟩ | ⟨inner, f, undo, h⟩ <;> rw [h]
  · simp only [install_new new]
    apply Subscribing.installed m <;> simp
  · exact .rejected _ m.symbol rfl rfl rfl
  · exact .undone _ m.symbol undo new rfl rfl rfl

theorem Subscribing.between {s₀ s s' s₁ : Service σ (Recorded β)} {result : Except Failure Unit}
    (before : SameStreams s₀ s) (after : SameStreams s' s₁) (course : Subscribing s s' result) :
    Subscribing s₀ s₁ result := by
  cases course with
  | unasked e desk session asked =>
    rw [before.desk, ← after.desk] at desk
    rw [before.session, ← after.session] at session
    rw [before.asked, ← after.asked] at asked
    exact .unasked e desk session asked
  | rejected e symbol desk session asked =>
    rw [before.desk, ← after.desk] at desk
    rw [before.session, ← after.session] at session
    rw [before.asked, before.session, ← after.asked] at asked
    exact .rejected e symbol desk session asked
  | undone e symbol undo new desk session asked =>
    rw [before.desk] at new
    rw [before.desk, ← after.desk] at desk
    rw [before.session, ← after.session] at session
    rw [before.asked, before.session, ← after.asked] at asked
    exact .undone e symbol undo new desk session asked
  | installed m registry slots books session asked =>
    rw [before.desk, ← after.desk] at registry slots books
    rw [before.session, ← after.session] at session
    rw [before.asked, before.session, ← after.asked] at asked
    exact .installed m registry slots books session asked

/-- A subscription has no other course. -/
theorem subscribe_course [Store σ] [Brokerage β] (s : Service σ (Recorded β)) (now : Instant)
    (query : String) :
    Subscribing s (s.carryOut (subscribe now query)).2
      ((s.carryOut (subscribe now query)).1.map fun _ => ()) := by
  have aside := aside_prepare now query s
  rw [carryOut_subscribe]
  generalize s.carryOut (prepare now query) = prepared at aside ⊢
  obtain ⟨e | m, s₁⟩ := prepared
  · exact .unasked e aside.desk aside.session aside.asked
  · have course := enlist_course m s₁
    dsimp only at aside ⊢
    generalize enlist m s₁ = enlisted at course ⊢
    obtain ⟨s₂, r | snapshot⟩ := enlisted
    · exact course.between aside (.refl s₂)
    · have remembered : SameStreams s₂ (remember m.symbol s₂) := ⟨rfl, rfl, rfl, rfl⟩
      exact course.between aside remembered

/-! ### The courses of an unsubscription -/

/-- The ways that an unsubscription of a symbol may go, with its result. -/
inductive Leaving (symbol : String) (s s' : Service σ (Recorded β)) : Except Failure Unit → Prop
  /-- It fails before anything is asked of the exchange. -/
  | unasked (e : Failure) (desk : s'.desk = s.desk) (session : s'.session = s.session)
      (asked : s'.brokerage.asked = s.brokerage.asked) : Leaving symbol s s' (.error e)
  /-- The charts are not let go. -/
  | rejected (e : Failure) (desk : s'.desk = s.desk) (session : s'.session = s.session)
      (asked : s'.brokerage.asked = s.brokerage.asked ++ [⟨.removal .chart symbol, false⟩]) :
      Leaving symbol s s' (.error e)
  /-- The charts are let go, if there were any, and the quotes or not. -/
  | detached (sub : Subscription) (result : Except Fault Unit)
      (found : s.desk.registry.find? symbol = some sub)
      (unquoted : sub.quotes = false → result = .ok ())
      (desk : s'.desk = s.desk.detach symbol ⟨true, result⟩) (session : s'.session = s.session)
      (asked : s'.brokerage.asked = s.brokerage.asked ++
        (if sub.charts.isEmpty then [] else [⟨.removal .chart symbol, true⟩]) ++
        if sub.quotes then [⟨.removal .quote symbol, result.isOk⟩] else []) :
      Leaving symbol s s' (result.mapError fun f => .refused (.streamRequest f))

/-- An unsubscription reaches brokerage and desk only. -/
theorem dismiss_frame [Brokerage β] (symbol : String) (s : Service σ β) :
    ∃ brokerage desk, (dismiss symbol s).1 = { s with brokerage, desk } := by
  unfold dismiss
  split
  · exact ⟨s.brokerage, s.desk, rfl⟩
  split
  · exact ⟨s.brokerage, s.desk, rfl⟩
  · exact ⟨_, _, rfl⟩

theorem dismiss_course [Brokerage β] (symbol : String) (s : Service σ (Recorded β)) :
    Leaving symbol s (dismiss symbol s).1 ((dismiss symbol s).2.mapError .refused) := by
  unfold dismiss
  split
  · exact .unasked _ rfl rfl rfl
  cases found : s.desk.registry.find? symbol with
  | none => exact .unasked _ rfl rfl rfl
  | some sub =>
    rcases StreamSession.leave_cases s.brokerage symbol sub with
      ⟨inner, f, left⟩ | ⟨inner, result, unquoted, left⟩ <;> simp only [left]
    · exact .rejected _ rfl rfl rfl
    · have course : Leaving symbol s
          { s with
            brokerage := ⟨inner, s.brokerage.asked ++
              (if sub.charts.isEmpty then [] else [⟨.removal .chart symbol, true⟩]) ++
              if sub.quotes then [⟨.removal .quote symbol, result.isOk⟩] else []⟩
            desk := s.desk.detach symbol ⟨true, result⟩ } _ :=
        .detached sub result found unquoted rfl rfl rfl
      cases result <;> exact course

theorem Leaving.before {symbol : String} {s s' s₁ : Service σ (Recorded β)}
    {result : Except Failure Unit} (course : Leaving symbol s s' result) (after : SameStreams s' s₁) :
    Leaving symbol s s₁ result := by
  cases course with
  | unasked e desk session asked =>
    rw [← after.desk] at desk
    rw [← after.session] at session
    rw [← after.asked] at asked
    exact .unasked e desk session asked
  | rejected e desk session asked =>
    rw [← after.desk] at desk
    rw [← after.session] at session
    rw [← after.asked] at asked
    exact .rejected e desk session asked
  | detached sub result found unquoted desk session asked =>
    rw [← after.desk] at desk
    rw [← after.session] at session
    rw [← after.asked] at asked
    exact .detached sub result found unquoted desk session asked

/-- An unsubscription has no other course. -/
theorem unsubscribe_course [Store σ] [Brokerage β] (s : Service σ (Recorded β)) (query : String) :
    Leaving (leaving query) s (s.carryOut (unsubscribe query)).2
      ((s.carryOut (unsubscribe query)).1.map fun _ => ()) := by
  rw [carryOut_unsubscribe]
  split
  · exact .unasked _ rfl rfl rfl
  · have course := dismiss_course (leaving query) s
    generalize dismiss (leaving query) s = dismissed at course ⊢
    obtain ⟨s₁, r | _⟩ := dismissed
    · exact course
    · have forgotten : SameStreams s₁ (forget (leaving query) s₁) := ⟨rfl, rfl, rfl, rfl⟩
      exact course.before (forgotten.trans (sameStreams_publish _ _))

end Service
end TickerBoard

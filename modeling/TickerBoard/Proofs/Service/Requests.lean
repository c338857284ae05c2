import TickerBoard.Service

/-! What carrying out a request comes to.

`carryOut` runs a request on a service and answers its result with the service
as it is left. Each step that requests are made of has one law, and from them
`carryOut_subscribe` and `carryOut_unsubscribe` say what the two requests are
made of: everything that a subscription prepares before it may touch the
streams is one step. -/
namespace TickerBoard.Service
variable {σ β α γ : Type}

def carryOut (s : Service σ β) (r : Request σ β α) : Except Failure α × Service σ β := r.run.run s

/-! ### The steps -/

@[simp] theorem mapError_ok {ε δ : Type} (f : ε → δ) (a : α) : (Except.ok a : Except ε α).mapError f = .ok a := rfl

@[simp] theorem mapError_error {ε δ : Type} (f : ε → δ) (e : ε) :
    (Except.error e : Except ε α).mapError f = .error (f e) := rfl

theorem carryOut_bind (s : Service σ β) (r : Request σ β α) (f : α → Request σ β γ) :
    s.carryOut (r >>= f) =
      match s.carryOut r with
      | (.ok a, s) => s.carryOut (f a)
      | (.error e, s) => (.error e, s) := by
  simp only [carryOut, ExceptT.run_bind, StateT.run_bind]
  cases h : r.run.run s with
  | mk result s' => cases result <;> rfl

theorem carryOut_bind_ok {s s' : Service σ β} {r : Request σ β α} {f : α → Request σ β γ} {c : γ}
    (h : s.carryOut (r >>= f) = (.ok c, s')) :
    ∃ a mid, s.carryOut r = (.ok a, mid) ∧ mid.carryOut (f a) = (.ok c, s') := by
  rw [carryOut_bind] at h
  rcases first : s.carryOut r with ⟨e | a, mid⟩ <;> rw [first] at h
  · cases h
  · exact ⟨a, mid, rfl, h⟩

@[simp] theorem carryOut_map (s : Service σ β) (f : α → γ) (r : Request σ β α) :
    s.carryOut (f <$> r) = ((s.carryOut r).1.map f, (s.carryOut r).2) := by
  rw [map_eq_pure_bind, carryOut_bind]
  rcases s.carryOut r with ⟨_ | a, s⟩ <;> rfl

@[simp] theorem carryOut_pure (s : Service σ β) (a : α) : s.carryOut (pure a) = (.ok a, s) := rfl

@[simp] theorem carryOut_get (s : Service σ β) : s.carryOut get = (.ok s, s) := rfl

@[simp] theorem carryOut_set (s s' : Service σ β) : s.carryOut (set s') = (.ok ⟨⟩, s') := rfl

@[simp] theorem carryOut_modify (s : Service σ β) (f : Service σ β → Service σ β) :
    s.carryOut (modify f) = (.ok ⟨⟩, f s) := rfl

@[simp] theorem carryOut_throw (s : Service σ β) (e : Failure) :
    s.carryOut (throw e : Request σ β α) = (.error e, s) := rfl

@[simp] theorem carryOut_refuse (s : Service σ β) (r : Refusal) :
    s.carryOut (refuse r : Request σ β α) = (.error (.refused r), s) := rfl

@[simp] theorem carryOut_lift (s : Service σ β) (a : Except Failure α) :
    s.carryOut (liftM a) = (a, s) := by
  cases a <;> rfl

@[simp] theorem carryOut_dated (s : Service σ β) (a : Option α) :
    s.carryOut (dated a) = (Failure.inCalendar a, s) :=
  carryOut_lift s _

@[simp] theorem carryOut_load (s : Service σ β) (f : σ → Except StoreFault α) :
    s.carryOut (load f) = ((f s.store).mapError ofStoreFault, s) := by
  rw [load, carryOut_bind, carryOut_get]
  cases h : f s.store <;> simp [h]

@[simp] theorem carryOut_save (s : Service σ β) (f : σ → σ × Except StoreFault Unit) :
    s.carryOut (save f) =
      ((f s.store).2.mapError ofStoreFault, { s with store := (f s.store).1 }) := by
  rw [save, carryOut_bind, carryOut_get]
  rcases h : f s.store with ⟨store, _ | _⟩ <;> simp [h, carryOut_bind]

@[simp] theorem carryOut_ask (s : Service σ β) (f : β → β × Except Fault α) :
    s.carryOut (ask f) =
      ((f s.brokerage).2.mapError fun e => .refused (.adapter e),
        { s with brokerage := (f s.brokerage).1 }) := by
  rw [ask, carryOut_bind, carryOut_get]
  rcases h : f s.brokerage with ⟨brokerage, _ | _⟩ <;> simp [h, carryOut_bind, Except.map]

@[simp] theorem carryOut_step (s : Service σ β)
    (f : Service σ β → Service σ β × Except Refusal α) :
    s.carryOut (step f) = ((f s).2.mapError .refused, (f s).1) := by
  rw [step, carryOut_bind, carryOut_get]
  rcases h : f s with ⟨s', _ | _⟩ <;> simp [h, carryOut_bind, Except.map]

@[simp] theorem carryOut_subscription? (s : Service σ β) (symbol : String) :
    s.carryOut (subscription? symbol) =
      (if s.isRunning then .ok (s.desk.registry.find? symbol)
        else .error (.refused .engineStopped), s) := by
  rw [subscription?, carryOut_bind, carryOut_get]
  cases h : s.isRunning <;> simp [h]

@[simp] theorem carryOut_refuseSubscribed (s : Service σ β) (symbol : String) :
    s.carryOut (refuseSubscribed symbol) =
      (if !s.isRunning then .error (.refused .engineStopped)
        else if s.desk.registry.isSubscribed symbol then
          .error (.refused (.alreadySubscribed symbol))
        else .ok ⟨⟩, s) := by
  rw [refuseSubscribed, carryOut_bind, carryOut_subscription?]
  cases h : s.isRunning with
  | false => simp
  | true =>
    cases listed : s.desk.registry.find? symbol <;> simp [listed, Registry.isSubscribed]

/-! ### The two requests -/

section Requests
variable [Store σ] [Brokerage β]

theorem carryOut_subscribe (s : Service σ β) (now : Instant) (query : String) :
    s.carryOut (subscribe now query) =
      match s.carryOut (prepare now query) with
      | (.error e, s) => (.error e, s)
      | (.ok m, s) =>
        match enlist m s with
        | (s, .error r) => (.error (.refused r), s)
        | (s, .ok snapshot) => (.ok snapshot, remember m.symbol s) := by
  rw [subscribe, carryOut_bind]
  rcases s.carryOut (prepare now query) with ⟨_ | m, s⟩
  · rfl
  · simp only [carryOut_bind, carryOut_step]
    rcases enlist m s with ⟨s, _ | snapshot⟩ <;> rfl

/-- The symbol that a query to unsubscribe means. -/
def leaving (query : String) : String := Text.upper (Text.trim query)

theorem carryOut_unsubscribe (s : Service σ β) (query : String) :
    s.carryOut (unsubscribe query) =
      if leaving query = "" then (.error (.refused (.invalidSymbol query)), s)
      else
        match dismiss (leaving query) s with
        | (s, .error r) => (.error (.refused r), s)
        | (s, .ok ()) =>
          (.ok (leaving query), (forget (leaving query) s).publish (.unsubscribeChart (leaving query))) := by
  rw [unsubscribe]
  change s.carryOut (ite (leaving query = "") _ _) = _
  split
  · rw [carryOut_bind]
    rfl
  · simp only [carryOut_bind, carryOut_step]
    rcases h : dismiss (leaving query) s with ⟨s, _ | _⟩
    · rw [leaving] at h
      simp [h]
    · rw [leaving] at h
      simp [h, leaving]

end Requests

/-! ### What requests keep to -/

/-- Carrying the request out keeps to a relation, whatever its result. -/
def Keeps (R : Service σ β → Service σ β → Prop) (r : Request σ β α) : Prop := ∀ s, R s (s.carryOut r).2

section Keeps
variable {R : Service σ β → Service σ β → Prop}

theorem keeps_of_same (refl : ∀ s, R s s) {r : Request σ β α} (h : ∀ s : Service σ β, (s.carryOut r).2 = s) :
    Keeps R r := by
  intro s
  rw [h]
  exact refl s

theorem keeps_bind (trans : ∀ a b c, R a b → R b c → R a c) {r : Request σ β α} {f : α → Request σ β γ}
    (first : Keeps R r) (next : ∀ a, Keeps R (f a)) : Keeps R (r >>= f) := by
  intro s
  have kept := first s
  rw [carryOut_bind]
  rcases h : s.carryOut r with ⟨e | a, s'⟩ <;> rw [h] at kept
  · exact kept
  · exact trans _ _ _ kept (next a s')

/-- What the brokerage is asked, the backfilled bars and the lists for the queue are all
that precedes the streams. -/
theorem keeps_prepare [Store σ] [Brokerage β] (refl : ∀ s, R s s) (trans : ∀ a b c, R a b → R b c → R a c)
    {now : Instant} (resolve : ∀ query, Keeps R (ask (Brokerage.resolve · query)))
    (history : ∀ symbol since, Keeps R (ask (Brokerage.tradedHistory · symbol since now)))
    (backfill : ∀ symbol bars, Keeps R (save (Store.saveBars · symbol bars)))
    (offer : ∀ effects, Keeps R (modify (·.perform effects))) (query : String) :
    Keeps R (prepare now query) := by
  have pure_ {α : Type} (a : α) : Keeps R (pure a) := keeps_of_same refl fun _ => rfl
  have lift {α : Type} (a : Except Failure α) : Keeps R (liftM a) :=
    keeps_of_same refl fun s => by rw [carryOut_lift]
  have load {α : Type} (f : σ → Except StoreFault α) : Keeps R (load f) :=
    keeps_of_same refl fun s => by rw [carryOut_load]
  have refuse {α : Type} (r : Refusal) : Keeps R (refuse r : Request σ β α) := keeps_of_same refl fun _ => rfl
  have fresh (symbol : String) : Keeps R (refuseSubscribed symbol) :=
    keeps_of_same refl fun s => by rw [carryOut_refuseSubscribed]
  have identify : Keeps R (identify query) := by
    refine keeps_bind trans (resolve query) fun found => ?_
    cases found with
    | none => exact refuse _
    | some symbol => exact pure_ symbol
  have backfillStart (window : Instant) (symbol : String) : Keeps R (backfillStart window symbol) := by
    refine keeps_bind trans (load _) fun latest => ?_
    cases latest with
    | none => exact pure_ window
    | some b => exact lift _
  refine keeps_bind trans identify fun symbol => keeps_bind trans (fresh symbol) fun _ =>
    keeps_bind trans (keeps_of_same refl fun _ => rfl) fun s => keeps_bind trans (lift _) fun window =>
    keeps_bind trans (backfillStart window symbol) fun since =>
    keeps_bind trans (history symbol since) fun fetched =>
    keeps_bind trans (lift _) fun today => keeps_bind trans (backfill symbol fetched) fun _ =>
    keeps_bind trans (load _) fun bars => keeps_bind trans (load _) fun record =>
    keeps_bind trans (lift _) fun seeded => ?_
  exact keeps_bind trans (offer _) fun _ => pure_ seeded.1

end Keeps
end TickerBoard.Service

import TickerBoard.Proofs.Service.Agreement

/-! The protocol that stream requests keep to.

Whatever the exchange rejects, the requests of a session come in order: a
stream is opened once and then only added to and removed from, an opening that
was rejected is tried again, and a symbol is taken out only after it was
brought in and stayed (`Orderly`). Each request is judged by those before it
(`Due`), so a log is in order when every request was due (`Lawful.orderly`).
What makes the requests due is that the session knows just the streams that
were opened (`Synced`), and that whatever is listened to is still carried
(`Serves`). Bringing a symbol in, taking it out and every call keep both
(`InStep.subscribe`, `InStep.unsubscribe`, `Service.inStep_call`). -/
namespace TickerBoard

/-! ### What a log of requests shows -/

namespace Asked

/-- The opening of a stream that was taken. -/
def Opens (a : Asked) (kind : StreamKind) : Prop :=
  a.taken = true ∧ a.request.kind = kind ∧ a.request.op = .opening

/-- A request that was taken and brought a symbol into the stream of a kind. -/
def Brings (a : Asked) (kind : StreamKind) (symbol : String) : Prop :=
  a.taken = true ∧ a.request.kind = kind ∧ a.request.op ≠ .remove ∧ symbol ∈ a.request.symbols

/-- A request that was taken and took a symbol out of the stream of a kind. -/
def Drops (a : Asked) (kind : StreamKind) (symbol : String) : Prop :=
  a.taken = true ∧ a.request.kind = kind ∧ a.request.op = .remove ∧ symbol ∈ a.request.symbols

end Asked

/-- The stream of a kind was opened. -/
def Opened (asked : List Asked) (kind : StreamKind) : Prop := ∃ a ∈ asked, a.Opens kind

/-- A symbol was brought into the stream of a kind and not taken out since. -/
def Carried (asked : List Asked) (kind : StreamKind) (symbol : String) : Prop :=
  ∃ before a since, asked = before ++ a :: since ∧ a.Brings kind symbol ∧ ∀ b ∈ since, ¬ b.Drops kind symbol

/-- The requests of a kind that were taken, oldest first. -/
def takenOf (kind : StreamKind) (asked : List Asked) : List StreamRequest :=
  (asked.filter fun a => a.taken && a.request.kind == kind).map (·.request)

/-- The order that stream requests keep to. -/
structure Orderly (asked : List Asked) : Prop where
  /-- What was taken of a kind is nothing, or one opening and then additions and removals. -/
  openedOnce : ∀ kind, takenOf kind asked = [] ∨ ∃ first rest, takenOf kind asked = first :: rest ∧
    first.op = .opening ∧ ∀ r ∈ rest, r.op = .add ∨ r.op = .remove
  /-- The next entry into a stream whose opening was rejected tries to open it again. -/
  opensAgain : ∀ before rejected between next after, asked = before ++ rejected :: between ++ next :: after →
    rejected.taken = false → rejected.request.op = .opening →
    next.request.kind = rejected.request.kind → next.request.op ≠ .remove →
    (∀ a ∈ between, a.request.kind = rejected.request.kind → a.request.op = .remove) →
    next.request.op = .opening
  /-- Only what is carried is taken out, whether that is taken or rejected. -/
  removesCarried : ∀ before a after, asked = before ++ a :: after → a.request.op = .remove →
    ∀ symbol ∈ a.request.symbols, Carried before a.request.kind symbol

/-- What the requests before a request must have come to. -/
def Due (before : List Asked) (r : StreamRequest) : Prop :=
  match r.op with
  | .opening => ¬ Opened before r.kind
  | .add => Opened before r.kind
  | .remove => r.symbols ≠ [] ∧ ∀ symbol ∈ r.symbols, Carried before r.kind symbol

/-- Every request was due. -/
def Lawful (asked : List Asked) : Prop :=
  ∀ before a after, asked = before ++ a :: after → Due before a.request

theorem opened_concat {asked : List Asked} {a : Asked} {kind : StreamKind} :
    Opened (asked ++ [a]) kind ↔ Opened asked kind ∨ a.Opens kind := by
  simp [Opened, or_and_right, exists_or]

theorem Carried.takenOf_ne_nil {asked : List Asked} {kind : StreamKind} {symbol : String}
    (h : Carried asked kind symbol) : takenOf kind asked ≠ [] := by
  obtain ⟨before, a, since, rfl, ⟨taken, own, -, -⟩, -⟩ := h
  simp [takenOf, taken, own]

/-- A request that does not take a symbol out leaves it where it is. -/
theorem Carried.concat {asked : List Asked} {kind : StreamKind} {symbol : String} (h : Carried asked kind symbol)
    {a : Asked} (kept : ¬ a.Drops kind symbol) : Carried (asked ++ [a]) kind symbol := by
  obtain ⟨before, b, since, rfl, brings, undropped⟩ := h
  refine ⟨before, b, since ++ [a], by simp, brings, fun c hc => ?_⟩
  rcases List.mem_append.mp hc with old | new
  · exact undropped c old
  · rw [List.mem_singleton.mp new]
    exact kept

theorem carried_concat_of_brings (asked : List Asked) {a : Asked} {kind : StreamKind} {symbol : String}
    (h : a.Brings kind symbol) : Carried (asked ++ [a]) kind symbol :=
  ⟨asked, a, [], rfl, h, fun _ hb => (nomatch hb)⟩

theorem lawful_nil : Lawful [] := fun _ _ _ h => absurd h.symm (by simp)

theorem lawful_concat {asked : List Asked} {a : Asked} :
    Lawful (asked ++ [a]) ↔ Lawful asked ∧ Due asked a.request := by
  constructor
  · intro h
    refine ⟨fun before b after split => ?_, h asked a [] rfl⟩
    exact h before b (after ++ [a]) (by rw [split, List.append_assoc, List.cons_append])
  · rintro ⟨h, due⟩ before b after split
    cases after using List.reverseRecOn with
    | nil =>
      obtain ⟨rfl, same⟩ := List.append_inj' split rfl
      rw [← List.singleton_inj.mp same]
      exact due
    | append_singleton after last _ =>
      rw [← List.cons_append, ← List.append_assoc] at split
      exact h before b after (List.append_inj' split rfl).1

theorem takenOf_concat (kind : StreamKind) (asked : List Asked) (a : Asked) :
    takenOf kind (asked ++ [a]) =
      takenOf kind asked ++ if a.taken = true ∧ a.request.kind = kind then [a.request] else [] := by
  rw [takenOf, List.filter_append, List.map_append, ← takenOf]
  split <;> rename_i h <;> simp [h]

theorem opened_of_takenOf {asked : List Asked} {kind : StreamKind} {r : StreamRequest}
    (h : r ∈ takenOf kind asked) (opening : r.op = .opening) : Opened asked kind := by
  obtain ⟨a, found, rfl⟩ := List.mem_map.mp h
  obtain ⟨listed, taken⟩ := List.mem_filter.mp found
  rw [Bool.and_eq_true, beq_iff_eq] at taken
  exact ⟨a, listed, taken.1, taken.2, opening⟩

theorem Opened.takenOf_ne_nil {asked : List Asked} {kind : StreamKind} (h : Opened asked kind) :
    takenOf kind asked ≠ [] := by
  obtain ⟨a, listed, taken, own, -⟩ := h
  refine List.ne_nil_of_mem (List.mem_map.mpr ⟨a, List.mem_filter.mpr ⟨listed, ?_⟩, rfl⟩)
  simp [taken, own]

namespace Lawful
variable {asked : List Asked}

theorem openedOnce (h : Lawful asked) (kind : StreamKind) :
    takenOf kind asked = [] ∨ ∃ first rest, takenOf kind asked = first :: rest ∧
      first.op = .opening ∧ ∀ r ∈ rest, r.op = .add ∨ r.op = .remove := by
  induction asked using List.reverseRecOn with
  | nil => exact .inl rfl
  | append_singleton asked a ih =>
    obtain ⟨lawful, due⟩ := lawful_concat.mp h
    rw [takenOf_concat]
    split
    · rename_i own
      rcases ih lawful with none | ⟨first, rest, some, opening, others⟩
      · -- Nothing was taken before, so only an opening can have been due.
        refine .inr ⟨a.request, [], by rw [none, List.nil_append], ?_, by simp⟩
        rw [Due, own.2] at due
        cases op : a.request.op with
        | opening => rfl
        | add =>
          rw [op] at due
          exact absurd none due.takenOf_ne_nil
        | remove =>
          rw [op] at due
          obtain ⟨symbol, listed⟩ := List.exists_mem_of_ne_nil _ due.1
          exact absurd none (due.2 symbol listed).takenOf_ne_nil
      · refine .inr ⟨first, rest ++ [a.request], by rw [some, List.cons_append], opening, fun r hr => ?_⟩
        rcases List.mem_append.mp hr with old | new
        · exact others r old
        · rw [List.mem_singleton.mp new]
          rw [Due, own.2] at due
          cases op : a.request.op with
          | opening =>
            rw [op] at due
            exact absurd (opened_of_takenOf (some ▸ List.mem_cons_self ..) opening) due
          | add => exact .inl rfl
          | remove => exact .inr rfl
    · rw [List.append_nil]
      exact ih lawful

theorem opensAgain (h : Lawful asked) {before between after : List Asked} {rejected next : Asked}
    (split : asked = before ++ rejected :: between ++ next :: after) (untaken : rejected.taken = false)
    (opening : rejected.request.op = .opening) (same : next.request.kind = rejected.request.kind)
    (entering : next.request.op ≠ .remove)
    (removals : ∀ a ∈ between, a.request.kind = rejected.request.kind → a.request.op = .remove) :
    next.request.op = .opening := by
  have unopened := h before rejected (between ++ next :: after) (by rw [split]; simp)
  have due := h (before ++ rejected :: between) next after split
  rw [Due, opening] at unopened
  rw [Due, same] at due
  cases op : next.request.op with
  | opening => rfl
  | remove => exact absurd op entering
  | add =>
    -- An addition needs an opening that was taken: not before, not the rejected one, not since.
    rw [op] at due
    obtain ⟨a, listed, opens⟩ := due
    rcases List.mem_append.mp listed with early | late
    · exact absurd ⟨a, early, opens⟩ unopened
    · rcases List.mem_cons.mp late with rfl | since
      · exact absurd (untaken.symm.trans opens.1) (by decide)
      · exact absurd ((removals a since opens.2.1).symm.trans opens.2.2) (by decide)

theorem removesCarried (h : Lawful asked) {before after : List Asked} {a : Asked}
    (split : asked = before ++ a :: after) (removal : a.request.op = .remove) :
    ∀ symbol ∈ a.request.symbols, Carried before a.request.kind symbol := by
  have due := h before a after split
  rw [Due, removal] at due
  exact due.2

theorem orderly (h : Lawful asked) : Orderly asked :=
  ⟨h.openedOnce, fun _ _ _ _ _ => h.opensAgain, fun _ _ _ => h.removesCarried⟩

end Lawful

/-! ### The session -/

/-- Every symbol that is listened to is carried. -/
def Serves (registry : Registry) (asked : List Asked) : Prop :=
  ∀ kind symbol, registry.listens kind symbol = true → Carried asked kind symbol

theorem Serves.insert {registry : Registry} {asked : List Asked} (h : Serves registry asked) {symbol : String}
    {sub : Subscription} (carried : ∀ kind, sub.listens kind = true → Carried asked kind symbol) :
    Serves ⟨registry.entries.insert symbol sub⟩ asked := by
  intro kind name listens
  rw [Registry.listens_insert] at listens
  split at listens
  · rename_i same
    rw [← same]
    exact carried kind listens
  · exact h kind name listens

/-- The session knows just the streams that were opened, and every request was due. -/
structure Synced (session : StreamSession) (asked : List Asked) : Prop where
  opened : ∀ kind, session.isOpen kind = true ↔ Opened asked kind
  lawful : Lawful asked

theorem synced_start : Synced .start [] :=
  ⟨fun _ => ⟨fun h => (nomatch h), fun ⟨_, h, _⟩ => (nomatch h)⟩, lawful_nil⟩

theorem serves_empty (asked : List Asked) : Serves .empty asked := fun _ _ h => (nomatch h)

theorem not_drops_entry (session : StreamSession) (kind k : StreamKind) (symbol name : String) (taken : Bool) :
    ¬ Asked.Drops ⟨session.entry kind symbol, taken⟩ k name :=
  fun drops => Service.entry_ne_removal session kind symbol _ drops.2.2.1 rfl

theorem not_drops_removal {kind k : StreamKind} {symbol name : String} (other : (k, name) ≠ (kind, symbol))
    (taken : Bool) : ¬ Asked.Drops ⟨.removal kind symbol, taken⟩ k name := by
  rintro ⟨-, own, -, listed⟩
  exact other (Prod.ext own.symm (List.mem_singleton.mp listed))

theorem not_drops_rejected (r : StreamRequest) (k : StreamKind) (name : String) :
    ¬ Asked.Drops ⟨r, false⟩ k name :=
  fun drops => (nomatch drops.1)

theorem brings_entry (session : StreamSession) (kind : StreamKind) (symbol : String) :
    Asked.Brings ⟨session.entry kind symbol, true⟩ kind symbol :=
  ⟨rfl, rfl, fun removal => Service.entry_ne_removal session kind symbol _ removal rfl, List.mem_singleton.mpr rfl⟩

theorem opens_entry (session : StreamSession) (kind k : StreamKind) (symbol : String) :
    Asked.Opens ⟨session.entry kind symbol, true⟩ k ↔ k = kind ∧ session.isOpen kind = false := by
  cases h : session.isOpen kind <;> simp [Asked.Opens, StreamSession.entry, StreamSession.entering, h, eq_comm]

namespace Synced
variable {session : StreamSession} {asked : List Asked}

theorem due_entry (h : Synced session asked) (kind : StreamKind) (symbol : String) :
    Due asked (session.entry kind symbol) := by
  have known := h.opened kind
  simp only [StreamSession.entry, StreamSession.entering]
  cases already : session.isOpen kind with
  | true => exact known.mp already
  | false =>
    rw [already] at known
    exact fun opened => absurd (known.mpr opened) Bool.false_ne_true

/-- A request that opens no stream leaves the session as it is. -/
theorem concat (h : Synced session asked) {a : Asked} (due : Due asked a.request)
    (silent : ∀ kind, ¬ a.Opens kind) : Synced session (asked ++ [a]) :=
  ⟨fun kind => by rw [opened_concat, h.opened, or_iff_left (silent kind)], lawful_concat.mpr ⟨h.lawful, due⟩⟩

theorem entered (h : Synced session asked) (kind : StreamKind) (symbol : String) :
    Synced (session.entered kind) (asked ++ [⟨session.entry kind symbol, true⟩]) := by
  refine ⟨fun k => ?_, lawful_concat.mpr ⟨h.lawful, h.due_entry kind symbol⟩⟩
  rw [opened_concat, StreamSession.isOpen_entered, opens_entry, h.opened]
  constructor
  · rintro (rfl | opened)
    · cases already : session.isOpen k with
      | true => exact .inl ((h.opened k).mp already)
      | false => exact .inr ⟨rfl, rfl⟩
    · exact .inl opened
  · rintro (opened | ⟨rfl, -⟩)
    · exact .inr opened
    · exact .inl rfl

theorem removed (h : Synced session asked) {kind : StreamKind} {symbol : String} (carried : Carried asked kind symbol)
    (taken : Bool) : Synced session (asked ++ [⟨.removal kind symbol, taken⟩]) := by
  refine h.concat ⟨List.cons_ne_nil _ _, fun name listed => ?_⟩ fun k opens => (nomatch opens.2.2)
  rw [List.mem_singleton.mp listed]
  exact carried

theorem rejected (h : Synced session asked) (kind : StreamKind) (symbol : String) :
    Synced session (asked ++ [⟨session.entry kind symbol, false⟩]) :=
  h.concat (h.due_entry kind symbol) fun _ opens => (nomatch opens.1)

section Requests
variable {β : Type} [Brokerage β] {b : Recorded β}

/-- Bringing a symbol in takes none out, and once it is taken the symbol is carried. -/
theorem enterIf (h : Synced session b.asked) (wanted : Bool) (kind : StreamKind) (symbol : String) :
    ∃ session' b' result, StreamSession.enterIf wanted session b kind symbol = (session', b', result) ∧
      Synced session' b'.asked ∧ (∀ k name, Carried b.asked k name → Carried b'.asked k name) ∧
      (result = .ok () → wanted = true → Carried b'.asked kind symbol) := by
  cases wanted with
  | false => exact ⟨session, b, .ok (), rfl, h, fun _ _ => id, fun _ unwanted => (nomatch unwanted)⟩
  | true =>
    have kept : ∀ taken k name, Carried b.asked k name →
        Carried (b.asked ++ [⟨session.entry kind symbol, taken⟩]) k name :=
      fun taken k name before => before.concat (not_drops_entry session kind k symbol name taken)
    rcases session.enterKind_cases b kind symbol with ⟨inner, entered⟩ | ⟨inner, f, entered⟩
    · exact ⟨_, _, _, entered, h.entered kind symbol, kept true,
        fun _ _ => carried_concat_of_brings b.asked (brings_entry session kind symbol)⟩
    · exact ⟨_, _, _, entered, h.rejected kind symbol, kept false, fun ok => (nomatch ok)⟩

/-- Taking a carried symbol out takes no other out, and none if it is rejected. -/
theorem leaveIf (h : Synced session b.asked) (wanted : Bool) {kind : StreamKind} {symbol : String}
    (carried : wanted = true → Carried b.asked kind symbol) :
    ∃ b' result, StreamSession.leaveIf wanted b kind symbol = (b', result) ∧ Synced session b'.asked ∧
      ∀ k name, Carried b.asked k name →
        (result = .ok () → wanted = true → (k, name) ≠ (kind, symbol)) → Carried b'.asked k name := by
  cases wanted with
  | false => exact ⟨b, .ok (), rfl, h, fun _ _ before _ => before⟩
  | true =>
    obtain ⟨inner, result, left⟩ := StreamSession.leaveKind_cases b kind symbol
    refine ⟨_, result, left, h.removed (carried rfl) result.isOk, fun k name before other => before.concat ?_⟩
    cases result with
    | ok _ => exact not_drops_removal (other rfl rfl) true
    | error f => exact not_drops_rejected _ k name

variable {registry : Registry}

/-- A symbol that nobody listens to yet is brought in, or nothing changes for the others. -/
theorem enter (h : Synced session b.asked) (serves : Serves registry b.asked) {symbol : String}
    (new : registry.isSubscribed symbol = false) (sub : Subscription) :
    ∃ session' b' result, session.enter b symbol sub = (session', b', result) ∧ Synced session' b'.asked ∧
      Serves registry b'.asked ∧
      (result = .ok () → ∀ kind, sub.listens kind = true → Carried b'.asked kind symbol) := by
  obtain ⟨session₁, b₁, result₁, charts, synced₁, kept₁, carried₁⟩ :=
    h.enterIf (!sub.charts.isEmpty) .chart symbol
  rw [StreamSession.enter, charts]
  cases result₁ with
  | error f =>
    exact ⟨session₁, b₁, _, rfl, synced₁, fun kind name own => kept₁ kind name (serves kind name own),
      fun ok => by cases ok⟩
  | ok _ =>
    obtain ⟨session₂, b₂, result₂, quotes, synced₂, kept₂, carried₂⟩ := synced₁.enterIf sub.quotes .quote symbol
    simp only [quotes]
    have served : Serves registry b₂.asked := fun kind name own =>
      kept₂ kind name (kept₁ kind name (serves kind name own))
    cases result₂ with
    | ok _ =>
      refine ⟨session₂, b₂, .ok (), rfl, synced₂, served, fun _ kind listens => ?_⟩
      cases kind with
      | chart => exact kept₂ _ _ (carried₁ rfl listens)
      | quote => exact carried₂ rfl listens
    | error f =>
      -- The charts are undone, if they were brought in.
      obtain ⟨b₃, result₃, undone, synced₃, kept₃⟩ :=
        synced₂.leaveIf (!sub.charts.isEmpty) fun wanted => kept₂ .chart symbol (carried₁ rfl wanted)
      have undo : (if !sub.charts.isEmpty then (StreamSession.leaveKind b₂ .chart symbol).1 else b₂) = b₃ := by
        have first : (StreamSession.leaveIf (!sub.charts.isEmpty) b₂ .chart symbol).1 = b₃ :=
          congrArg Prod.fst undone
        rw [← first, StreamSession.leaveIf]
        split <;> rfl
      refine ⟨session₂, b₃, .error f, by simp only [undo], synced₃, fun kind name own => ?_,
        fun ok => by cases ok⟩
      refine kept₃ kind name (served kind name own) fun _ _ same => ?_
      rw [(Prod.mk.inj same).2] at own
      rw [Registry.isSubscribed_of_listens own] at new
      cases new

/-- Taking a symbol out leaves carried what its teardown leaves listened to. -/
theorem leave (h : Synced session b.asked) (serves : Serves registry b.asked) {symbol : String}
    {sub : Subscription} (found : registry.find? symbol = some sub) :
    ∃ b' t, StreamSession.leave b symbol sub = (b', t) ∧ Synced session b'.asked ∧
      Serves (registry.detach symbol t).1 b'.asked := by
  have own := Registry.listens_of_find? found
  obtain ⟨b₁, result₁, charts, synced₁, kept₁⟩ :=
    h.leaveIf (!sub.charts.isEmpty) fun wanted => serves .chart symbol ((own .chart).trans wanted)
  rw [StreamSession.leave, charts]
  cases result₁ with
  | error f => exact ⟨b₁, _, rfl, synced₁, fun kind name listens =>
      kept₁ kind name (serves kind name listens) fun ok => by cases ok⟩
  | ok _ =>
    have quoted : sub.quotes = true → Carried b₁.asked .quote symbol := fun wanted =>
      kept₁ .quote symbol (serves .quote symbol ((own .quote).trans wanted)) fun _ _ same => by cases same
    obtain ⟨b₂, result₂, quotes, synced₂, kept₂⟩ := synced₁.leaveIf sub.quotes quoted
    simp only [quotes]
    refine ⟨b₂, _, rfl, synced₂, fun kind name listens => ?_⟩
    cases result₂ with
    | ok _ =>
      rw [Registry.listens_detach_ok, Bool.and_eq_true, decide_eq_true_eq] at listens
      obtain ⟨other, listens⟩ := listens
      refine kept₂ kind name (kept₁ kind name (serves kind name listens) ?_) ?_ <;>
        exact fun _ _ same => other (Prod.mk.inj same).2.symm
    | error f =>
      rw [Registry.listens_detach_error, Bool.and_eq_true, decide_eq_true_eq] at listens
      obtain ⟨other, listens⟩ := listens
      refine kept₂ kind name (kept₁ kind name (serves kind name listens) fun _ _ same => ?_) fun ok => by cases ok
      exact other (Prod.mk.inj same).1 (Prod.mk.inj same).2.symm

end Requests
end Synced

/-! ### Calls on a session and its registry -/

/-- A session with the exchange, the registry of what it streams, and the exchange. -/
structure Subscriptions (β : Type) where
  session : StreamSession
  registry : Registry
  exchange : Recorded β

namespace Subscriptions
variable {β : Type} [Brokerage β]

def start (b : β) : Subscriptions β := ⟨.start, .empty, ⟨b, []⟩⟩

/-- Streams a symbol for the listeners of a subscription, unless it is streamed already. -/
def subscribe (s : Subscriptions β) (symbol : String) (sub : Subscription) : Subscriptions β :=
  if s.registry.isSubscribed symbol then s
  else
    match s.session.enter s.exchange symbol sub with
    | (session, exchange, .error _) => { s with session, exchange }
    | (session, exchange, .ok ()) =>
      match s.registry.insert symbol sub with
      | .error _ => { s with session, exchange }
      | .ok registry => ⟨session, registry, exchange⟩

/-- Takes a symbol out of the streams it is in. -/
def unsubscribe (s : Subscriptions β) (symbol : String) : Subscriptions β :=
  match s.registry.find? symbol with
  | none => s
  | some sub =>
    let (exchange, t) := StreamSession.leave s.exchange symbol sub
    { s with registry := (s.registry.detach symbol t).1, exchange }

/-- A call, for any listeners. -/
inductive Call
  | subscribe (symbol : String) (sub : Subscription)
  | unsubscribe (symbol : String)

def call (s : Subscriptions β) : Call → Subscriptions β
  | .subscribe symbol sub => s.subscribe symbol sub
  | .unsubscribe symbol => s.unsubscribe symbol

def callAll (s : Subscriptions β) (calls : List Call) : Subscriptions β := calls.foldl call s

/-- The session is in step with the requests, and they with the registry. -/
def InStep (s : Subscriptions β) : Prop :=
  Synced s.session s.exchange.asked ∧ Serves s.registry s.exchange.asked

theorem InStep.subscribe {s : Subscriptions β} (h : s.InStep) (symbol : String) (sub : Subscription) :
    (s.subscribe symbol sub).InStep := by
  unfold Subscriptions.subscribe
  split
  · exact h
  · rename_i new
    obtain ⟨session, b, result, entered, synced, serves, carried⟩ := h.1.enter h.2 (eq_false_of_ne_true new) sub
    rw [entered]
    cases result with
    | error f => exact ⟨synced, serves⟩
    | ok _ =>
      simp only [Registry.insert, if_neg new]
      exact ⟨synced, serves.insert (carried rfl)⟩

theorem InStep.unsubscribe {s : Subscriptions β} (h : s.InStep) (symbol : String) : (s.unsubscribe symbol).InStep := by
  unfold Subscriptions.unsubscribe
  split
  · exact h
  · rename_i sub found
    obtain ⟨b, t, left, synced, serves⟩ := h.1.leave h.2 found
    rw [left]
    exact ⟨synced, serves⟩

theorem InStep.callAll {s : Subscriptions β} (h : s.InStep) (calls : List Call) : (s.callAll calls).InStep := by
  refine List.foldlRecOn calls call h fun s h c _ => ?_
  cases c with
  | subscribe symbol sub => exact h.subscribe symbol sub
  | unsubscribe symbol => exact h.unsubscribe symbol

end Subscriptions

/-! ### Calls of users -/

namespace Service
variable {σ β : Type}

/-- The session is in step with the requests, and they with the registry. -/
def InStep (s : Service σ (Recorded β)) : Prop :=
  Synced s.session s.brokerage.asked ∧ Serves s.desk.registry s.brokerage.asked

theorem InStep.of_same {s s' : Service σ (Recorded β)} (h : s.InStep) (same : SameStreams s s') : s'.InStep := by
  rw [InStep, same.session, same.desk, same.asked]
  exact h

theorem inStep_idle (s : Service σ β) : s.idle.InStep := ⟨synced_start, serves_empty []⟩

section Calls
variable [Brokerage β]

theorem InStep.enlist {s : Service σ (Recorded β)} (h : s.InStep) (m : Monitor Float) : (enlist m s).1.InStep := by
  unfold Service.enlist
  split
  · exact h
  split
  · exact h
  rename_i subscribed
  have new := eq_false_of_ne_true subscribed
  obtain ⟨session, b, result, entered, synced, serves, carried⟩ := h.1.enter h.2 new .full
  rw [entered]
  cases result with
  | error f => exact ⟨synced, serves⟩
  | ok _ =>
    simp only [install_new new]
    refine InStep.of_same ⟨synced, ?_⟩ (sameStreams_perform _ _)
    exact serves.insert (carried rfl)

theorem InStep.dismiss {s : Service σ (Recorded β)} (h : s.InStep) (symbol : String) :
    (dismiss symbol s).1.InStep := by
  unfold Service.dismiss
  split
  · exact h
  cases found : s.desk.registry.find? symbol with
  | none => exact h
  | some sub =>
    obtain ⟨b, t, left, synced, serves⟩ := h.1.leave h.2 found
    simp only [left]
    exact ⟨synced, serves⟩

variable [Store σ]

theorem inStep_call {s : Service σ (Recorded β)} (h : s.InStep) (c : Call) : (s.call c).2.InStep := by
  cases c with
  | subscribe now query =>
    have prepared := h.of_same (aside_prepare now query s)
    simp only [call, carryOut_subscribe]
    generalize s.carryOut (prepare now query) = outcome at prepared ⊢
    obtain ⟨e | m, s₁⟩ := outcome
    · exact prepared
    · have enlisted := prepared.enlist m
      dsimp only at enlisted ⊢
      generalize Service.enlist m s₁ = answer at enlisted ⊢
      obtain ⟨s₂, r | snapshot⟩ := answer
      · exact enlisted
      · exact enlisted.of_same ⟨rfl, rfl, rfl, rfl⟩
  | unsubscribe query =>
    simp only [call, carryOut_unsubscribe]
    split
    · exact h
    · have dismissed := h.dismiss (leaving query)
      generalize Service.dismiss (leaving query) s = answer at dismissed ⊢
      obtain ⟨s₁, r | _⟩ := answer
      · exact dismissed
      · have forgotten : SameStreams s₁ (forget (leaving query) s₁) := ⟨rfl, rfl, rfl, rfl⟩
        exact dismissed.of_same (forgotten.trans (sameStreams_publish _ _))

theorem inStep_callAll {s : Service σ (Recorded β)} (h : s.InStep) (calls : List Call) : (s.callAll calls).InStep :=
  List.foldlRecOn calls _ h fun _ h c _ => inStep_call h c

/-- **Stream requests keep to their protocol.** Start with nothing streamed, let subscriptions with any
listeners come and go, and let the exchange reject whatever it likes: of every kind of stream one
opening is taken, first of all, and a rejected one is tried again by the next entry; and whatever is
asked to be removed was brought in and not removed since. What users ask of a service keeps to it
too. -/
theorem requests_orderly (s : Service σ β) :
    (∀ calls, Orderly ((Subscriptions.start s.brokerage).callAll calls).exchange.asked) ∧
      ∀ calls, Orderly (s.idle.callAll calls).brokerage.asked := by
  constructor
  · intro calls
    have start : (Subscriptions.start s.brokerage).InStep := ⟨synced_start, serves_empty []⟩
    exact (start.callAll calls).1.lawful.orderly
  · intro calls
    exact (inStep_callAll s.inStep_idle calls).1.lawful.orderly

end Calls
end Service
end TickerBoard

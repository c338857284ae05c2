import Mathlib.Data.List.Perm.Basic
import TickerBoard.Proofs.Service.Agreement
import TickerBoard.Proofs.Service.Archive
import TickerBoard.Proofs.Table

/-! Whether the stored instruments are the subscribed ones.

A call changes streams and registry in a section of its own, which no other
call may enter meanwhile, and writes to the list of instruments once it has
left it. In between, other calls may go through their sections and write. An
`Office` is a service with what its calls have yet to write, and it takes
sections and writes in any order. The registry follows the sections and the
list follows the writes (`accounted_run`), so that the two agree just if what
was written last about each symbol is what was decided last about it
(`remembered_iff`). After calls that are made one after the other they always
agree (`agreed_callAll`); after two that overlap they need not, although both
have returned (`remembers_unsubscribed`). -/
namespace TickerBoard

/-! ### What is due to be written -/

/-- What a call writes to the list of instruments. -/
inductive Memo
  | remember (symbol : String)
  | forget (symbol : String)
deriving Repr, DecidableEq

namespace Memo

def symbol : Memo → String
  | .remember symbol => symbol
  | .forget symbol => symbol

def remembers : Memo → Bool
  | .remember _ => true
  | .forget _ => false

/-- The last of the memos about a symbol, if there is one, remembers it. -/
def stands (memos : List Memo) (symbol : String) : Bool :=
  (memos.filter (·.symbol = symbol)).getLast?.any remembers

@[simp] theorem stands_nil (symbol : String) : stands [] symbol = false := rfl

@[simp] theorem stands_concat (memos : List Memo) (memo : Memo) (symbol : String) :
    stands (memos ++ [memo]) symbol = if memo.symbol = symbol then memo.remembers else stands memos symbol := by
  by_cases same : memo.symbol = symbol <;> simp [stands, same]

end Memo

namespace Service
variable {σ β : Type}

/-- Writes a memo; only when a symbol is forgotten the audience is told. -/
def write [Store σ] (s : Service σ β) : Memo → Service σ β
  | .remember symbol => remember symbol s
  | .forget symbol => (forget symbol s).publish (.unsubscribeChart symbol)

end Service

/-- A service and the memos of its calls. -/
structure Office (σ β : Type) where
  service : Service σ β
  /-- The memos of all calls that were granted, in the order of their sections. -/
  granted : List Memo
  /-- The memos that have been written, in the order of the writes. -/
  written : List Memo
  /-- The memos of calls that have not returned yet. -/
  due : List Memo

namespace Office
variable {σ β : Type}

/-- What happens in an office at once. -/
inductive Step
  /-- The section of a call that subscribes: its monitor's symbol enters the streams. -/
  | subscribe (m : Monitor Float)
  /-- The section of a call that unsubscribes a symbol. -/
  | unsubscribe (symbol : String)
  /-- The memo at a place of those that are due is written. -/
  | write (place : Nat)

/-- A call has left its section. If it was granted, its memo is due. -/
def leave (o : Office σ β) (s : Service σ β) (granted : Bool) (memo : Memo) : Office σ β :=
  if granted then { o with service := s, granted := o.granted ++ [memo], due := o.due ++ [memo] }
  else { o with service := s }

variable [Store σ] [Brokerage β]

def step (o : Office σ β) : Step → Office σ β
  | .subscribe m =>
    let (s, result) := Service.enlist m o.service
    o.leave s result.isOk (.remember m.symbol)
  | .unsubscribe symbol =>
    let (s, result) := Service.dismiss symbol o.service
    o.leave s result.isOk (.forget symbol)
  | .write place =>
    match o.due[place]? with
    | none => o
    | some memo =>
      { o with service := o.service.write memo, written := o.written ++ [memo], due := o.due.eraseIdx place }

def run (o : Office σ β) (steps : List Step) : Office σ β := steps.foldl step o

/-- The office of a service that subscribes and remembers nothing. -/
def opened (s : Service MemoryStore β) : Office MemoryStore (Recorded β) :=
  ⟨{ s.idle with store := .empty }, [], [], []⟩

end Office

/-! ### What sections and writes come to -/

namespace Service
variable {σ β : Type}

section Sections
variable [Brokerage β]

theorem enlist_store (m : Monitor Float) (s : Service σ β) : (enlist m s).1.store = s.store := by
  unfold enlist
  split
  · rfl
  split
  · rfl
  split
  · rfl
  · exact perform_store ..

/-- Only the symbol of a subscription that is granted is new in the registry. -/
theorem isSubscribed_enlist (m : Monitor Float) (s : Service σ (Recorded β)) (symbol : String) :
    (enlist m s).1.desk.registry.isSubscribed symbol =
      if (enlist m s).2.isOk = true ∧ m.symbol = symbol then true else s.desk.registry.isSubscribed symbol := by
  have course := enlist_course m s
  rcases entered : enlist m s with ⟨s', e | snapshot⟩ <;> rw [entered] at course
  · have desk : s'.desk = s.desk := by
      cases course with
      | unasked _ desk | rejected _ _ desk | undone _ _ _ _ desk => exact desk
    rw [desk]
    rfl
  · obtain ⟨new, -, session, brokerage, rfl⟩ := enlist_ok entered
    rw [perform_desk, install_new new]
    simp only [Registry.isSubscribed, Registry.find?, Table.find?_insert, Except.isOk, Except.toBool, true_and]
    split <;> rfl

theorem dismiss_store (symbol : String) (s : Service σ β) : (dismiss symbol s).1.store = s.store := by
  obtain ⟨brokerage, desk, left⟩ := dismiss_frame symbol s
  rw [left]

/-- An unsubscription that is refused may take the charts, but not the entry. -/
theorem isSubscribed_dismiss (name : String) (s : Service σ (Recorded β)) (symbol : String) :
    (dismiss name s).1.desk.registry.isSubscribed symbol =
      if (dismiss name s).2.isOk = true ∧ name = symbol then false else s.desk.registry.isSubscribed symbol := by
  have course := dismiss_course name s
  rcases left : dismiss name s with ⟨s', result⟩
  rw [left] at course
  generalize outcome : result.mapError Failure.refused = answered at course
  cases course with
  | unasked e desk | rejected e desk =>
    cases result with
    | ok _ => cases outcome
    | error _ => rw [desk]; rfl
  | detached sub teardown found unquoted desk =>
    cases teardown with
    | ok _ =>
      cases result with
      | error _ => cases outcome
      | ok _ =>
        rw [desk, Desk.detach_ok, Desk.isSubscribed_withoutSymbol]
        by_cases same : name = symbol <;> simp [same, Except.isOk, Except.toBool]
    | error f =>
      cases result with
      | ok _ => cases outcome
      | error _ => rw [desk, Desk.detach_error, Desk.isSubscribed_withoutCharts]; rfl

end Sections

/-- The symbol is among the stored instruments. -/
def lists (s : Service MemoryStore β) (symbol : String) : Bool := s.store.instruments.contains symbol

theorem instruments_eq (s : Service MemoryStore β) :
    ∃ names, Store.instruments s.store = .ok names ∧ ∀ symbol, symbol ∈ names ↔ s.lists symbol = true :=
  ⟨_, rfl, s.store.instruments.mem_keys_iff⟩

theorem write_desk [Store σ] (s : Service σ β) (memo : Memo) : (s.write memo).desk = s.desk := by
  cases memo with
  | remember symbol => rfl
  | forget symbol => exact perform_desk (forget symbol s) [.publish (.unsubscribeChart symbol)]

theorem lists_write (s : Service MemoryStore β) (memo : Memo) (symbol : String) :
    (s.write memo).lists symbol = if memo.symbol = symbol then memo.remembers else s.lists symbol := by
  cases memo with
  | remember name =>
    show (s.store.instruments.insert name ()).contains symbol = _
    rw [Table.contains, Table.find?_insert]
    by_cases same : name = symbol <;> simp [same, Memo.symbol, Memo.remembers, lists, Table.contains]
  | forget name =>
    have told : ((forget name s).publish (.unsubscribeChart name)).store = (forget name s).store :=
      perform_store (forget name s) [.publish (.unsubscribeChart name)]
    show ((forget name s).publish _).store.instruments.contains symbol = _
    rw [told]
    show (s.store.instruments.erase name).contains symbol = _
    rw [Table.contains, Table.find?_erase]
    by_cases same : name = symbol <;> simp [same, Memo.symbol, Memo.remembers, lists, Table.contains]

end Service

/-! ### Interleavings -/

namespace Office
variable {β : Type}

/-- Every memo that was granted is written or due; the registry is what was granted, and
the list what was written. -/
structure Accounted (o : Office MemoryStore (Recorded β)) : Prop where
  account : (o.written ++ o.due).Perm o.granted
  registered : ∀ symbol, o.service.desk.registry.isSubscribed symbol = Memo.stands o.granted symbol
  listed : ∀ symbol, o.service.lists symbol = Memo.stands o.written symbol

theorem accounted_opened (s : Service MemoryStore β) : (opened s).Accounted :=
  ⟨.refl _, fun _ => rfl, fun _ => rfl⟩

section Steps
variable {o : Office MemoryStore (Recorded β)}

theorem accounted_leave (h : o.Accounted) {s : Service MemoryStore (Recorded β)} {granted : Bool} {memo : Memo}
    (store : s.store = o.service.store)
    (registered : ∀ symbol, s.desk.registry.isSubscribed symbol =
      if granted = true ∧ memo.symbol = symbol then memo.remembers
      else o.service.desk.registry.isSubscribed symbol) :
    (o.leave s granted memo).Accounted := by
  have listed : ∀ symbol, s.lists symbol = Memo.stands o.written symbol := by
    intro symbol
    rw [← h.listed, Service.lists, store]
    rfl
  cases granted with
  | false =>
    refine ⟨h.account, fun symbol => ?_, listed⟩
    rw [show (o.leave s false memo).service = s from rfl, registered, h.registered]
    simp [leave]
  | true =>
    refine ⟨?_, fun symbol => ?_, listed⟩
    · show (o.written ++ (o.due ++ [memo])).Perm (o.granted ++ [memo])
      rw [← List.append_assoc]
      exact h.account.append_right [memo]
    · rw [show (o.leave s true memo).service = s from rfl, registered, h.registered]
      show _ = Memo.stands (o.granted ++ [memo]) symbol
      simp

variable [Brokerage β]

theorem accounted_step (h : o.Accounted) (step : Step) : (o.step step).Accounted := by
  cases step with
  | subscribe m => exact accounted_leave h (Service.enlist_store m _) (Service.isSubscribed_enlist m _)
  | unsubscribe symbol =>
    exact accounted_leave h (Service.dismiss_store symbol _) (Service.isSubscribed_dismiss symbol _)
  | write place =>
    simp only [Office.step]
    cases found : o.due[place]? with
    | none => exact h
    | some memo =>
      refine ⟨?_, fun symbol => ?_, fun symbol => ?_⟩
      · obtain ⟨inside, rfl⟩ := List.getElem?_eq_some_iff.mp found
        show (o.written ++ [o.due[place]] ++ o.due.eraseIdx place).Perm o.granted
        rw [List.append_assoc]
        exact ((List.getElem_cons_eraseIdx_perm inside).append_left o.written).trans h.account
      · show (o.service.write memo).desk.registry.isSubscribed symbol = _
        rw [Service.write_desk]
        exact h.registered symbol
      · show (o.service.write memo).lists symbol = Memo.stands (o.written ++ [memo]) symbol
        rw [Service.lists_write, Memo.stands_concat, h.listed]

/-- Sections and writes keep the account in any order. -/
theorem accounted_run (h : o.Accounted) (steps : List Step) : (o.run steps).Accounted := by
  induction steps generalizing o with
  | nil => exact h
  | cons step rest ih => exact ih (accounted_step h step)

end Steps
end Office

/-! ### Calls one after the other -/

namespace Service
variable {β : Type}

/-- The stored instruments are the symbols with an entry in the registry. -/
def Agreed (s : Service MemoryStore β) : Prop :=
  ∀ symbol, s.lists symbol = s.desk.registry.isSubscribed symbol

/-- Neither the registry nor the list has changed. -/
structure SameNames (s s' : Service MemoryStore β) : Prop where
  registry : s'.desk.registry = s.desk.registry
  instruments : s'.store.instruments = s.store.instruments

theorem SameNames.refl (s : Service MemoryStore β) : SameNames s s := ⟨rfl, rfl⟩

theorem SameNames.trans {s s' s'' : Service MemoryStore β} (a : SameNames s s') (b : SameNames s' s'') :
    SameNames s s'' :=
  ⟨b.registry.trans a.registry, b.instruments.trans a.instruments⟩

theorem SameNames.agreed {s s' : Service MemoryStore β} (same : SameNames s s') (h : s.Agreed) : s'.Agreed := by
  intro symbol
  rw [lists, same.instruments, same.registry]
  exact h symbol

theorem sameNames_prepare [Brokerage β] (s : Service MemoryStore β) (now : Instant) (query : String) :
    SameNames s (s.carryOut (prepare now query)).2 := by
  have ask {α : Type} (f : β → β × Except Fault α) : Keeps SameNames (ask f) := by
    intro s
    rw [carryOut_ask]
    exact ⟨rfl, rfl⟩
  refine keeps_prepare .refl (fun _ _ _ => .trans) (fun query => ask _) (fun symbol since => ask _)
    (fun symbol bars s => ?_) (fun effects s => ?_) query s
  · rw [carryOut_save]
    exact ⟨rfl, rfl⟩
  · rw [carryOut_modify]
    exact ⟨congrArg _ (perform_desk s effects), congrArg _ (perform_store s effects)⟩

variable {s : Service MemoryStore (Recorded β)}

/-- A section and the write that follows it at once keep list and registry together. -/
theorem agreed_write (memo : Memo) (h : s.Agreed) {s' : Service MemoryStore (Recorded β)}
    (store : s'.store = s.store)
    (registered : ∀ symbol, s'.desk.registry.isSubscribed symbol =
      if memo.symbol = symbol then memo.remembers else s.desk.registry.isSubscribed symbol) :
    (s'.write memo).Agreed := by
  intro symbol
  have listed : s'.lists symbol = s.lists symbol := by rw [lists, store, lists]
  rw [lists_write, write_desk, registered, listed, h symbol]

variable [Brokerage β]

theorem agreed_call (h : s.Agreed) (c : Call) : (s.call c).2.Agreed := by
  cases c with
  | subscribe now query =>
    simp only [call, carryOut_subscribe]
    have prepared := (sameNames_prepare s now query).agreed h
    generalize s.carryOut (prepare now query) = outcome at prepared ⊢
    obtain ⟨e | m, s₁⟩ := outcome
    · exact prepared
    have store := enlist_store m s₁
    have registered := isSubscribed_enlist m s₁
    dsimp only at prepared ⊢
    generalize enlist m s₁ = enlisted at store registered ⊢
    obtain ⟨s₂, r | snapshot⟩ := enlisted
    · intro symbol
      dsimp only at store registered ⊢
      rw [lists, store, registered]
      exact prepared symbol
    · exact agreed_write (.remember m.symbol) prepared store fun symbol =>
        (registered symbol).trans (if_congr (and_iff_right rfl) rfl rfl)
  | unsubscribe query =>
    simp only [call, carryOut_unsubscribe]
    generalize leaving query = name
    split
    · exact h
    have store := dismiss_store name s
    have registered := isSubscribed_dismiss name s
    generalize dismiss name s = dismissed at store registered ⊢
    obtain ⟨s₁, r | _⟩ := dismissed
    · intro symbol
      dsimp only at store registered ⊢
      rw [lists, store, registered]
      exact h symbol
    · exact agreed_write (.forget name) h store fun symbol =>
        (registered symbol).trans (if_congr (and_iff_right rfl) rfl rfl)

theorem agreed_callAll (h : s.Agreed) (calls : List Call) : (s.callAll calls).Agreed := by
  induction calls using List.reverseRecOn with
  | nil => exact h
  | append_singleton calls c ih =>
    rw [callAll_concat]
    exact agreed_call ih c

end Service

namespace Office
variable {β : Type} [Brokerage β]

/-- **The stored instruments are the subscribed ones if and only if what was written last
about each symbol is what was decided last about it.** Start with nothing subscribed and
nothing stored, and let sections of calls that subscribe and unsubscribe, and the writes of
those that were granted, come in any order, while the exchange rejects whatever stream
requests it likes. Each memo that was granted is written once or still due; a symbol has an
entry in the registry just if the last section about it subscribed it, and is stored just if
the last write about it remembered it. So list and registry agree just in that case, also
when nothing is due any more. After calls made one after the other they always agree. -/
theorem remembered_iff (s : Service MemoryStore β) (steps : List Step) (calls : List Service.Call) :
    let after := (opened s).run steps
    let registry := after.service.desk.registry
    let sequel := (opened s).service.callAll calls
    (after.written ++ after.due).Perm after.granted ∧
    (∀ symbol, registry.isSubscribed symbol = Memo.stands after.granted symbol) ∧
    (∃ names, Store.instruments after.service.store = .ok names ∧
      (∀ symbol, symbol ∈ names ↔ Memo.stands after.written symbol = true) ∧
      ((∀ symbol, symbol ∈ names ↔ registry.isSubscribed symbol = true) ↔
        ∀ symbol, Memo.stands after.written symbol = Memo.stands after.granted symbol)) ∧
    ∃ names, Store.instruments sequel.store = .ok names ∧
      ∀ symbol, symbol ∈ names ↔ sequel.desk.registry.isSubscribed symbol = true := by
  intro after registry sequel
  have accounted := accounted_run (accounted_opened s) steps
  obtain ⟨names, stored, listed⟩ := after.service.instruments_eq
  obtain ⟨names', stored', listed'⟩ := sequel.instruments_eq
  have agreed : sequel.Agreed := Service.agreed_callAll (fun _ => rfl) calls
  refine ⟨accounted.account, accounted.registered,
    ⟨names, stored, fun symbol => ?_, forall_congr' fun symbol => ?_⟩,
    names', stored', fun symbol => by rw [listed', agreed]⟩
  · rw [listed, accounted.listed]
  · rw [listed, accounted.listed, accounted.registered, ← Bool.eq_iff_iff]

/-- A symbol is subscribed, and unsubscribed before the first call has written; then the
second call writes, and the first one. -/
def overlapping : List Step :=
  [.subscribe Desk.plainMonitor, .unsubscribe "XYZ", .write 1, .write 0]

/-- All calls have returned, the symbol has no entry in the registry, and it is stored. -/
theorem remembers_unsubscribed :
    let after := (opened Service.plainService).run overlapping
    after.due = [] ∧ after.service.desk.registry.isSubscribed "XYZ" = false ∧
      Store.instruments after.service.store = .ok ["XYZ"] :=
  ⟨rfl, rfl, rfl⟩

end Office
end TickerBoard

import Mathlib.Data.Set.Card
import TickerBoard.Proofs.Table
import TickerBoard.Viewer.Audience

/-! What reaches each viewer.

An audience is looked at through the eyes of one viewer: of a move it sees its
own joining, leaving and receiving, and every publication (`sight`). Its mailbox
is a machine of its own that these drive (`Mailbox.see`), whatever the other
viewers do, so that all it receives is read off what it sees
(`received_eq_handsAll`). The machine keeps account: what was handed out and
what waits is what was let in (`Mailbox.see_account`). -/
namespace TickerBoard

/-- What a viewer sees of a move of the audience. -/
inductive Sight (π : Type)
  | joined
  | disconnected
  | left
  | published (p : π)
  | received
  | drained
deriving Repr, DecidableEq

namespace Sight
variable {π : Type}

/-- Whether the viewer is registered after it saw something. -/
def keeps (here : Bool) : Sight π → Bool
  | joined => true
  | disconnected | left => false
  | published _ | received | drained => here

/-- The viewer has joined, and was neither disconnected nor gone since. -/
def present (sights : List (Sight π)) : Bool := sights.foldl keeps false

end Sight

namespace Mailbox
variable {π : Type}

/-- A publication reaches the mailbox. -/
def admits (bound : Nat) (m : Mailbox π) : Bool := m.isRegistered && m.waiting.length < bound

/-- A viewer's mailbox, if it has one, after the viewer saw something. -/
def see (bound : Nat) (box : Option (Mailbox π)) : Sight π → Option (Mailbox π)
  | .joined => some ⟨[], true⟩
  | .disconnected => box.map fun m => { m with isRegistered := false }
  | .left => none
  | .published p => box.map fun m => if m.admits bound then { m with waiting := m.waiting ++ [p] } else m
  | .received => box.map fun m => { m with waiting := m.waiting.tail }
  | .drained => box.map fun m => { m with waiting := [] }

/-- What the mailbox hands to its viewer. -/
def hands (box : Option (Mailbox π)) : Sight π → List π
  | .received => (box.bind (·.waiting.head?)).toList
  | .drained => (box.map (·.waiting)).getD []
  | .joined | .disconnected | .left | .published _ => []

/-- What is let into the mailbox. -/
def lets (bound : Nat) (box : Option (Mailbox π)) : Sight π → List π
  | .published p => if box.any (admits bound) then [p] else []
  | .joined | .disconnected | .left | .received | .drained => []

def handsAll (bound : Nat) (box : Option (Mailbox π)) : List (Sight π) → List π
  | [] => []
  | s :: rest => hands box s ++ handsAll bound (see bound box s) rest

/-- What is handed out and what waits then is what waited and what is let in. -/
theorem see_account {bound : Nat} {m m' : Mailbox π} {s : Sight π} (same : s ≠ .joined)
    (h : see bound (some m) s = some m') :
    hands (some m) s ++ m'.waiting = m.waiting ++ lets bound (some m) s := by
  cases s with
  | joined => exact absurd rfl same
  | left => cases h
  | disconnected =>
    obtain rfl := Option.some.inj h
    simp [hands, lets]
  | published p =>
    obtain rfl := Option.some.inj h
    cases open_ : m.admits bound <;> simp [hands, lets, open_]
  | received =>
    obtain rfl := Option.some.inj h
    cases waiting : m.waiting <;> simp [hands, lets, waiting]
  | drained =>
    obtain rfl := Option.some.inj h
    simp [hands, lets]

theorem see_bounded {bound : Nat} {box : Option (Mailbox π)} {m' : Mailbox π} {s : Sight π}
    (before : ∀ m, box = some m → m.waiting.length ≤ bound) (h : see bound box s = some m') :
    m'.waiting.length ≤ bound := by
  cases box with
  | none =>
    cases s with
    | joined =>
      obtain rfl := Option.some.inj h
      exact Nat.zero_le _
    | disconnected | left | published _ | received | drained => cases h
  | some m =>
    have before := before m rfl
    cases s with
    | left => cases h
    | joined | drained =>
      obtain rfl := Option.some.inj h
      exact Nat.zero_le _
    | disconnected =>
      obtain rfl := Option.some.inj h
      exact before
    | published p =>
      obtain rfl := Option.some.inj h
      dsimp only
      split
      · rename_i room
        simp only [admits, Bool.and_eq_true, decide_eq_true_eq] at room
        rw [List.length_append, List.length_singleton]
        exact room.2
      · exact before
    | received =>
      obtain rfl := Option.some.inj h
      rw [List.length_tail]
      omega

theorem see_registered (bound : Nat) (box : Option (Mailbox π)) (s : Sight π) :
    (see bound box s).any (·.isRegistered) = s.keeps (box.any (·.isRegistered)) := by
  cases box <;> cases s <;>
    simp only [see, Sight.keeps, Option.map_none, Option.map_some, Option.any_none, Option.any_some]
  split <;> rfl

end Mailbox

namespace Audience
variable {π : Type}

/-! ### Moves -/

/-- What may happen to an audience. -/
inductive Move (π : Type)
  | join
  | disconnect (id : Nat)
  | leave (id : Nat)
  | publish (p : π)
  | receive (id : Nat)
  | drain (id : Nat)
deriving Repr, DecidableEq

/-- The audience after a move. Where there can be no queue, nobody joins. -/
def act (a : Audience π) : Move π → Audience π
  | .join => (a.join?.map (·.1)).getD a
  | .disconnect id => a.disconnect id
  | .leave id => a.leave id
  | .publish p => (a.publish p).1
  | .receive id => (a.receive id).1
  | .drain id => (a.drain id).1

def run (a : Audience π) (moves : List (Move π)) : Audience π := moves.foldl act a

/-- What a move hands to a viewer. -/
def handed (a : Audience π) (viewer : Nat) : Move π → List π
  | .receive id => if id = viewer then (a.receive id).2.toList else []
  | .drain id => if id = viewer then (a.drain id).2 else []
  | .join | .disconnect _ | .leave _ | .publish _ => []

/-- All that moves hand to a viewer. -/
def received (a : Audience π) (viewer : Nat) : List (Move π) → List π
  | [] => []
  | m :: rest => a.handed viewer m ++ (a.act m).received viewer rest

/-- The viewer is registered, and fewer than `bound` publications wait for it. -/
def admits (a : Audience π) (bound viewer : Nat) : Bool := (a.mailboxes.find? viewer).any (Mailbox.admits bound)

/-- The publications made when the viewer was registered and fewer than `bound` waited for it. -/
def admitted (a : Audience π) (bound viewer : Nat) : List (Move π) → List π
  | [] => []
  | .publish p :: rest =>
    (if a.admits bound viewer then [p] else []) ++ (a.act (.publish p)).admitted bound viewer rest
  | m :: rest => (a.act m).admitted bound viewer rest

/-- What a viewer sees of a move: its own, and publications. -/
def sight (a : Audience π) (viewer : Nat) : Move π → Option (Sight π)
  | .join => if a.join?.any (·.2 = viewer) then some .joined else none
  | .disconnect id => if id = viewer then some .disconnected else none
  | .leave id => if id = viewer then some .left else none
  | .publish p => some (.published p)
  | .receive id => if id = viewer then some .received else none
  | .drain id => if id = viewer then some .drained else none

def seenBy (a : Audience π) (viewer : Nat) : List (Move π) → List (Sight π)
  | [] => []
  | m :: rest => (a.sight viewer m).toList ++ (a.act m).seenBy viewer rest

@[simp] theorem capacity_act (a : Audience π) (m : Move π) : (a.act m).capacity = a.capacity := by
  cases m with
  | join =>
    simp only [act, join?]
    split <;> rfl
  | disconnect _ | leave _ | publish _ | receive _ | drain _ => rfl

/-- A viewer's mailbox changes by what the viewer sees, and by nothing else. -/
theorem find?_act (a : Audience π) (m : Move π) (viewer : Nat) :
    (a.act m).mailboxes.find? viewer =
      ((a.sight viewer m).map (Mailbox.see a.capacity (a.mailboxes.find? viewer))).getD (a.mailboxes.find? viewer) := by
  cases m with
  | join =>
    simp only [act, sight, join?]
    split
    · by_cases own : a.lastId + 1 = viewer <;> simp [own, Mailbox.see]
    · rfl
  | disconnect id => by_cases own : id = viewer <;> simp [act, sight, disconnect, own, Mailbox.see]
  | leave id => by_cases own : id = viewer <;> simp [act, sight, leave, own, Mailbox.see]
  | publish p =>
    simp only [act, sight, publish, Table.find?_mapValues]
    rfl
  | receive id => by_cases own : id = viewer <;> simp [act, sight, receive, own, Mailbox.see]
  | drain id => by_cases own : id = viewer <;> simp [act, sight, drain, own, Mailbox.see]

theorem handed_eq (a : Audience π) (m : Move π) (viewer : Nat) :
    a.handed viewer m = ((a.sight viewer m).map (Mailbox.hands (a.mailboxes.find? viewer))).getD [] := by
  cases m with
  | join =>
    simp only [handed, sight]
    split <;> rfl
  | disconnect id | leave id => by_cases own : id = viewer <;> simp [handed, sight, own, Mailbox.hands]
  | publish p => rfl
  | receive id => by_cases own : id = viewer <;> simp [handed, sight, receive, own, Mailbox.hands]
  | drain id => by_cases own : id = viewer <;> simp [handed, sight, drain, own, Mailbox.hands]

/-! ### Runs -/

theorem run_concat (a : Audience π) (moves : List (Move π)) (m : Move π) :
    a.run (moves ++ [m]) = (a.run moves).act m := by
  rw [run, List.foldl_append]
  rfl

theorem capacity_run (a : Audience π) (moves : List (Move π)) : (a.run moves).capacity = a.capacity := by
  induction moves generalizing a with
  | nil => rfl
  | cons m rest ih => exact (ih (a.act m)).trans (capacity_act a m)

theorem received_append (a : Audience π) (viewer : Nat) (first later : List (Move π)) :
    a.received viewer (first ++ later) = a.received viewer first ++ (a.run first).received viewer later := by
  induction first generalizing a with
  | nil => rfl
  | cons m rest ih =>
    rw [List.cons_append, received, ih, received, List.append_assoc]
    rfl

/-- What a move lets into the mailbox of a viewer. -/
def lets (a : Audience π) (bound viewer : Nat) (m : Move π) : List π := a.admitted bound viewer [m]

theorem admitted_cons (a : Audience π) (bound viewer : Nat) (m : Move π) (rest : List (Move π)) :
    a.admitted bound viewer (m :: rest) = a.lets bound viewer m ++ (a.act m).admitted bound viewer rest := by
  cases m <;> simp [lets, admitted]

theorem admitted_append (a : Audience π) (bound viewer : Nat) (first later : List (Move π)) :
    a.admitted bound viewer (first ++ later) =
      a.admitted bound viewer first ++ (a.run first).admitted bound viewer later := by
  induction first generalizing a with
  | nil => rfl
  | cons m rest ih =>
    rw [List.cons_append, admitted_cons, ih, admitted_cons, List.append_assoc]
    rfl

theorem lets_eq (a : Audience π) (bound viewer : Nat) (m : Move π) :
    a.lets bound viewer m =
      ((a.sight viewer m).map (Mailbox.lets bound (a.mailboxes.find? viewer))).getD [] := by
  cases m with
  | publish p =>
    simp only [lets, admitted, List.append_nil]
    rfl
  | join | disconnect _ | leave _ | receive _ | drain _ =>
    simp only [lets, admitted, sight]
    split <;> rfl

/-- All that a viewer receives is read off what it sees. -/
theorem received_eq_handsAll (a : Audience π) (viewer : Nat) (moves : List (Move π)) :
    a.received viewer moves = Mailbox.handsAll a.capacity (a.mailboxes.find? viewer) (a.seenBy viewer moves) := by
  induction moves generalizing a with
  | nil => rfl
  | cons m rest ih =>
    rw [received, seenBy, ih, find?_act, handed_eq, capacity_act]
    cases a.sight viewer m <;> rfl

theorem registered_run (a : Audience π) (viewer : Nat) (moves : List (Move π)) :
    ((a.run moves).mailboxes.find? viewer).any (·.isRegistered) =
      (a.seenBy viewer moves).foldl Sight.keeps ((a.mailboxes.find? viewer).any (·.isRegistered)) := by
  induction moves generalizing a with
  | nil => rfl
  | cons m rest ih =>
    have later : (a.run (m :: rest)) = (a.act m).run rest := rfl
    rw [later, ih, seenBy, List.foldl_append, find?_act]
    cases a.sight viewer m with
    | none => rfl
    | some s =>
      exact congrArg (List.foldl Sight.keeps · ((a.act m).seenBy viewer rest)) (Mailbox.see_registered _ _ s)

/-! ### What holds of every audience -/

/-- Mailboxes are listed by the numbers of their viewers, none of which is past the newest. -/
structure Numbered (a : Audience π) : Prop where
  ascending : a.mailboxes.Ascending
  known : ∀ viewer, a.lastId < viewer → a.mailboxes.find? viewer = none

theorem numbered_ofCapacity (n : Nat) : (ofCapacity n : Audience π).Numbered :=
  ⟨Table.ascending_empty, fun _ _ => rfl⟩

theorem lastId_act (a : Audience π) (m : Move π) : a.lastId ≤ (a.act m).lastId := by
  cases m with
  | join =>
    simp only [act, join?]
    split
    · exact Nat.le_succ _
    · exact Nat.le_refl _
  | disconnect _ | leave _ | publish _ | receive _ | drain _ => exact Nat.le_refl _

/-- Only the newest viewer has just joined. -/
theorem joined_of_sight {a : Audience π} {m : Move π} {viewer : Nat} (h : a.sight viewer m = some .joined) :
    a.lastId < viewer ∧ viewer ≤ (a.act m).lastId := by
  cases m with
  | join =>
    by_cases room : a.capacity ≤ Capacity.limit
    · simp only [sight, act, join?, if_pos room, Option.any_some, decide_eq_true_eq, Option.map_some,
        Option.getD_some] at h ⊢
      split at h
      · omega
      · cases h
    · simp [sight, join?, room] at h
  | disconnect _ | leave _ | receive _ | drain _ =>
    simp only [sight] at h
    split at h <;> cases h
  | publish p => cases h

theorem Numbered.act {a : Audience π} (h : a.Numbered) (m : Move π) : (a.act m).Numbered := by
  constructor
  · cases m with
    | join =>
      simp only [Audience.act, join?]
      split
      · exact Table.ascending_insert h.ascending _ _
      · exact h.ascending
    | leave id => exact Table.ascending_erase h.ascending id
    | publish p => exact Table.ascending_of_keys h.ascending (Table.keys_mapValues _ _)
    | disconnect id | receive id | drain id => exact Table.ascending_of_keys h.ascending (Table.keys_modify _ id _)
  · intro viewer later
    have none := h.known viewer (Nat.lt_of_le_of_lt (lastId_act a m) later)
    rw [find?_act, none]
    cases seen : a.sight viewer m with
    | none => rfl
    | some s =>
      cases s with
      | joined => exact absurd (joined_of_sight seen).2 (Nat.not_le.mpr later)
      | disconnected | left | published _ | received | drained => rfl

theorem Numbered.run {a : Audience π} (h : a.Numbered) (moves : List (Move π)) : (a.run moves).Numbered :=
  List.foldlRecOn moves _ h fun _ h m _ => h.act m

/-! ### Delivery -/

/-- What a viewer received and what waits for it is what was admitted; before it joins, that is nothing. -/
structure Accounts (a : Audience π) (bound viewer : Nat) (received admitted : List π) : Prop where
  unknown : a.lastId < viewer → received = [] ∧ admitted = []
  waiting : ∀ m, a.mailboxes.find? viewer = some m → received ++ m.waiting = admitted

theorem Accounts.act {a : Audience π} (numbered : a.Numbered) {viewer : Nat} {received admitted : List π}
    (h : a.Accounts a.capacity viewer received admitted) (m : Move π) :
    (a.act m).Accounts (a.act m).capacity viewer (received ++ a.handed viewer m)
      (admitted ++ a.lets a.capacity viewer m) := by
  constructor
  · intro later
    have unknown := Nat.lt_of_le_of_lt (lastId_act a m) later
    have none := numbered.known viewer unknown
    obtain ⟨rfl, rfl⟩ := h.unknown unknown
    rw [handed_eq, lets_eq, none]
    cases a.sight viewer m with
    | none => exact ⟨rfl, rfl⟩
    | some s => cases s <;> exact ⟨rfl, rfl⟩
  · intro box found
    rw [find?_act] at found
    rw [handed_eq, lets_eq]
    cases seen : a.sight viewer m with
    | none =>
      rw [seen] at found
      simpa using h.waiting box found
    | some s =>
      rw [seen] at found
      by_cases joins : s = .joined
      · subst joins
        obtain ⟨rfl, rfl⟩ := h.unknown (joined_of_sight seen).1
        obtain rfl := Option.some.inj found
        rfl
      · cases before : a.mailboxes.find? viewer with
        | none =>
          rw [before] at found
          cases s with
          | joined => exact absurd rfl joins
          | disconnected | left | published _ | received | drained => cases found
        | some m₀ =>
          rw [before] at found
          have account := Mailbox.see_account joins found
          have waited := h.waiting m₀ before
          simp only [Option.map_some, Option.getD_some]
          rw [List.append_assoc, account, ← List.append_assoc, waited]

theorem accounts_run {a : Audience π} (numbered : a.Numbered) {viewer : Nat}
    (start : a.Accounts a.capacity viewer [] []) (moves : List (Move π)) :
    (a.run moves).Accounts (a.run moves).capacity viewer (a.received viewer moves)
      (a.admitted a.capacity viewer moves) := by
  induction moves using List.reverseRecOn with
  | nil => exact start
  | append_singleton moves m ih =>
    have next := ih.act (numbered.run moves) m
    rw [run_concat, received_append, admitted_append]
    rw [capacity_run] at next
    have handed : (a.run moves).received viewer [m] = (a.run moves).handed viewer m := List.append_nil _
    rw [handed]
    exact next

/-- A viewer that is gone stays gone. -/
theorem gone {a : Audience π} (bound : Nat) {viewer : Nat} (known : viewer ≤ a.lastId)
    (none : a.mailboxes.find? viewer = none) (moves : List (Move π)) :
    a.received viewer moves = [] ∧ a.admitted bound viewer moves = [] := by
  induction moves generalizing a with
  | nil => exact ⟨rfl, rfl⟩
  | cons m rest ih =>
    have silent : a.handed viewer m = [] ∧ a.lets bound viewer m = [] ∧
        (a.act m).mailboxes.find? viewer = .none := by
      rw [handed_eq, lets_eq, find?_act, none]
      cases seen : a.sight viewer m with
      | none => exact ⟨rfl, rfl, rfl⟩
      | some s =>
        cases s with
        | joined => exact absurd (joined_of_sight seen).1 (Nat.not_lt.mpr known)
        | disconnected | left | published _ | received | drained => exact ⟨rfl, rfl, rfl⟩
    obtain ⟨unhanded, unlet, absent⟩ := silent
    obtain ⟨rest₁, rest₂⟩ := ih (Nat.le_trans known (lastId_act a m)) absent
    rw [received, admitted_cons, unhanded, unlet, rest₁, rest₂]
    exact ⟨rfl, rfl⟩

theorem bounded_run {a : Audience π} {viewer : Nat}
    (start : ∀ m, a.mailboxes.find? viewer = some m → m.waiting.length ≤ a.capacity) (moves : List (Move π)) :
    ∀ m, (a.run moves).mailboxes.find? viewer = some m → m.waiting.length ≤ a.capacity := by
  induction moves generalizing a with
  | nil => exact start
  | cons m rest ih =>
    rw [← capacity_act a m]
    refine ih fun box found => ?_
    rw [capacity_act]
    rw [find?_act] at found
    cases seen : a.sight viewer m with
    | none =>
      rw [seen] at found
      exact start box found
    | some s =>
      rw [seen] at found
      exact Mailbox.see_bounded start found

/-! ### Reports -/

/-- The viewers whose mailboxes are of some kind are as many as these mailboxes. -/
theorem Numbered.ncard_viewers {a : Audience π} (h : a.Numbered) (p : Mailbox π → Bool) :
    {viewer | (a.mailboxes.find? viewer).any p = true}.ncard = a.mailboxes.values.countP p := by
  let entries := a.mailboxes.entries.filter fun e => p e.2
  have distinct : (entries.map Prod.fst).Nodup := by
    refine List.pairwise_map.mpr ((h.ascending.imp fun before => ?_).filter _)
    exact Table.ne_of_compare_lt before
  have viewers : {viewer | (a.mailboxes.find? viewer).any p = true} = ((entries.map Prod.fst).toFinset : Set Nat) := by
    ext viewer
    simp only [Set.mem_ofPred_eq, Option.any_eq_true, Table.find?_eq_some h.ascending, List.coe_toFinset, List.mem_map,
      entries, List.mem_filter, Prod.exists, exists_and_right, exists_eq_right]
  rw [viewers, Set.ncard_coe_finset, List.toFinset_card_of_nodup distinct, List.length_map, Table.values,
    List.countP_map, List.countP_eq_length_filter]
  rfl

/-- A publication is delivered to the registered viewers with room, and dropped for the other
registered ones. -/
theorem Numbered.report {a : Audience π} (h : a.Numbered) (p : π) :
    (a.publish p).2.delivered = {viewer | a.admits a.capacity viewer = true}.ncard ∧
      (a.publish p).2.delivered + (a.publish p).2.dropped =
        {viewer | (a.mailboxes.find? viewer).any (·.isRegistered) = true}.ncard := by
  have reached : (a.publish p).2.delivered = a.mailboxes.values.countP (Mailbox.admits a.capacity) := by
    simp only [publish, registered, List.countP_filter]
    refine List.countP_congr fun m _ => ?_
    simp [Mailbox.admits, hasRoom, and_comm]
  have count : a.viewerCount = a.mailboxes.values.countP (·.isRegistered) := List.countP_eq_length_filter.symm
  have within : (a.publish p).2.delivered ≤ a.viewerCount := by
    rw [reached, count]
    refine List.countP_mono_left fun m _ admitted => ?_
    exact (Bool.and_eq_true_iff.mp admitted).1
  refine ⟨reached.trans (h.ncard_viewers _).symm, ?_⟩
  rw [h.ncard_viewers, ← count]
  exact Nat.add_sub_cancel' within

/-- **Delivery.** Run any moves on an audience whose queues are asked to hold `n` items. A viewer with a
mailbox has received, with what waits in it, just what was published while it was registered and
had fewer than `max n 1` waiting, in that order; so has a viewer that left, with what waited then.
Registered is who joined and was neither disconnected nor gone since; no queue outgrows the
bound; every publication is delivered to the registered viewers with room and dropped for the
others; and two viewers of two runs that see the same receive the same. -/
theorem delivers_what_was_admitted (n : Nat) (moves : List (Move π)) :
    let start : Audience π := ofCapacity n
    let bound := max n 1
    (∀ viewer m, (start.run moves).mailboxes.find? viewer = some m →
      start.received viewer moves ++ m.waiting = start.admitted bound viewer moves) ∧
    (∀ before after viewer m, moves = before ++ .leave viewer :: after →
      (start.run before).mailboxes.find? viewer = some m →
      start.received viewer moves ++ m.waiting = start.admitted bound viewer moves) ∧
    (∀ viewer, ((start.run moves).mailboxes.find? viewer).any (·.isRegistered) =
      Sight.present (start.seenBy viewer moves)) ∧
    (∀ viewer m, (start.run moves).mailboxes.find? viewer = some m → m.waiting.length ≤ bound) ∧
    (∀ p, let report := ((start.run moves).publish p).2
      report.delivered = {viewer | (start.run moves).admits bound viewer = true}.ncard ∧
      report.delivered + report.dropped = {viewer | Sight.present (start.seenBy viewer moves) = true}.ncard) ∧
    ∀ moves' viewer viewer', start.seenBy viewer moves = start.seenBy viewer' moves' →
      start.received viewer moves = start.received viewer' moves' := by
  intro start bound
  have numbered : start.Numbered := numbered_ofCapacity n
  have accounts : ∀ viewer, start.Accounts start.capacity viewer [] [] := fun _ =>
    ⟨fun _ => ⟨rfl, rfl⟩, fun _ found => (nomatch found)⟩
  have registered : ∀ viewer, ((start.run moves).mailboxes.find? viewer).any (·.isRegistered) =
      Sight.present (start.seenBy viewer moves) := fun viewer => registered_run start viewer moves
  have empty : ∀ viewer m, start.mailboxes.find? viewer = some m → m.waiting.length ≤ start.capacity :=
    fun _ _ found => (nomatch found)
  refine ⟨fun viewer => (accounts_run numbered (accounts viewer) moves).waiting, ?_, registered,
    fun viewer => bounded_run (empty viewer) moves, fun p => ?_, fun moves' viewer viewer' alike => ?_⟩
  · rintro before after viewer m rfl found
    have waited : start.received viewer before ++ m.waiting = start.admitted bound viewer before :=
      (accounts_run numbered (accounts viewer) before).waiting m found
    -- The number of the viewer is known, so nobody gets it again.
    have known : viewer ≤ (start.run before).lastId := by
      by_contra unknown
      rw [(numbered.run before).known viewer (Nat.not_le.mp unknown)] at found
      cases found
    have left : ((start.run before).act (.leave viewer)).mailboxes.find? viewer = none := by
      simp [act, leave]
    obtain ⟨unhanded, unlet⟩ := gone (a := (start.run before).act (.leave viewer)) bound known left after
    rw [received_append, admitted_append, received, admitted_cons, unhanded, unlet]
    simpa [handed, lets, admitted] using waited
  · have report := (numbered.run moves).report p
    simp only [registered, capacity_run] at report
    exact report
  · rw [received_eq_handsAll, received_eq_handsAll, alike]
    rfl

end Audience
end TickerBoard

import Mathlib.Data.List.Nodup
import TickerBoard.Brokerage.Live.Streamer
import TickerBoard.Proofs.Calendar.DayText

/-! Commands, and the responses that settle them.

A session goes through moves in whatever order they come: commands that are
written or cannot be, frames from the server, the receiver's leaving. What it
hears until it is over are the items of its frames (`heard`). An item bears an
identifier as a number or as the digits of one (`answers_iff`). A command that
waits is settled by the first item that bears its identifier, or fails with the
session (`resolution`); one that does not wait is never settled again. So every
command of a session has one answer at most, and it is its own
(`answered_exactly`). -/
namespace TickerBoard

/-! ### What a frame brings -/

namespace Frame

/-- The message of a frame, unless it is a notification. -/
def message? : Frame → Option Json
  | .text t => (Json.ofText? t).filter fun m => !(m.get? "notify").isSome
  | _ => none

/-- The items of a frame that may be responses. -/
def items (f : Frame) : List Json :=
  (f.message?.bind fun m => (m.get "response").list?).getD []

/-- Whether a frame has data for the receiver. -/
def hasData (f : Frame) : Bool := f.message?.any fun m => !(Live.eventsOf (m.get "data")).isEmpty

/-- Whether the stream ends. -/
def isLast : Frame → Bool
  | .close | .hangup => true
  | _ => false

end Frame

namespace Live.Response

/-- Whether an item bears an identifier. -/
def answers (n : Nat) (item : Json) : Bool := id? (item.get "requestid") == some n

/-- What an item says of the command it answers: that it succeeded, if its code is zero. -/
def verdict (item : Json) : Except LiveFault Unit :=
  let code := ((item.get "content").get "code").int?
  if code = some 0 then .ok ()
  else
    .error (.rejected ((item.get "service").text?.getD "") ((item.get "command").text?.getD "") (code.getD (-1))
      (((item.get "content").get "msg").text?.getD ""))

/-- How an identifier is written: as a number, or as a text of digits, with a plus sign in front
or without, of a number that has room in a word. -/
inductive Bears (n : Nat) : Json → Prop
  | number : Bears n (.int n)
  | digits {s : String} {ds : List Char} (written : s.toList = ds ∨ s.toList = '+' :: ds) (some_digit : ds ≠ [])
      (digits : ∀ c ∈ ds, c.isDigit = true) (value : Nat.ofDigitChars 10 ds 0 = n) (fits : n < Word.size 64) :
      Bears n (.text s)

/-- So the text of a number bears it. -/
theorem bears_toString {n : Nat} (fits : n < Word.size 64) : Bears n (.text (toString n)) := by
  have written : (toString n).toList = Nat.toDigits 10 n := by
    rw [Nat.toString_eq_ofList_toDigits, String.toList_ofList]
  exact .digits (.inl written) Nat.toDigits_ne_nil
    (fun c hc => Nat.isDigit_of_mem_toDigits (by decide) (by decide) hc)
    (Nat.ofDigitChars_toDigits (by decide) (by decide)) fits

theorem takeNumeral_eq_some {cs : List Char} {n : Nat} :
    Calendar.takeNumeral cs = some (n, []) ↔
      cs ≠ [] ∧ (∀ c ∈ cs, c.isDigit = true) ∧ Nat.ofDigitChars 10 cs 0 = n := by
  constructor
  · intro taken
    simp only [Calendar.takeNumeral, Calendar.takeNumber, List.take_length] at taken
    split at taken
    · cases taken
    · rename_i some_digit
      obtain ⟨value, rest⟩ := Prod.mk.inj (Option.some.inj taken)
      have start : cs.takeWhile Char.isDigit <+: cs := List.takeWhile_prefix _
      have whole : cs.takeWhile Char.isDigit = cs := start.eq_of_length_le (List.drop_eq_nil_iff.mp rest)
      rw [whole] at value some_digit
      refine ⟨by simpa using some_digit, List.takeWhile_eq_self_iff.mp whole, ?_⟩
      rw [← value, Nat.ofDigitChars_eq_foldl]
      rfl
  · rintro ⟨some_digit, digits, rfl⟩
    have taken : Calendar.takeNumber (cs ++ []).length (cs ++ []) = _ :=
      Calendar.takeNumber_digits digits some_digit (.inl (by simp))
    rwa [List.append_nil] at taken

/-- What is read of a text with its plus sign taken off. -/
theorem idOfText?_eq (s : String) : ∃ ds, (s.toList = ds ∧ '+' ∉ ds.head? ∨ s.toList = '+' :: ds) ∧
    idOfText? s = (Calendar.takeNumeral ds).bind fun r => if r.2 = [] ∧ r.1 < Word.size 64 then some r.1 else none := by
  unfold idOfText?
  generalize s.toList = chars
  by_cases signed : '+' ∈ chars.head?
  · obtain ⟨rest, rfl⟩ := List.head?_eq_some_iff.mp signed
    refine ⟨rest, .inr rfl, ?_⟩
    rcases numeral : Calendar.takeNumeral rest with _ | ⟨n, _ | ⟨c, left⟩⟩ <;> simp [numeral]
  · refine ⟨chars, .inl ⟨rfl, signed⟩, ?_⟩
    split
    · exact absurd rfl signed
    · rcases numeral : Calendar.takeNumeral chars with _ | ⟨n, _ | ⟨c, left⟩⟩ <;> simp [numeral]

theorem idOfText?_eq_some {s : String} {n : Nat} : idOfText? s = some n ↔ Bears n (.text s) := by
  obtain ⟨ds, sign, read⟩ := idOfText?_eq s
  rw [read]
  constructor
  · intro taken
    obtain ⟨⟨value, left⟩, numeral, word⟩ := Option.bind_eq_some_iff.mp taken
    split at word
    · rename_i whole
      obtain ⟨rfl, fits⟩ : left = [] ∧ value < Word.size 64 := whole
      obtain rfl : value = n := Option.some.inj word
      obtain ⟨some_digit, digits, value⟩ := takeNumeral_eq_some.mp numeral
      exact .digits (sign.imp_left And.left) some_digit digits value fits
    · cases word
  · rintro (_ | ⟨written, some_digit, digits, value, fits⟩)
    rename_i ds'
    have same : ds' = ds := by
      rcases sign with ⟨plain, unsigned⟩ | signed <;> rcases written with plain' | signed'
      · exact plain'.symm.trans plain
      · rw [← plain, signed'] at unsigned
        exact absurd rfl unsigned
      · rw [← plain', signed] at digits
        exact absurd (digits '+' List.mem_cons_self) (by decide)
      · exact (List.cons.inj (signed'.symm.trans signed)).2
    subst same
    rw [takeNumeral_eq_some.mpr ⟨some_digit, digits, value⟩, Option.bind_some, if_pos ⟨rfl, fits⟩]

/-- An item answers to an identifier in one of these ways, and in no other. -/
theorem answers_iff {n : Nat} {item : Json} : answers n item = true ↔ Bears n (item.get "requestid") := by
  rw [answers, beq_iff_eq]
  generalize item.get "requestid" = field
  cases field with
  | text s => exact idOfText?_eq_some
  | number m =>
    cases m with
    | int k =>
      simp only [id?, Json.nat?]
      constructor
      · intro same
        split at same
        · rename_i nonneg
          obtain rfl := Option.some.inj same
          have bears : Bears k.toNat (.int k.toNat) := .number
          rwa [Int.toNat_of_nonneg nonneg] at bears
        · cases same
      · rintro ⟨⟩
        simp
    | float x => exact ⟨nofun, nofun⟩
  | null => exact ⟨nofun, nofun⟩
  | flag b => exact ⟨nofun, nofun⟩
  | list items => exact ⟨nofun, nofun⟩
  | record fields => exact ⟨nofun, nofun⟩

theorem any_ofJson? (n : Nat) (item : Json) : (ofJson? item).any (·.id == n) = answers n item := by
  unfold ofJson? answers
  cases id? (item.get "requestid") <;> simp

theorem outcome_ofJson? {item : Json} {r : Response} (h : ofJson? item = some r) : r.outcome = verdict item := by
  unfold ofJson? at h
  cases bears : id? (item.get "requestid") with
  | none => simp [bears] at h
  | some n =>
    simp only [bears, Option.bind_eq_bind, Option.bind_some, Option.pure_def, Option.some.injEq] at h
    rw [← h, outcome, verdict]
    cases code : ((item.get "content").get "code").int? with
    | none => simp
    | some c => simp

/-- The first response with an identifier is made of the first item with it. -/
theorem find?_filterMap (n : Nat) (items : List Json) :
    ((items.filterMap ofJson?).find? (·.id == n)).map outcome = (items.find? (answers n)).map verdict := by
  rw [List.find?_filterMap]
  simp only [any_ofJson?]
  cases found : items.find? (fun item => answers n item) with
  | none => rfl
  | some item =>
    have bears := List.find?_some found
    rw [← any_ofJson?, Option.any_eq_true] at bears
    obtain ⟨r, hr, -⟩ := bears
    rw [Option.bind_some, hr, Option.map_some, Option.map_some, outcome_ofJson? hr]

end Live.Response

/-! ### Sessions -/

namespace Streamer
open Live.Response

/-- What a session goes through. -/
inductive Move
  /-- A command, and why it cannot be written, if it cannot. -/
  | command (r : StreamRequest) (lost : Option String)
  | frame (f : Frame)
  /-- Nobody receives the data any more. -/
  | deafened
deriving Repr, DecidableEq

namespace Move

def isCommand : Move → Bool
  | .command .. => true
  | _ => false

def items : Move → List Json
  | .frame f => f.items
  | _ => []

def deafens : Move → Bool
  | .deafened => true
  | _ => false

/-- Whether a session is over with a move, given whether its data is received. -/
def ends (deaf : Bool) : Move → Bool
  | .command _ lost => lost.isSome
  | .frame f => f.isLast || deaf && f.hasData
  | .deafened => false

end Move

/-- What a session hears until it is over. -/
def heard (deaf : Bool) : List Move → List Json
  | [] => []
  | m :: rest => m.items ++ if m.ends deaf then [] else heard (deaf || m.deafens) rest

def step (s : Streamer) : Move → Streamer × List Settled
  | .command r none => ((s.send r).1, [])
  | .command _ (some cause) => s.fail cause
  | .frame f =>
    let (s, settled, _) := s.receive f
    (s, settled)
  | .deafened => ({ s with receiverDropped := true }, [])

def run (s : Streamer) : List Move → Streamer × List Settled
  | [] => (s, [])
  | m :: rest =>
    let (s, first) := s.step m
    let (s, others) := s.run rest
    (s, first ++ others)

/-- The answers that the command with an identifier gets. -/
def answersTo (n : Nat) (log : List Settled) : List (Except LiveFault Unit) :=
  (log.filter (·.1 == n)).map (·.2)

/-- The answer to a command that waits: that of the first item which bears its identifier, or
that the session is over. -/
def resolution (n : Nat) (items : List Json) (ended : Bool) : List (Except LiveFault Unit) :=
  match items.find? (answers n) with
  | some item => [verdict item]
  | none => if ended then [.error .requestDropped] else []

@[simp] theorem answersTo_append (n : Nat) (a b : List Settled) :
    answersTo n (a ++ b) = answersTo n a ++ answersTo n b := by
  simp [answersTo]

theorem answersTo_eq_nil {n : Nat} {log : List Settled} (h : ∀ e ∈ log, e.1 ≠ n) : answersTo n log = [] := by
  rw [answersTo, List.filter_eq_nil_iff.mpr fun e he => by simpa using h e he, List.map_nil]

theorem mem_answersTo {e : Settled} {log : List Settled} (h : e ∈ log) : e.2 ∈ answersTo e.1 log :=
  List.mem_map.mpr ⟨e, List.mem_filter.mpr ⟨h, beq_self_eq_true _⟩, rfl⟩

@[simp] theorem answersTo_singleton (n i : Nat) (outcome : Except LiveFault Unit) :
    answersTo n [(i, outcome)] = if i = n then [outcome] else [] := by
  by_cases own : i = n <;> simp [answersTo, own]

theorem run_append (s : Streamer) (a b : List Move) :
    s.run (a ++ b) = (((s.run a).1.run b).1, (s.run a).2 ++ ((s.run a).1.run b).2) := by
  induction a generalizing s with
  | nil => rfl
  | cons m rest ih => simp only [List.cons_append, run, ih, List.append_assoc]

/-! ### What one move settles -/

/-- Commands wait under different identifiers, all of them given. -/
structure Sound (s : Streamer) : Prop where
  apart : s.pending.Nodup
  given : ∀ i ∈ s.pending, i < s.nextId

theorem settle_spec (s : Streamer) (r : Live.Response) :
    (s.settle r).1 = { s with pending := s.pending.filter fun i => i ≠ r.id } ∧
      ∀ n, answersTo n (s.settle r).2 = if n ∈ s.pending then if r.id = n then [r.outcome] else [] else [] := by
  rw [settle]
  by_cases waits : r.id ∈ s.pending
  · rw [if_pos (List.contains_iff_mem.mpr waits)]
    refine ⟨rfl, fun n => ?_⟩
    rw [answersTo_singleton]
    by_cases own : r.id = n
    · rw [if_pos own, if_pos (own ▸ waits)]
    · rw [if_neg own, ite_self]
  · have other : ∀ i ∈ s.pending, i ≠ r.id := fun i hi own => waits (own ▸ hi)
    rw [if_neg (mt List.contains_iff_mem.mp waits),
      List.filter_eq_self.mpr fun i hi => decide_eq_true (other i hi)]
    refine ⟨rfl, fun n => ?_⟩
    split
    · rename_i there
      rw [if_neg (other n there).symm]
      rfl
    · rfl

theorem settleAll_spec (s : Streamer) (rs : List Live.Response) :
    (s.settleAll rs).1 = { s with pending := s.pending.filter fun i => rs.all fun r => i ≠ r.id } ∧
      ∀ n, answersTo n (s.settleAll rs).2 =
        if n ∈ s.pending then ((rs.find? (·.id == n)).map outcome).toList else [] := by
  induction rs generalizing s with
  | nil => exact ⟨by simp [settleAll], fun n => by simp [settleAll, answersTo]⟩
  | cons r rest ih =>
    obtain ⟨first, settled⟩ := settle_spec s r
    obtain ⟨later, log⟩ := ih (s.settle r).1
    rw [settleAll]
    dsimp only
    rw [first] at later log ⊢
    refine ⟨?_, fun n => ?_⟩
    · rw [later]
      simp only [List.filter_filter, List.all_cons, Bool.and_comm]
    · rw [answersTo_append, settled, log, List.find?_cons]
      by_cases own : r.id = n
      · simp [own]
      · simp [own, Ne.symm own, beq_eq_false_iff_ne.mpr own]

theorem answersTo_finish {s : Streamer} (sound : s.Sound) (n : Nat) :
    answersTo n s.finish.2 = if n ∈ s.pending then [.error .requestDropped] else [] := by
  have own : s.pending.filter (· == n) = if n ∈ s.pending then [n] else [] := by
    rw [List.filter_beq, List.Nodup.count sound.apart]
    split <;> rfl
  rw [answersTo, finish, List.filter_map, List.map_map]
  show ((s.pending.filter (· == n)).map fun _ => Except.error LiveFault.requestDropped) = _
  rw [own]
  split <;> rfl

/-- What comes of some items that a session hears, of which the last may end it: those who wait
for them are answered, once, and nobody else. -/
structure Settles (s : Streamer) (items : List Json) (ended : Bool) (out : Streamer × List Settled) : Prop where
  answered : ∀ n < s.nextId, answersTo n out.2 = if n ∈ s.pending then resolution n items ended else []
  waiting : ∀ n < s.nextId, n ∈ out.1.pending ↔ n ∈ s.pending ∧ items.find? (answers n) = none ∧ ended = false
  isOver : out.1.isOver = ended
  sound : out.1.Sound
  details : out.1.details = s.details
  later : s.nextId ≤ out.1.nextId
  logged : ∀ e ∈ out.2, e.1 < out.1.nextId

theorem settles_items {s : Streamer} (sound : s.Sound) (live : s.isOver = false) (items : List Json) :
    s.Settles items false (s.settleAll (items.filterMap ofJson?)) := by
  obtain ⟨state, log⟩ := settleAll_spec s (items.filterMap ofJson?)
  have found : ∀ n, answersTo n (s.settleAll (items.filterMap ofJson?)).2 =
      if n ∈ s.pending then resolution n items false else [] := fun n => by
    rw [log, find?_filterMap, resolution]
    cases items.find? (answers n) <;> rfl
  have unheard : ∀ n, ((items.filterMap ofJson?).all fun r => n ≠ r.id) = true ↔
      items.find? (answers n) = none := fun n => by
    rw [← Option.map_eq_none_iff (f := verdict), ← find?_filterMap, Option.map_eq_none_iff, List.find?_eq_none]
    simp only [List.all_eq_true, decide_eq_true_iff, beq_iff_eq, ne_eq, eq_comm (a := n)]
  refine ⟨fun n _ => found n, fun n _ => ?_, ?_, ⟨?_, ?_⟩, ?_, ?_, fun e he => ?_⟩
  · rw [state, List.mem_filter, unheard, and_iff_left rfl]
  · rw [state]
    exact live
  · rw [state]
    exact sound.apart.filter _
  · rw [state]
    exact fun i hi => sound.given i (List.mem_filter.mp hi).1
  · rw [state]
  · exact Nat.le_of_eq (by rw [state])
  · have answered := mem_answersTo he
    rw [found] at answered
    split at answered
    · rename_i waits
      rw [state]
      exact sound.given e.1 waits
    · cases answered

theorem Settles.finish {s : Streamer} {items : List Json} {out : Streamer × List Settled}
    (h : s.Settles items false out) : s.Settles items true (out.1.finish.1, out.2 ++ out.1.finish.2) := by
  have failed := answersTo_finish h.sound
  refine ⟨fun n hn => ?_, fun n hn => ?_, rfl, ⟨List.nodup_nil, nofun⟩, h.details, h.later, fun e he => ?_⟩
  · rw [answersTo_append, h.answered n hn, failed]
    simp only [h.waiting n hn, resolution]
    by_cases waits : n ∈ s.pending <;> cases items.find? (answers n) <;> simp [waits]
  · simp [Streamer.finish]
  · rcases List.mem_append.mp he with settled | dropped
    · exact h.logged e settled
    · obtain ⟨i, hi, rfl⟩ := List.mem_map.mp dropped
      exact h.sound.given i hi

theorem send_eq {s : Streamer} (live : s.isOver = false) (r : StreamRequest) :
    s.send r = ({ s with nextId := s.nextId + 1, pending := s.pending ++ [s.nextId] },
      .ok (s.nextId, Live.requestCommand s.details r s.nextId)) := by
  rw [send, live]
  rfl

theorem fail_eq {s : Streamer} (live : s.isOver = false) (cause : String) :
    s.fail cause = ({ s with nextId := s.nextId + 1 }.finish.1,
      (s.nextId, .error (.unwritten cause)) :: s.finish.2) := by
  rw [fail, live]
  rfl

theorem take_eq {m : Json} (loud : (m.get? "notify").isSome = false) (s : Streamer) :
    ((s.take m).1, (s.take m).2.1) =
      let heard := s.settleAll (Live.Response.ofFrame m)
      if s.receiverDropped && !(Live.eventsOf (m.get "data")).isEmpty then
        (heard.1.finish.1, heard.2 ++ heard.1.finish.2)
      else heard := by
  have receiver : (s.settleAll (Live.Response.ofFrame m)).1.receiverDropped = s.receiverDropped := by
    rw [(settleAll_spec s _).1]
  simp only [take, loud, receiver, Bool.false_eq_true, if_false]
  split <;> rfl

/-- A frame settles whom its items answer; if it is the last one, everyone else fails. -/
theorem receive_eq {s : Streamer} (live : s.isOver = false) (f : Frame) :
    ((s.receive f).1, (s.receive f).2.1) =
      let heard := s.settleAll (f.items.filterMap ofJson?)
      if f.isLast || s.receiverDropped && f.hasData then (heard.1.finish.1, heard.2 ++ heard.1.finish.2)
      else heard := by
  simp only [receive, live, Bool.false_eq_true, if_false]
  cases f with
  | text t =>
    dsimp only
    cases parsed : Json.ofText? t with
    | none => simp [Frame.items, Frame.hasData, Frame.message?, Frame.isLast, parsed, settleAll]
    | some m =>
      cases loud : (m.get? "notify").isSome with
      | true =>
        simp [Frame.items, Frame.hasData, Frame.message?, Frame.isLast, parsed, loud, settleAll, take, Option.filter]
      | false =>
        have message : Frame.message? (.text t) = some m := by simp [Frame.message?, parsed, loud, Option.filter]
        simp only [Frame.items, Frame.hasData, message]
        exact take_eq loud s
  | binary bytes | ping bytes => simp [Frame.items, Frame.hasData, Frame.message?, Frame.isLast, settleAll]
  | close | hangup => simp [Frame.items, Frame.message?, Frame.isLast, settleAll]

/-- A command that goes out settles nobody and waits itself. -/
theorem settles_send {s : Streamer} (sound : s.Sound) (live : s.isOver = false) (r : StreamRequest) :
    s.Settles [] false ((s.send r).1, []) := by
  rw [send_eq live]
  refine ⟨fun n _ => ?_, fun n hn => ?_, live, ⟨?_, ?_⟩, rfl, Nat.le_succ _, nofun⟩
  · simp [resolution, answersTo]
  · simp [Nat.ne_of_lt hn]
  · refine List.nodup_append.mpr ⟨sound.apart, List.nodup_singleton _, ?_⟩
    intro i hi j hj
    rw [List.mem_singleton.mp hj]
    exact Nat.ne_of_lt (sound.given i hi)
  · intro i hi
    rcases List.mem_append.mp hi with old | new
    · exact Nat.lt_succ_of_lt (sound.given i old)
    · rw [List.mem_singleton.mp new]
      exact Nat.lt_succ_self _

/-- A command that is lost on its way fails with everyone who waits. -/
theorem settles_fail {s : Streamer} (sound : s.Sound) (live : s.isOver = false) (cause : String) :
    s.Settles [] true (s.fail cause) := by
  rw [fail_eq live]
  refine ⟨fun n hn => ?_, fun n hn => ?_, rfl, ⟨List.nodup_nil, nofun⟩, rfl, Nat.le_succ _, fun e he => ?_⟩
  · rw [← List.singleton_append, answersTo_append, answersTo_singleton, if_neg (Nat.ne_of_gt hn)]
    exact answersTo_finish sound n
  · simp [Streamer.finish]
  · rcases List.mem_cons.mp he with rfl | dropped
    · exact Nat.lt_succ_self _
    · obtain ⟨i, hi, rfl⟩ := List.mem_map.mp dropped
      exact Nat.lt_succ_of_lt (sound.given i hi)

/-- A move settles who waits for what it brings, and everyone else who waits if it ends the session. -/
theorem settles_step {s : Streamer} (sound : s.Sound) (live : s.isOver = false) (m : Move) :
    s.Settles m.items (m.ends s.receiverDropped) (s.step m) := by
  cases m with
  | command r lost =>
    cases lost with
    | none => exact settles_send sound live r
    | some cause => exact settles_fail sound live cause
  | frame f =>
    show s.Settles f.items (f.isLast || s.receiverDropped && f.hasData) ((s.receive f).1, (s.receive f).2.1)
    rw [receive_eq live]
    have settled := settles_items sound live f.items
    dsimp only
    split
    · rename_i last
      rw [last]
      exact settled.finish
    · rename_i more
      rw [Bool.not_eq_true] at more
      rw [more]
      exact settled
  | deafened =>
    have unsettled := settles_items sound live []
    exact ⟨unsettled.answered, unsettled.waiting, unsettled.isOver, ⟨sound.apart, sound.given⟩, rfl,
      unsettled.later, unsettled.logged⟩

theorem receiverDropped_step {s : Streamer} (live : s.isOver = false) (m : Move) :
    (s.step m).1.receiverDropped = (s.receiverDropped || m.deafens) := by
  have settled : ∀ rs, (s.settleAll rs).1.receiverDropped = s.receiverDropped := fun rs => by
    rw [(settleAll_spec s rs).1]
  cases m with
  | command r lost =>
    cases lost with
    | none => simp [step, send_eq live, Move.deafens]
    | some cause => simp [step, fail_eq live, Move.deafens, finish]
  | frame f =>
    have received := congrArg Prod.fst (receive_eq live f)
    simp only [step, Move.deafens, Bool.or_false]
    rw [received]
    dsimp only
    split
    · exact settled _
    · exact settled _
  | deafened => simp [step, Move.deafens]

/-! ### What a session settles -/

theorem step_over {s : Streamer} (ended : s.isOver = true) (m : Move) :
    ∃ dropped, s.step m = ({ s with receiverDropped := dropped }, []) := by
  obtain ⟨details, nextId, pending, dropped, isOver⟩ := s
  obtain rfl : isOver = true := ended
  cases m with
  | command r lost => cases lost <;> exact ⟨dropped, rfl⟩
  | frame f => exact ⟨dropped, rfl⟩
  | deafened => exact ⟨true, rfl⟩

/-- A session that is over settles nothing. -/
theorem run_over {s : Streamer} (ended : s.isOver = true) (moves : List Move) :
    ∃ dropped, s.run moves = ({ s with receiverDropped := dropped }, []) := by
  induction moves generalizing s with
  | nil => exact ⟨s.receiverDropped, rfl⟩
  | cons m rest ih =>
    obtain ⟨dropped, first⟩ := step_over ended m
    obtain ⟨later, others⟩ := ih (s := { s with receiverDropped := dropped }) ended
    exact ⟨later, by simp [run, first, others]⟩

theorem sound_run {s : Streamer} (sound : s.Sound) (moves : List Move) :
    (s.run moves).1.Sound ∧ (s.run moves).1.details = s.details ∧ s.nextId ≤ (s.run moves).1.nextId ∧
      ∀ e ∈ (s.run moves).2, e.1 < (s.run moves).1.nextId := by
  induction moves generalizing s with
  | nil => exact ⟨sound, rfl, Nat.le_refl _, nofun⟩
  | cons m rest ih =>
    cases ended : s.isOver with
    | true =>
      obtain ⟨dropped, same⟩ := run_over ended (m :: rest)
      rw [same]
      exact ⟨⟨sound.apart, sound.given⟩, rfl, Nat.le_refl _, nofun⟩
    | false =>
      have settles := settles_step sound ended m
      obtain ⟨sound', details, later, logged⟩ := ih settles.sound
      refine ⟨sound', details.trans settles.details, Nat.le_trans settles.later later, fun e he => ?_⟩
      rcases List.mem_append.mp he with first | others
      · exact Nat.lt_of_lt_of_le (settles.logged e first) later
      · exact logged e others

/-- A session that is not over has given an identifier to every command. -/
theorem nextId_run {s : Streamer} (sound : s.Sound) {moves : List Move} (live : (s.run moves).1.isOver = false) :
    (s.run moves).1.nextId = s.nextId + moves.countP Move.isCommand := by
  induction moves generalizing s with
  | nil => rfl
  | cons m rest ih =>
    cases ended : s.isOver with
    | true =>
      obtain ⟨dropped, same⟩ := run_over ended (m :: rest)
      rw [same] at live
      exact absurd ended (by simpa using live)
    | false =>
      have own : (s.step m).1.nextId = s.nextId + if m.isCommand then 1 else 0 := by
        cases m with
        | command r lost => cases lost <;> simp [step, send_eq ended, fail_eq ended, finish, Move.isCommand]
        | frame f =>
          have received := congrArg Prod.fst (receive_eq ended f)
          simp only [step, Move.isCommand]
          rw [received]
          dsimp only
          split <;> simp [finish, (settleAll_spec s _).1]
        | deafened => simp [step, Move.isCommand]
      rw [run, ih (settles_step sound ended m).sound live, own, List.countP_cons]
      omega

/-- A command that does not wait any more gets no further answer. -/
theorem answersTo_run_of_settled {s : Streamer} (sound : s.Sound) {n : Nat} (given : n < s.nextId)
    (settled : n ∉ s.pending) (moves : List Move) : answersTo n (s.run moves).2 = [] := by
  induction moves generalizing s with
  | nil => rfl
  | cons m rest ih =>
    cases ended : s.isOver with
    | true =>
      obtain ⟨dropped, same⟩ := run_over ended (m :: rest)
      rw [same]
      rfl
    | false =>
      have settles := settles_step sound ended m
      have first := settles.answered n given
      rw [if_neg settled] at first
      have still : n ∉ (s.step m).1.pending := fun waits => settled ((settles.waiting n given).mp waits).1
      have later := ih settles.sound (Nat.lt_of_lt_of_le given settles.later) still
      rw [run, answersTo_append, first, later]
      rfl

/-- A command that waits gets the answer of the first item that it hears with its identifier,
or fails with the session. -/
theorem answersTo_run_of_waiting {s : Streamer} (sound : s.Sound) (live : s.isOver = false) {n : Nat}
    (waits : n ∈ s.pending) (moves : List Move) :
    answersTo n (s.run moves).2 = resolution n (heard s.receiverDropped moves) (s.run moves).1.isOver := by
  induction moves generalizing s with
  | nil => simp [run, heard, resolution, live, answersTo]
  | cons m rest ih =>
    have given := sound.given n waits
    have settles := settles_step sound live m
    have first := settles.answered n given
    rw [if_pos waits] at first
    rw [run, answersTo_append, first, heard]
    dsimp only
    cases found : m.items.find? (answers n) with
    | some item =>
      have settled : n ∉ (s.step m).1.pending := by
        rw [settles.waiting n given, found]
        exact fun still => by cases still.2.1
      rw [answersTo_run_of_settled settles.sound (Nat.lt_of_lt_of_le given settles.later) settled]
      simp [resolution, found, List.find?_append]
    | none =>
      cases ends : m.ends s.receiverDropped with
      | true =>
        have ended := settles.isOver
        rw [ends] at ended
        obtain ⟨dropped, same⟩ := run_over ended rest
        rw [same]
        simp [resolution, found, answersTo, ended]
      | false =>
        have alive := settles.isOver
        rw [ends] at alive
        have still : n ∈ (s.step m).1.pending := (settles.waiting n given).mpr ⟨waits, found, ends⟩
        rw [ih settles.sound alive still, receiverDropped_step live]
        simp [resolution, found, List.find?_append]

theorem sound_start (details : Live.StreamDetails) : (start details).Sound := ⟨List.nodup_nil, nofun⟩

/-- **Every command gets one answer at most, its own.** Let a session go through any moves, then
let a command come, and any moves after it. If the session is over, the command is refused. Else
it is sent under the next number, which no other command has. If it cannot be written, it fails
for just that reason. Else its only answer in the whole session is that of the first item with
its identifier that the session hears after it was sent: a success if the code of the item is
zero, an error if it is another or none. If there is no such item, it is an error once the
session is over, and nothing before. What was heard before the command, under whatever
identifier, and what is heard for others does not matter to it. -/
theorem answered_exactly (details : Live.StreamDetails) (before after : List Move) (r : StreamRequest)
    (lost : Option String) :
    let s := ((start details).run before).1
    let whole := (start details).run (before ++ .command r lost :: after)
    match (s.send r).2 with
    | .error e => s.isOver = true ∧ e = .streamerGone
    | .ok (n, message) =>
      n = before.countP Move.isCommand + 1 ∧ message = Live.requestCommand details r n ∧
        answersTo n whole.2 =
          match lost with
          | some cause => [.error (.unwritten cause)]
          | none => resolution n (heard s.receiverDropped after) whole.1.isOver := by
  obtain ⟨sound, same, -, logged⟩ := sound_run (sound_start details) before
  have numbered := @nextId_run _ (sound_start details) before
  rw [run_append, run]
  dsimp only
  generalize (start details).run before = earlier at *
  obtain ⟨s, log⟩ := earlier
  dsimp only at *
  cases ended : s.isOver with
  | true =>
    rw [send, ended]
    exact ⟨rfl, rfl⟩
  | false =>
    have unheard : answersTo s.nextId log = [] :=
      answersTo_eq_nil fun e he => Nat.ne_of_lt (logged e he)
    rw [send_eq ended]
    refine ⟨(numbered ended).trans (Nat.add_comm _ _), by rw [same]; rfl, ?_⟩
    have settles := settles_step sound ended (.command r lost)
    rw [answersTo_append, answersTo_append, unheard, List.nil_append]
    cases lost with
    | none =>
      have waits : s.nextId ∈ (s.step (.command r none)).1.pending := by simp [step, send_eq ended]
      rw [answersTo_run_of_waiting settles.sound settles.isOver waits, receiverDropped_step ended]
      simp [step, answersTo, Move.deafens]
    | some cause =>
      obtain ⟨dropped, ends⟩ := run_over settles.isOver after
      have others : answersTo s.nextId s.finish.2 = [] := by
        rw [answersTo_finish sound, if_neg fun waits => Nat.lt_irrefl _ (sound.given _ waits)]
      rw [ends]
      show answersTo s.nextId (s.fail cause).2 ++ [] = _
      rw [fail_eq ended, ← List.singleton_append, answersTo_append, answersTo_singleton, if_pos rfl, others]
      rfl

/-- An item of a response, with a code or without. -/
def item (id : Json) (code : Option Int) : Json :=
  .record [("requestid", id), ("content", .record ((code.map fun c => ("code", .int c)).toList))]

def respond (items : List Json) : Move := .frame (.text (Json.record [("response", .list items)]).compact)

def opening : StreamRequest := ⟨.chart, .opening, ["XYZ"]⟩

/-- Two commands, the first of which is taken and the second rejected; and an item too early for a third. -/
def early : List Move :=
  [.command opening none, .command opening none,
    respond [item (.text "1") (some 0), item (.int 2) (some 7), item (.text "3") (some 0)]]

/-- The second is answered again, and the third without a code. -/
def late : List Move := [respond [item (.text "2") (some 0), item (.int 3) none], .frame .close]

/-- The first is not answered twice, and what came too early does not count for the third. -/
theorem answered_exactly_early :
    let details : Live.StreamDetails := ⟨"", "", "", "", ""⟩
    let whole := (start details).run (early ++ .command opening none :: late)
    answersTo 1 whole.2 = [.ok ()] ∧ answersTo 2 whole.2 = [.error (.rejected "" "" 7 "")] ∧
      answersTo 3 whole.2 = [.error (.rejected "" "" (-1) "")] := by
  intro details whole
  obtain ⟨live, next, first, second, third⟩ : ((start details).run early).1.isOver = false ∧
      ((start details).run early).1.nextId = 3 ∧ answersTo 1 whole.2 = [.ok ()] ∧
      answersTo 2 whole.2 = [.error (.rejected "" "" 7 "")] ∧
      resolution 3 (heard ((start details).run early).1.receiverDropped late)
        ((start details).run (early ++ .command opening none :: late)).1.isOver =
          [.error (.rejected "" "" (-1) "")] := by
    decide +kernel
  have own : ∀ before after n message, (((start details).run before).1.send opening).2 = .ok (n, message) →
      answersTo n ((start details).run (before ++ .command opening none :: after)).2 =
        resolution n (heard ((start details).run before).1.receiverDropped after)
          ((start details).run (before ++ .command opening none :: after)).1.isOver := by
    intro before after n message sent
    have exact_answer := answered_exactly details before after opening none
    simp only [sent] at exact_answer
    exact exact_answer.2.2
  have answer := own early late 3 _ (by rw [send_eq live, next])
  exact ⟨first, second, answer.trans third⟩

end Streamer
end TickerBoard

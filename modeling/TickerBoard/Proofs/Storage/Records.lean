import TickerBoard.Storage.Memory
import TickerBoard.Storage.Writer

/-! Stored pattern lists, slot by slot.

A record holds the lists of one symbol and day by chart label; `Store.slot` is
one such list. In a store that reads back what it was given, a written list is
in the slot of its label and of the day of its newest divergence, and no other
slot of the symbol changes (`writePatterns_spec`). -/
namespace TickerBoard

/-! ### Records that can be read back -/

/-- The prices and readings of a divergence are numbers of a kind. -/
structure Divergence.Carries {α : Type} (number : α → Prop) (d : Divergence α) : Prop where
  startPrice : number d.startPrice
  startRsi : number d.startRsi
  finishPrice : number d.finishPrice
  finishRsi : number d.finishRsi

def DayRecord.Carries (number : Float → Prop) (r : DayRecord) : Prop :=
  ∀ label list, r.find? label = some list → ∀ d ∈ list, d.Carries number

theorem DayRecord.carries_empty (number : Float → Prop) : DayRecord.Carries number .empty :=
  fun _ _ h => by cases h

theorem DayRecord.carries_insert {number : Float → Prop} {r : DayRecord} (h : r.Carries number)
    {label : String} {list : List (Divergence Float)} (new : ∀ d ∈ list, d.Carries number) :
    DayRecord.Carries number (r.insert label list) := by
  intro label' list' found
  rw [Table.find?_insert] at found
  split at found
  · obtain rfl := Option.some.inj found
    exact new
  · exact h label' list' found

namespace Store

/-- The encoding of a store takes numbers of a kind: a record of such numbers reads back
with the lists it was saved with, and saving it touches no other record. -/
structure RoundTrips (σ : Type) [Store σ] (number : Float → Prop) : Prop where
  saved : ∀ (s : σ) symbol day r, DayRecord.Carries number r →
    ∃ r', loadRecord (saveRecord s symbol day r).1 symbol day = .ok r' ∧ ∀ label, r'.find? label = r.find? label
  others : ∀ (s : σ) symbol day r symbol' day', (symbol', day') ≠ (symbol, day) →
    loadRecord (saveRecord s symbol day r).1 symbol' day' = loadRecord s symbol' day'

variable {σ : Type} [Store σ]

/-- The stored list of a symbol, a chart label and a day. -/
def slot (s : σ) (symbol label : String) (day : Day) : Option (List (Divergence Float)) :=
  match loadRecord s symbol day with
  | .ok r => r.find? label
  | .error _ => none

/-- All records of a symbol can be read, and have numbers of a kind. -/
def Readable (number : Float → Prop) (s : σ) (symbol : String) : Prop :=
  ∀ day, ∃ r, loadRecord s symbol day = .ok r ∧ r.Carries number

theorem slot_of_load {s : σ} {symbol : String} {day : Day} {r : DayRecord}
    (h : loadRecord s symbol day = .ok r) (label : String) : slot s symbol label day = r.find? label := by
  rw [slot, h]

end Store

theorem MemoryStore.record_saveRecord (s : MemoryStore) (symbol : String) (day : Day) (r : DayRecord)
    (symbol' : String) (day' : Day) : (s.saveRecord symbol day r).record symbol' day' =
      if symbol' = symbol ∧ day' = day then r else s.record symbol' day' := by
  by_cases own : symbol = symbol'
  · subst own
    by_cases today : day = day'
    · simp [saveRecord, record, Table.findD, today]
    · simp [saveRecord, record, Table.findD, today, Ne.symm today]
  · simp [saveRecord, record, Table.findD, own, Ne.symm own]

theorem MemoryStore.roundTrips (number : Float → Prop) : Store.RoundTrips MemoryStore number := by
  refine ⟨fun s symbol day r _ => ⟨r, ?_, fun _ => rfl⟩, fun s symbol day r symbol' day' other => ?_⟩
  · show Except.ok ((s.saveRecord symbol day r).record symbol day) = _
    rw [record_saveRecord, if_pos ⟨rfl, rfl⟩]
  · show Except.ok ((s.saveRecord symbol day r).record symbol' day') = Except.ok (s.record symbol' day')
    rw [record_saveRecord, if_neg fun same => other (by rw [same.1, same.2])]

/-! ### Writing lists -/

namespace Writer
variable {σ : Type} [Store σ] {number : Float → Prop}

omit [Store σ] in
theorem writeEach_cons {α : Type} (write : σ → α → σ × Except StoreFault Unit) (s : σ) (a : α) (rest : List α) :
    (writeEach write s (a :: rest)).1 = (writeEach write (write s a).1 rest).1 := rfl

omit [Store σ] in
theorem writeEach_append {α : Type} (write : σ → α → σ × Except StoreFault Unit) (s : σ) (a b : List α) :
    (writeEach write s (a ++ b)).1 = (writeEach write (writeEach write s a).1 b).1 := by
  induction a generalizing s with
  | nil => rfl
  | cons x rest ih => rw [List.cons_append, writeEach_cons, ih, writeEach_cons]

/-- A list goes into the slot of its label and of its newest divergence's day. -/
theorem writePatterns_spec (trips : Store.RoundTrips σ number) {s : σ} {u : PatternUpdate Float}
    (readable : Store.Readable number s u.symbol) (carries : ∀ d ∈ u.divergences, d.Carries number) :
    Store.Readable number (writePatterns s u).1 u.symbol ∧
      ∀ label day, Store.slot (writePatterns s u).1 u.symbol label day =
        if u.label = label ∧ u.divergences.getLast?.map (·.day) = some day then some u.divergences
        else Store.slot s u.symbol label day := by
  cases newest : u.divergences.getLast? with
  | none =>
    have same : (writePatterns s u).1 = s := by rw [writePatterns, newest]
    rw [same]
    exact ⟨readable, fun label day => by simp⟩
  | some d =>
    obtain ⟨r, load, own⟩ := readable d.day
    have written : (writePatterns s u).1 =
        (Store.saveRecord s u.symbol d.day (r.insert u.label u.divergences)).1 := by
      rw [writePatterns, newest]
      simp only [load]
    obtain ⟨r', reload, same⟩ := trips.saved s u.symbol d.day _ (DayRecord.carries_insert own carries)
    rw [written]
    refine ⟨fun day => ?_, fun label day => ?_⟩
    · by_cases today : day = d.day
      · subst today
        refine ⟨r', reload, fun label list found => ?_⟩
        rw [same] at found
        exact DayRecord.carries_insert own carries label list found
      · rw [trips.others s u.symbol d.day _ u.symbol day (by simp [today])]
        exact readable day
    · by_cases today : day = d.day
      · subst today
        rw [Store.slot_of_load reload, same, Table.find?_insert, Store.slot_of_load load]
        simp
      · have : Store.slot (Store.saveRecord s u.symbol d.day (r.insert u.label u.divergences)).1 u.symbol label day =
            Store.slot s u.symbol label day := by
          rw [Store.slot, trips.others s u.symbol d.day _ u.symbol day (by simp [today])]
          rfl
        rw [this, if_neg]
        rintro ⟨-, h⟩
        exact today (Option.some.inj h).symm

section Lists
variable {s : σ} {symbol : String} {us : List (PatternUpdate Float)}

/-- The lists are of one symbol, and their numbers of a kind. -/
def Writable (number : Float → Prop) (symbol : String) (us : List (PatternUpdate Float)) : Prop :=
  ∀ u ∈ us, u.symbol = symbol ∧ ∀ d ∈ u.divergences, d.Carries number

theorem readable_writeEach (trips : Store.RoundTrips σ number) (readable : Store.Readable number s symbol)
    (writable : Writable number symbol us) :
    Store.Readable number (writeEach writePatterns s us).1 symbol := by
  induction us generalizing s with
  | nil => exact readable
  | cons u rest ih =>
    obtain ⟨⟨rfl, carries⟩, others⟩ := List.forall_mem_cons.mp writable
    exact ih (writePatterns_spec trips readable carries).1 others

/-- Lists of other labels leave a slot alone. -/
theorem slot_writeEach_others (trips : Store.RoundTrips σ number) (readable : Store.Readable number s symbol)
    (writable : Writable number symbol us) {label : String} (other : ∀ u ∈ us, u.label ≠ label) (day : Day) :
    Store.slot (writeEach writePatterns s us).1 symbol label day = Store.slot s symbol label day := by
  induction us generalizing s with
  | nil => rfl
  | cons u rest ih =>
    obtain ⟨⟨rfl, carries⟩, writable⟩ := List.forall_mem_cons.mp writable
    obtain ⟨first, others⟩ := List.forall_mem_cons.mp other
    obtain ⟨readable', slots⟩ := writePatterns_spec trips readable carries
    rw [writeEach_cons, ih readable' writable others, slots, if_neg fun h => first h.1]

/-- The only list of a label is found in its slot. -/
theorem slot_writeEach_single (trips : Store.RoundTrips σ number) (readable : Store.Readable number s symbol)
    (writable : Writable number symbol us) {label : String} {u : PatternUpdate Float}
    (single : us.filter (fun u => u.label = label) = [u]) (day : Day) :
    Store.slot (writeEach writePatterns s us).1 symbol label day =
      if u.divergences.getLast?.map (·.day) = some day then some u.divergences
      else Store.slot s symbol label day := by
  obtain ⟨before, after, rfl, others, own, later⟩ := List.filter_eq_cons_iff.mp single
  have writable' := List.forall_mem_append.mp writable
  obtain ⟨⟨rfl, carries⟩, writable''⟩ := List.forall_mem_cons.mp writable'.2
  have readable' := readable_writeEach trips readable writable'.1
  obtain ⟨readable'', slots⟩ := writePatterns_spec trips readable' carries
  rw [writeEach_append, writeEach_cons,
    slot_writeEach_others trips readable'' writable'' (by simpa using List.filter_eq_nil_iff.mp later),
    slots, slot_writeEach_others trips readable writable'.1 (by simpa using others)]
  simp [of_decide_eq_true own]

end Lists
end Writer
end TickerBoard

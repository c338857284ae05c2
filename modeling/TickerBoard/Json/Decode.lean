import TickerBoard.Json.Written
import TickerBoard.Calendar.DayText
import TickerBoard.Calendar.Moment

/-! Reading values of a known shape from written JSON.

A record is read from its fields by name, where unknown fields are passed over
and a repeated known one is refused, or from a list of its fields in their
order, of which the last may be missing if they have defaults. An integer is
read as a double where a double is wanted, and never the other way round. -/
namespace TickerBoard.Json.Written

def text? : Written → Option String
  | .text s => s
  | _ => none

def flag? : Written → Option Bool
  | .flag b => some b
  | _ => none

def number? : Written → Option Number
  | .numeral n => n.read?
  | _ => none

def float? (w : Written) : Option Float :=
  match w.number? with
  | some (.int n) => some (Float.ofInt n)
  | some (.float x) => some x
  | none => none

/-- An integer from `low` to `high`. -/
def int? (low high : Int) (w : Written) : Option Int :=
  match w.number? with
  | some (.int n) => if low ≤ n && n ≤ high then some n else none
  | _ => none

/-- A word of `bits` bits. -/
def nat? (bits : Nat) (w : Written) : Option Nat := (w.int? 0 (Word.size bits - 1)).map Int.toNat

/-- A word of `bits` bits with a sign. -/
def signed? (bits : Nat) (w : Written) : Option Int :=
  w.int? (Word.least bits) (Word.greatest bits)

def optional? {α : Type} (read : Written → Option α) : Written → Option (Option α)
  | .null => some none
  | w => (read w).map some

def listOf? {α : Type} (read : Written → Option α) : Written → Option (List α)
  | .list items => items.mapM read
  | _ => none

/-- Values by name; of repeated names the last counts. -/
def tableOf? {α : Type} (read : Written → Option α) : Written → Option (Table String α)
  | .record fields => do
    let entries ← fields.mapM fun (field : Option String × Written) => do
      pure (← field.1, ← read field.2)
    pure (Table.ofList entries)
  | _ => none

/-- An instant in whole seconds. -/
def seconds? (w : Written) : Option Instant :=
  (w.signed? 64).bind Instant.ofSeconds?

def day? (w : Written) : Option Day := w.text?.bind Day.ofText?

def moment? (w : Written) : Option Moment := w.text?.bind Moment.ofText?

/-- One of the named choices: its name, or a record of its name and null. -/
def choice? {α : Type} (choices : List (String × α)) : Written → Option α
  | .text (some s) => choices.lookup s
  | .record [(some s, .null)] => choices.lookup s
  | _ => none

/-! ### Records -/

/-- The field of a name, if no other has the name too. -/
def single? (name : String) (fields : List (Option String × Written)) : Option (Option Written) :=
  match fields.filter (·.1 == some name) with
  | [] => some none
  | [(_, value)] => some (some value)
  | _ => none

/-- The written values of the named fields, where present. -/
def fields? (names : List String) : Written → Option (List (Option Written))
  | .record fields =>
    if fields.all (·.1.isSome) then names.mapM fun name => single? name fields else none
  | .list items =>
    if items.length ≤ names.length then
      some (items.map some ++ List.replicate (names.length - items.length) none)
    else none
  | _ => none

/-- A field that must be present. -/
def needed {α : Type} (read : Written → Option α) (field : Option Written) : Option α :=
  field.bind read

/-- A field with a default. -/
def orElse {α : Type} (read : Written → Option α) (default : α) : Option Written → Option α
  | none => some default
  | some w => read w

end TickerBoard.Json.Written

import TickerBoard.Json.Number

/-! JSON values and their texts.

A value is what the board writes and what it reads from partners whose
messages have no fixed shape. Integers and doubles are told apart; a double
that is no number has no JSON text and is written as null. Texts are written
without blanks, or indented by two for files that people edit. -/
namespace TickerBoard

inductive Json
  | null
  | flag (b : Bool)
  | number (n : Json.Number)
  | text (s : String)
  | list (items : List Json)
  | record (fields : List (String × Json))
deriving Repr, Inhabited

namespace Json

def int (n : Int) : Json := .number (.int n)

def float (x : Float) : Json := if x.isFinite then .number (.float x) else .null

def optional {α : Type} (f : α → Json) : Option α → Json
  | none => .null
  | some a => f a

def listOf {α : Type} (f : α → Json) (xs : List α) : Json := .list (xs.map f)

/-! ### Parts of a value -/

/-- The value under a key of a record, and null where there is none. -/
def get (j : Json) (key : String) : Json :=
  match j with
  | .record fields => ((fields.find? (·.1 == key)).map (·.2)).getD .null
  | _ => .null

def get? (j : Json) (key : String) : Option Json :=
  match j with
  | .record fields => (fields.find? (·.1 == key)).map (·.2)
  | _ => none

def text? : Json → Option String
  | .text s => some s
  | _ => none

def list? : Json → Option (List Json)
  | .list items => some items
  | _ => none

def record? : Json → Option (List (String × Json))
  | .record fields => some fields
  | _ => none

/-- The number as a double. -/
def float? : Json → Option Float
  | .number (.int n) => some (Float.ofInt n)
  | .number (.float x) => some x
  | _ => none

/-- An integer of 64 bits with a sign. -/
def int? : Json → Option Int
  | .number (.int n) => if n ≤ Word.greatest 64 then some n else none
  | _ => none

/-- An integer of 64 bits without a sign. -/
def nat? : Json → Option Nat
  | .number (.int n) => if 0 ≤ n then some n.toNat else none
  | _ => none

/-! ### Texts -/

def escapedChar (c : Char) : List Char :=
  if c == '"' then ['\\', '"']
  else if c == '\\' then ['\\', '\\']
  else if c == '\x08' then ['\\', 'b']
  else if c == '\t' then ['\\', 't']
  else if c == '\n' then ['\\', 'n']
  else if c == '\x0c' then ['\\', 'f']
  else if c == '\r' then ['\\', 'r']
  else if c.toNat < 0x20 then
    ['\\', 'u', '0', '0', Nat.digitChar (c.toNat / 16), Nat.digitChar (c.toNat % 16)]
  else [c]

def quoted (s : String) : String :=
  String.ofList ('"' :: s.toList.flatMap escapedChar ++ ['"'])

def Number.text : Number → String
  | .int n => toString n
  | .float x => if x.isFinite then floatText x else "null"

mutual

/-- The text without blanks. -/
def compact : Json → String
  | .null => "null"
  | .flag b => if b then "true" else "false"
  | .number n => n.text
  | .text s => quoted s
  | .list [] => "[]"
  | .list items => "[" ++ compactItems items ++ "]"
  | .record [] => "\x7b\x7d"
  | .record fields => "\x7b" ++ compactFields fields ++ "\x7d"

def compactItems : List Json → String
  | [] => ""
  | [item] => item.compact
  | item :: rest => item.compact ++ "," ++ compactItems rest

def compactFields : List (String × Json) → String
  | [] => ""
  | [(key, value)] => quoted key ++ ":" ++ value.compact
  | (key, value) :: rest => quoted key ++ ":" ++ value.compact ++ "," ++ compactFields rest

end

def newline (depth : Nat) : String := "\n" ++ String.ofList (List.replicate (2 * depth) ' ')

mutual

/-- The text with one item or field on a line, indented by their depth. -/
def indented (depth : Nat) : Json → String
  | .list [] => "[]"
  | .list items => "[" ++ indentedItems (depth + 1) items ++ newline depth ++ "]"
  | .record [] => "\x7b\x7d"
  | .record fields => "\x7b" ++ indentedFields (depth + 1) fields ++ newline depth ++ "\x7d"
  | .null => "null"
  | .flag b => if b then "true" else "false"
  | .number n => n.text
  | .text s => quoted s

def indentedItems (depth : Nat) : List Json → String
  | [] => ""
  | [item] => newline depth ++ item.indented depth
  | item :: rest => newline depth ++ item.indented depth ++ "," ++ indentedItems depth rest

def indentedFields (depth : Nat) : List (String × Json) → String
  | [] => ""
  | [(key, value)] => newline depth ++ quoted key ++ ": " ++ value.indented depth
  | (key, value) :: rest =>
    newline depth ++ quoted key ++ ": " ++ value.indented depth ++ "," ++ indentedFields depth rest

end

end Json
end TickerBoard

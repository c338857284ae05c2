import TickerBoard.Json.Value
import TickerBoard.Table

/-! JSON texts as they are written.

Reading has two steps. The first takes the text apart by the grammar alone: it
keeps every field in its place, also a repeated one, and every numeral with its
digits; a text literal that spells half a surrogate pair has no characters and
is kept as absent. The second step, here for values without a fixed shape and
in `Decode` for the board's own records, decides what such a tree means. So a
part that nobody looks at may hold what could not be read, and may be nested to
any depth. -/
namespace TickerBoard.Json

inductive Written
  | null
  | flag (b : Bool)
  | numeral (n : Numeral)
  | text (s : Option String)
  | list (items : List Written)
  | record (fields : List (Option String × Written))
deriving Inhabited

namespace Written

def isSpace (c : Char) : Bool := c == ' ' || c == '\n' || c == '\t' || c == '\r'

def skipSpace (cs : List Char) : List Char := cs.dropWhile isSpace

/-! ### Text literals -/

def hexDigit? (c : Char) : Option Nat :=
  if '0' ≤ c && c ≤ '9' then some (c.toNat - 48)
  else if 'a' ≤ c && c ≤ 'f' then some (c.toNat - 87)
  else if 'A' ≤ c && c ≤ 'F' then some (c.toNat - 55)
  else none

def simpleEscape? (c : Char) : Option Nat :=
  match c with
  | '"' => some 0x22
  | '\\' => some 0x5c
  | '/' => some 0x2f
  | 'b' => some 0x08
  | 'f' => some 0x0c
  | 'n' => some 0x0a
  | 'r' => some 0x0d
  | 't' => some 0x09
  | _ => none

/-- The codes of a literal up to its closing quote, and the rest of the text. An
escape of four digits gives one code, which may be half of a surrogate pair. -/
def takeCodes : List Char → Option (List Nat × List Char)
  | '"' :: rest => some ([], rest)
  | '\\' :: 'u' :: a :: b :: c :: d :: rest => do
    let a ← hexDigit? a
    let b ← hexDigit? b
    let c ← hexDigit? c
    let d ← hexDigit? d
    let (codes, rest) ← takeCodes rest
    pure ((((a * 16 + b) * 16 + c) * 16 + d) :: codes, rest)
  | '\\' :: e :: rest => do
    let code ← simpleEscape? e
    let (codes, rest) ← takeCodes rest
    pure (code :: codes, rest)
  | c :: rest =>
    if c.toNat < 0x20 || c == '\\' then none
    else (takeCodes rest).map fun (codes, rest) => (c.toNat :: codes, rest)
  | [] => none

def isHigh (n : Nat) : Bool := 0xd800 ≤ n && n < 0xdc00

def isLow (n : Nat) : Bool := 0xdc00 ≤ n && n < 0xe000

/-- The characters of codes, in which surrogates stand in pairs. -/
def charsOf? : List Nat → Option (List Char)
  | [] => some []
  | [n] => if isHigh n || isLow n then none else some [Char.ofNat n]
  | n :: m :: rest =>
    if isHigh n then
      if isLow m then
        (charsOf? rest).map (Char.ofNat (0x10000 + (n - 0xd800) * 0x400 + (m - 0xdc00)) :: ·)
      else none
    else if isLow n then none
    else (charsOf? (m :: rest)).map (Char.ofNat n :: ·)

def takeText (cs : List Char) : Option (Option String × List Char) :=
  (takeCodes cs).map fun (codes, rest) => ((charsOf? codes).map String.ofList, rest)

/-! ### Numerals -/

def takeDigits (cs : List Char) : List Nat × List Char :=
  ((cs.takeWhile Char.isDigit).map (·.toNat - 48), cs.dropWhile Char.isDigit)

def takeDecimals (cs : List Char) : Option (Option (List Nat) × List Char) :=
  match cs with
  | '.' :: rest =>
    match takeDigits rest with
    | ([], _) => none
    | (ds, rest) => some (some ds, rest)
  | _ => some (none, cs)

def takeExponent (cs : List Char) : Option (Option (Bool × List Nat) × List Char) :=
  let digits (down : Bool) (rest : List Char) :=
    match takeDigits rest with
    | ([], _) => none
    | (ds, rest) => some (some (down, ds), rest)
  match cs with
  | c :: rest =>
    if c == 'e' || c == 'E' then
      match rest with
      | '-' :: rest => digits true rest
      | '+' :: rest => digits false rest
      | _ => digits false rest
    else some (none, cs)
  | [] => some (none, cs)

def takeNumeral (cs : List Char) : Option (Numeral × List Char) := do
  let (negative, cs) := match cs with
    | '-' :: rest => (true, rest)
    | _ => (false, cs)
  let (whole, cs) ← match takeDigits cs with
    | ([], _) => none
    | (0 :: _ :: _, _) => none
    | (ds, rest) => some (ds, rest)
  let (decimals, cs) ← takeDecimals cs
  let (exponent, cs) ← takeExponent cs
  pure (⟨negative, whole, decimals, exponent⟩, cs)

/-! ### Values -/

def takeWord (word : List Char) (value : Written) (cs : List Char) : Option (Written × List Char) :=
  if cs.take word.length = word then some (value, cs.drop word.length) else none

mutual

/-- A value at the front of the text; `fuel` bounds its depth and its items. -/
def takeValue : Nat → List Char → Option (Written × List Char)
  | 0, _ => none
  | fuel + 1, cs =>
    match skipSpace cs with
    | 'n' :: rest => takeWord ['u', 'l', 'l'] .null rest
    | 't' :: rest => takeWord ['r', 'u', 'e'] (.flag true) rest
    | 'f' :: rest => takeWord ['a', 'l', 's', 'e'] (.flag false) rest
    | '"' :: rest => (takeText rest).map fun (s, rest) => (.text s, rest)
    | '[' :: rest =>
      match skipSpace rest with
      | ']' :: rest => some (.list [], rest)
      | _ => (takeItems fuel rest).map fun (items, rest) => (.list items, rest)
    | '\x7b' :: rest =>
      match skipSpace rest with
      | '\x7d' :: rest => some (.record [], rest)
      | _ => (takeFields fuel rest).map fun (fields, rest) => (.record fields, rest)
    | cs => (takeNumeral cs).map fun (n, rest) => (.numeral n, rest)

/-- Items up to the closing bracket. -/
def takeItems : Nat → List Char → Option (List Written × List Char)
  | 0, _ => none
  | fuel + 1, cs =>
    match takeValue fuel cs with
    | none => none
    | some (item, rest) =>
      match skipSpace rest with
      | ']' :: rest => some ([item], rest)
      | ',' :: rest => (takeItems fuel rest).map fun (items, rest) => (item :: items, rest)
      | _ => none

/-- Fields up to the closing brace. -/
def takeFields : Nat → List Char → Option (List (Option String × Written) × List Char)
  | 0, _ => none
  | fuel + 1, cs =>
    match skipSpace cs with
    | '"' :: rest =>
      match takeText rest with
      | none => none
      | some (key, rest) =>
        match skipSpace rest with
        | ':' :: rest =>
          match takeValue fuel rest with
          | none => none
          | some (value, rest) =>
            match skipSpace rest with
            | '\x7d' :: rest => some ([(key, value)], rest)
            | ',' :: rest =>
              (takeFields fuel rest).map fun (fields, rest) => ((key, value) :: fields, rest)
            | _ => none
        | _ => none
    | _ => none

end

/-- The value that a text consists of. -/
def ofText? (s : String) : Option Written :=
  let cs := s.toList
  match takeValue (2 * cs.length + 2) cs with
  | some (w, rest) => if (skipSpace rest).isEmpty then some w else none
  | none => none

/-! ### Values without a fixed shape -/

mutual

/-- The value of a tree that is nested at most `room` deep and has only texts and
numbers that can be read. -/
def resolve? (room : Nat) : Written → Option Json
  | .null => some .null
  | .flag b => some (.flag b)
  | .numeral n => n.read?.map .number
  | .text s => s.map .text
  | .list items => if room = 0 then none else (resolveItems? (room - 1) items).map .list
  | .record fields =>
    if room = 0 then none
    else (resolveFields? (room - 1) fields).map fun fs => .record (Table.ofList fs).entries

def resolveItems? (room : Nat) : List Written → Option (List Json)
  | [] => some []
  | item :: rest =>
    match item.resolve? room, resolveItems? room rest with
    | some j, some js => some (j :: js)
    | _, _ => none

def resolveFields? (room : Nat) : List (Option String × Written) → Option (List (String × Json))
  | [] => some []
  | (some key, value) :: rest =>
    match value.resolve? room, resolveFields? room rest with
    | some j, some js => some ((key, j) :: js)
    | _, _ => none
  | (none, _) :: _ => none

end
end Written

/-- How deep a value without a fixed shape may be nested. -/
def depthLimit : Nat := 127

/-- The value of a text: of repeated keys the last counts, and keys are in order. -/
def ofText? (s : String) : Option Json :=
  match Written.ofText? s with
  | some w => w.resolve? depthLimit
  | none => none

end TickerBoard.Json

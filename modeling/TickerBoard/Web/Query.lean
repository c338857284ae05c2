import TickerBoard.Calendar.DayText
import TickerBoard.Text.Utf8
import TickerBoard.Word

/-! Query strings of web requests.

Pairs are divided by ampersands, and name and value by the first equals sign. A
plus sign is a blank, a percent sign with two hexadecimal digits is a byte, and
any other percent sign stands for itself. A request reads the names it knows:
one that it needs must be there, and none of them may be there twice. -/
namespace TickerBoard.Web

abbrev Query := List (String × String)

namespace Query

def hexDigit? (b : UInt8) : Option Nat :=
  let n := b.toNat
  if 0x30 ≤ n && n ≤ 0x39 then some (n - 0x30)
  else if 0x41 ≤ n && n ≤ 0x46 then some (n - 0x37)
  else if 0x61 ≤ n && n ≤ 0x66 then some (n - 0x57)
  else none

/-- The bytes that a part of a query stands for. -/
def unescape : List UInt8 → List UInt8
  | [] => []
  | 0x25 :: a :: b :: rest =>
    match hexDigit? a, hexDigit? b with
    | some m, some n => (16 * m + n).toUInt8 :: unescape rest
    | _, _ => 0x25 :: unescape (a :: b :: rest)
  | 0x2b :: rest => 0x20 :: unescape rest
  | b :: rest => b :: unescape rest

def decoded (bytes : List UInt8) : String := Text.decodeLossy (unescape bytes)

def ampersand : UInt8 := 0x26

def equalsSign : UInt8 := 0x3d

/-- The parts of a list between the places of a divider. -/
def splitAt (divider : UInt8) : List UInt8 → List (List UInt8)
  | [] => [[]]
  | b :: rest =>
    if b = divider then [] :: splitAt divider rest
    else
      match splitAt divider rest with
      | [] => [[b]]
      | part :: parts => (b :: part) :: parts

def pairOf (part : List UInt8) : String × String :=
  (decoded (part.takeWhile (· ≠ equalsSign)), decoded ((part.dropWhile (· ≠ equalsSign)).drop 1))

def ofText (s : String) : Query :=
  ((splitAt ampersand s.toUTF8.toList).filter (!·.isEmpty)).map pairOf

/-- The value of a name, if no other pair has the name too. -/
def single? (q : Query) (name : String) : Option (Option String) :=
  match q.filter (·.1 == name) with
  | [] => some none
  | [(_, value)] => some (some value)
  | _ => none

/-- The value of a name that must be there. -/
def needed? (q : Query) (name : String) : Option String := (q.single? name).bind id

/-- The value of a name that may be missing, in the form that `read` takes. -/
def optional? {α : Type} (read : String → Option α) (q : Query) (name : String) : Option (Option α) :=
  match q.single? name with
  | none => none
  | some none => some none
  | some (some value) => (read value).map some

/-- A number of 32 bits, which a plus sign may precede. -/
def count? (s : String) : Option Nat :=
  let digits := match s.toList with
    | '+' :: rest => rest
    | cs => cs
  match Calendar.takeNumeral digits with
  | some (n, []) => if n < Word.size 32 then some n else none
  | _ => none

end Query
end TickerBoard.Web

import TickerBoard.Json.Shortest

/-! Numbers of JSON texts: how a numeral is read and a number is written.

A numeral without point and exponent is an integer as long as 64 bits hold it:
unsigned ones up to the largest word, negative ones down to the least signed
word. Everything else, negative zero included, is a double. A double is built
from the leading digits that fit into a word: later integer digits count in
the exponent only and later decimals not at all, and the word is then scaled
by powers of ten, each step rounded. So a numeral of many digits may be read
as a neighbour of the nearest double.

A double is written with the fewest digits that identify it: positional while
the point falls within the first sixteen digits or at most five places before
them, scientific otherwise, and never without a point or an exponent. -/
namespace TickerBoard.Json

/-- A numeral as it stands in the text. -/
structure Numeral where
  negative : Bool
  whole : List Nat
  decimals : Option (List Nat)
  /-- Sign and digits of the exponent; the sign is true for a negative one. -/
  exponent : Option (Bool × List Nat)
deriving Repr, DecidableEq

inductive Number
  | int (n : Int)
  | float (x : Float)
deriving Repr

/-- Leading digits that fit into a word, and the digits left over. -/
def packDigits (word : Nat) : List Nat → Nat × List Nat
  | [] => (word, [])
  | d :: rest =>
    if word * 10 + d < Word.size 64 then packDigits (word * 10 + d) rest else (word, d :: rest)

/-! ### Reading -/

def powerOfTen (n : Nat) : Float := Float.ofScientific 1 false n

/-- Divides by ten to `n`, in steps of at most 308. -/
def scaleDown (f : Float) (n : Nat) : Float :=
  if n ≤ 308 then f / powerOfTen n
  else if f == 0 then f
  else scaleDown (f / 1e308) (n - 308)
termination_by n

/-- The word times ten to `e`; none beyond the range of doubles. -/
def scaled? (word : Nat) (e : Int) : Option Float :=
  let f := word.toUInt64.toFloat
  if e < 0 then some (scaleDown f e.natAbs)
  else if e ≤ 308 then
    let g := f * powerOfTen e.toNat
    if g.isInf then none else some g
  else if f == 0 then some f
  else none

def exponentLimit : Nat := 2147483647

/-- Adds within the range of 32-bit exponents. -/
def addExponents (a b : Int) : Int := max (-exponentLimit - 1) (min exponentLimit (a + b))

namespace Numeral

def signed (n : Numeral) (x : Float) : Float := if n.negative then -x else x

/-- The numeral as a double. -/
def float? (n : Numeral) : Option Float :=
  let (word, rest) := packDigits 0 n.whole
  let (word, dropped) := match n.decimals with
    | some ds => let (w, left) := packDigits word ds; (w, (left.length : Int) - ds.length)
    | none => (word, 0)
  let start : Int := rest.length + dropped
  match n.exponent with
  | none => (scaled? word start).map n.signed
  | some (down, ds) =>
    let e : Nat := ds.foldl (fun e d => 10 * e + d) 0
    if exponentLimit < e then
      if word != 0 && !down then none else some (n.signed 0)
    else (scaled? word (addExponents start (if down then -(e : Int) else e))).map n.signed

/-- What a numeral denotes; none if no double is large enough. -/
def read? (n : Numeral) : Option Number :=
  match n.decimals, n.exponent, packDigits 0 n.whole with
  | none, none, (word, []) =>
    if !n.negative then some (.int word)
    else if word == 0 || Word.size 63 < word then some (.float (-word.toUInt64.toFloat))
    else some (.int (-word))
  | _, _, _ => n.float?.map .float

end Numeral

/-! ### Writing -/

/-- Digits of a positive decimal in positional or scientific notation. -/
def Decimal.text (x : Decimal) : List Char :=
  let ds := Nat.toDigits 10 x.digits
  let point : Int := ds.length + x.exponent
  if 0 ≤ x.exponent && point ≤ 16 then ds ++ List.replicate x.exponent.toNat '0' ++ ['.', '0']
  else if 0 < point && point ≤ 16 then ds.take point.toNat ++ '.' :: ds.drop point.toNat
  else if -5 < point && point ≤ 0 then
    '0' :: '.' :: List.replicate (-point).toNat '0' ++ ds
  else
    let e := point - 1
    let power := 'e' :: (if e < 0 then ['-'] else []) ++ Nat.toDigits 10 e.natAbs
    match ds with
    | [d] => d :: power
    | d :: more => d :: '.' :: more ++ power
    | [] => power

/-- The text of a finite double. -/
def floatText (x : Float) : String :=
  let bits := x.toBits.toNat
  let sign := if bits < Word.size 63 then [] else ['-']
  let magnitude := bits % Word.size 63
  String.ofList <| sign ++
    if magnitude == 0 then ['0', '.', '0'] else (shortest magnitude).text

example : (Decimal.mk 1234 7).text = "12340000000.0".toList := by decide +kernel
example : (Decimal.mk 1234 (-6)).text = "0.001234".toList := by decide +kernel
example : (Decimal.mk 12 29).text = "1.2e30".toList := by decide +kernel

end TickerBoard.Json

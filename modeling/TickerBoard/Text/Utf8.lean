/-! Reading UTF-8 that may be broken.

A byte sequence that is no character is read as the replacement character: one
for each longest part that could have begun a character, and one for each byte
that could not. Surrogates, overlong forms and codes past the last plane are no
characters; the range of the second byte rules them out. -/
namespace TickerBoard.Text

def replacement : Char := '\ufffd'

/-- How many bytes follow a first byte, what it adds to the code, and the range of the
byte after it. -/
def leading? (b : Nat) : Option (Nat × Nat × Nat × Nat) :=
  if 0xc2 ≤ b && b ≤ 0xdf then some (1, b % 0x20, 0x80, 0xbf)
  else if b == 0xe0 then some (2, 0, 0xa0, 0xbf)
  else if b == 0xed then some (2, 0xd, 0x80, 0x9f)
  else if 0xe1 ≤ b && b ≤ 0xef then some (2, b % 0x10, 0x80, 0xbf)
  else if b == 0xf0 then some (3, 0, 0x90, 0xbf)
  else if 0xf1 ≤ b && b ≤ 0xf3 then some (3, b % 0x8, 0x80, 0xbf)
  else if b == 0xf4 then some (3, 4, 0x80, 0x8f)
  else none

/-- A character under way: how many bytes it lacks, its code so far, and the range of
its next byte. -/
structure Pending where
  missing : Nat
  code : Nat
  low : Nat
  high : Nat

/-- What a byte that begins a character comes to: characters that are complete, and the
character under way. -/
def begin (n : Nat) : List Char × Option Pending :=
  if n < 0x80 then ([Char.ofNat n], none)
  else
    match leading? n with
    | some (missing, code, low, high) => ([], some ⟨missing, code, low, high⟩)
    | none => ([replacement], none)

/-- What the next byte comes to. -/
def advance (pending : Option Pending) (b : UInt8) : List Char × Option Pending :=
  let n := b.toNat
  match pending with
  | none => begin n
  | some p =>
    if p.low ≤ n && n ≤ p.high then
      let code := p.code * 0x40 + n % 0x40
      if p.missing ≤ 1 then ([Char.ofNat code], none)
      else ([], some ⟨p.missing - 1, code, 0x80, 0xbf⟩)
    else (replacement :: (begin n).1, (begin n).2)

/-- Reads bytes, with the character under way. -/
def decodeBytes : Option Pending → List UInt8 → List Char
  | pending, [] => if pending.isSome then [replacement] else []
  | pending, b :: rest => (advance pending b).1 ++ decodeBytes (advance pending b).2 rest

def decodeLossy (bytes : List UInt8) : String := String.ofList (decodeBytes none bytes)

example : decodeLossy [0xf0, 0x9f, 0x98, 0x80, 0x22] = "😀\"" := by decide +kernel
example : decodeLossy [0xe2, 0x82, 0x41, 0xff] = "\ufffdA\ufffd" := by decide +kernel
example : decodeLossy [0xed, 0xa0, 0x80] = "\ufffd\ufffd\ufffd" := by decide +kernel

end TickerBoard.Text

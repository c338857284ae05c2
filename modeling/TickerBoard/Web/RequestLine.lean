import TickerBoard.Web.Query

/-! Request lines: the method of a web request and what it asks for.

A target is a path and, after a question mark, a query; what follows a number
sign is no part of it. Before them a target may name the host that is asked, with
a scheme. A host alone is a target without a path, and an asterisk is one of its
own. Any host will do: it is checked, and nothing of it is kept. -/
namespace TickerBoard.Web

structure RequestLine where
  method : String
  path : String
  query : Query
deriving Repr, DecidableEq

namespace RequestLine

/-! ### Characters -/

def isTokenChar (c : Char) : Bool := c.isAlphanum || "!#$%&'*+-.^_\x60|~".toList.contains c

def isSchemeChar (c : Char) : Bool := c.isAlphanum || "+-.~".toList.contains c

/-- The characters of a host that have no meaning of their own. -/
def isHostChar (c : Char) : Bool := c.isAlphanum || "!$&'()*+,-.;=_~".toList.contains c

/-- Neither a blank nor a control character of ASCII; the letters of every script are. -/
def isPrinted (c : Char) : Bool := 0x20 < c.toNat && c.toNat ≠ 0x7f

/-- Paths are written without angle brackets and backticks. -/
def isPathChar (c : Char) : Bool := isPrinted c && !"<>\x60".toList.contains c

/-- Queries are written without angle brackets and quotes. -/
def isQueryChar (c : Char) : Bool := isPrinted c && !"<>\"".toList.contains c

/-! ### Hosts

A host may have a user before an at sign, stand in brackets, and have a number
after a colon. -/

/-- What was seen of a host, from its last at sign or closing bracket on. -/
structure HostScan where
  colons : Nat
  percent : Bool
  /-- A bracket was opened, anywhere. -/
  opened : Bool
  /-- A bracket was closed, anywhere. -/
  closed : Bool
deriving Repr, DecidableEq

/-- The colons of an address in brackets, and one more. -/
def colonLimit : Nat := 8

def HostScan.next (s : HostScan) (c : Char) : Option HostScan :=
  match c with
  | ':' => if s.colons < colonLimit then some { s with colons := s.colons + 1 } else none
  | '[' => if s.percent || s.opened then none else some { s with opened := true }
  | ']' => if s.opened && !s.closed then some ⟨0, false, true, true⟩ else none
  | '@' => some { s with colons := 0, percent := false }
  | '%' => some { s with percent := true }
  | c => if isHostChar c then some s else none

/-- Brackets come in pairs, the host is not empty behind its user, has at most one
colon there, and no percent sign. -/
def isHost (cs : List Char) : Bool :=
  match cs.foldlM HostScan.next ⟨0, false, false, false⟩ with
  | none => false
  | some s => s.opened == s.closed && s.colons ≤ 1 && !s.percent && cs.getLast? ≠ some '@'

/-! ### Targets -/

/-- The bytes that a target may have. -/
def lengthLimit : Nat := 65534

def schemeLimit : Nat := 64

/-- Path and query of a target from where its path begins; an empty path is the root. -/
def resource? (cs : List Char) : Option (String × Query) :=
  let isInPath : Char → Bool := fun c => c ≠ '?' && c ≠ '#'
  let path := cs.takeWhile isInPath
  let query := ((cs.dropWhile isInPath).takeWhile (· ≠ '#')).drop 1
  if path.all isPathChar && query.all isQueryChar then
    some (if path.isEmpty then "/" else String.ofList path, Query.ofText (String.ofList query))
  else none

/-- Path and query of a target that does not begin with its path. -/
def resourceAt? (cs : List Char) : Option (String × Query) :=
  let scheme := cs.takeWhile isSchemeChar
  match cs.dropWhile isSchemeChar with
  | ':' :: '/' :: '/' :: rest =>
    let isInHost : Char → Bool := fun c => c ≠ '/' && c ≠ '?' && c ≠ '#'
    let host := rest.takeWhile isInHost
    if scheme.length ≤ schemeLimit && !host.isEmpty && isHost host then
      resource? (rest.dropWhile isInHost)
    else none
  | _ => if isHost cs then some ("", []) else none

def ofTarget? (target : String) : Option (String × Query) :=
  if lengthLimit < target.utf8ByteSize then none
  else
    match target.toList with
    | [] => none
    | ['*'] => some ("*", [])
    | '/' :: rest => resource? ('/' :: rest)
    | cs => resourceAt? cs

/-- A request line; the method has to be a token. -/
def ofTexts? (method target : String) : Option RequestLine :=
  if !method.isEmpty && method.all isTokenChar then
    (ofTarget? target).map fun (path, query) => ⟨method, path, query⟩
  else none

end RequestLine
end TickerBoard.Web

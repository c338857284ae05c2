import TickerBoard.Table

/-! Directories: folders and text files under names.

A path is a list of names from the root down. Only folders are gone through; an
empty name and a single dot stay where they are, two dots go back up, and a name
of more than 255 bytes names nothing. A file is replaced as a whole: the new
text is written to a temporary file beside it, which then takes its place. Every
change is a call of its own, which may break off part-way. -/
namespace TickerBoard

abbrev Path := List String

namespace Directory

inductive Node
  | folder
  /-- A file; without a text if its bytes spell none. -/
  | file (text : Option String)
deriving Repr, DecidableEq

end Directory

/-- What stands under each path; the root itself is always a folder. -/
structure Directory where
  nodes : Table Path Directory.Node
deriving Repr, DecidableEq

namespace Directory

def empty : Directory := ⟨.empty⟩

instance : Inhabited Directory := ⟨empty⟩

/-- What stands under a path without dots. -/
def node? (d : Directory) (p : Path) : Option Node :=
  if p = [] then some .folder else d.nodes.find? p

def isFolder (d : Directory) (p : Path) : Bool := d.node? p == some .folder

def nameLimit : Nat := 255

/-- The place that a path leads to from `place`, whether or not something stands there. -/
def walk (d : Directory) (place : Path) : Path → Option Path
  | [] => some place
  | name :: rest =>
    if !d.isFolder place then none
    else if name = "" ∨ name = "." then d.walk place rest
    else if name = ".." then d.walk place.dropLast rest
    else if nameLimit < name.utf8ByteSize then none
    else d.walk (place ++ [name]) rest

/-- What a path leads to. -/
def get? (d : Directory) (p : Path) : Option Node := (d.walk [] p).bind d.node?

def contains (d : Directory) (p : Path) : Bool := (d.get? p).isSome

/-- The text of the file that a path leads to. -/
def read? (d : Directory) (p : Path) : Option String :=
  match d.get? p with
  | some (.file text) => text
  | _ => none

/-- The place where a file can be written. -/
def filePlace? (d : Directory) (p : Path) : Option Path :=
  match d.walk [] p with
  | some place => if d.isFolder place then none else some place
  | none => none

def put (d : Directory) (place : Path) (node : Node) : Directory := ⟨d.nodes.insert place node⟩

/-- Writes a file, unless no file can be there. -/
def write? (d : Directory) (p : Path) (text : Option String) : Option Directory :=
  (d.filePlace? p).map fun place => d.put place (.file text)

/-- Moves a file to another path, in the place of a file that may be there. -/
def rename? (d : Directory) (source target : Path) : Option Directory :=
  match d.walk [] source, d.filePlace? target with
  | some source, some target =>
    match d.node? source with
    | some (.file text) =>
      some ((⟨d.nodes.erase source⟩ : Directory).put target (.file text))
    | _ => none
  | _, _ => none

/-- Makes every folder on the way from `place` on, and answers whether all are there. -/
def makeFoldersFrom (d : Directory) (place : Path) : Path → Directory × Bool
  | [] => (d, d.isFolder place)
  | name :: rest =>
    if !d.isFolder place then (d, false)
    else if name = "" ∨ name = "." then d.makeFoldersFrom place rest
    else if name = ".." then d.makeFoldersFrom place.dropLast rest
    else if nameLimit < name.utf8ByteSize then (d, false)
    else
      let next := place ++ [name]
      let d := if (d.node? next).isSome then d else d.put next .folder
      d.makeFoldersFrom next rest

def makeFolders (d : Directory) (p : Path) : Directory × Bool := d.makeFoldersFrom [] p

/-- Removes a folder and everything below it. -/
def remove (d : Directory) (p : Path) : Directory :=
  ⟨d.nodes.filter fun place _ => !p.isPrefixOf place⟩

/-- All files with their texts. -/
def files (d : Directory) : List (Path × Option String) :=
  d.nodes.entries.filterMap fun
    | (place, .file text) => some (place, text)
    | _ => none

/-! ### Calls -/

/-- A change that is asked for at once. -/
inductive Call
  | makeFolders (p : Path)
  | write (p : Path) (text : String)
  | rename (source target : Path)
deriving Repr, DecidableEq

/-- How far a call gets that breaks off, on a full disk say: to which of its folders, and to what
its file then holds, if it was opened. -/
structure Mishap where
  folders : Nat
  written : Option (Option String)
deriving Repr, DecidableEq

namespace Call

/-- What a call does, and whether it succeeds. -/
def run (d : Directory) : Call → Directory × Bool
  | makeFolders p => d.makeFolders p
  | write p text =>
    match d.write? p (some text) with
    | none => (d, false)
    | some d => (d, true)
  | rename source target =>
    match d.rename? source target with
    | none => (d, false)
    | some d => (d, true)

/-- What a call leaves that breaks off. A file has been moved or has not; of its text
anything may be there. -/
def brokenOff (d : Directory) (m : Mishap) : Call → Directory
  | makeFolders p => (d.makeFolders (p.take m.folders)).1
  | write p _ => (m.written.bind (d.write? p)).getD d
  | rename _ _ => d

def attempt (d : Directory) (c : Call) : Option Mishap → Directory × Bool
  | none => c.run d
  | some m => (c.brokenOff d m, false)

end Call

/-- Makes one call after another, as long as they succeed; each stands with the fault that it
fails with. Mishaps are told by the number of the call. -/
def carryOut {ε : Type} (d : Directory) : List (Call × ε) → List (Option Mishap) → Directory × Except ε Unit
  | [], _ => (d, .ok ())
  | (c, fault) :: calls, mishaps =>
    match c.attempt d mishaps.head?.join with
    | (d, false) => (d, .error fault)
    | (d, true) => d.carryOut calls mishaps.tail

/-! ### Replacing a file -/

/-- The step at which a replacement failed. -/
inductive ReplaceFault
  | write
  | rename
deriving Repr, DecidableEq

/-- The calls that write a text beside the target and then move it there. -/
def replacing {ε : Type} (temporary target : Path) (text : String) (unwritten unmoved : ε) : List (Call × ε) :=
  [(.write temporary text, unwritten), (.rename temporary target, unmoved)]

def replace (d : Directory) (temporary target : Path) (text : String) :
    Directory × Except ReplaceFault Unit :=
  d.carryOut (replacing temporary target text .write .rename) []

end Directory
end TickerBoard

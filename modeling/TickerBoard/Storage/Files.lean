import TickerBoard.Storage.Directory
import TickerBoard.Storage.Store

/-! The store in files.

Below its root there are the list `instruments.json`, a list of bars for each
symbol in the folder `bars`, and in the folder `divergences`, in a folder for
each symbol, a record for each day. A file that is missing stands for an empty
value, and one that cannot be read stops the operation. An operation first reads
what it needs, and then makes its calls. Files carry whole seconds, and numbers
as JSON has them. With a retention, saving bars also drops
those that are older than it allows, counted back from the newest bar. -/
namespace TickerBoard

structure FileStore where
  /-- The root as messages name it. -/
  root : String
  /-- How far before the newest bar bars are kept, in milliseconds. -/
  retention : Option Int
  disk : Directory
deriving Repr, DecidableEq

namespace FileStore

/-! ### Paths -/

/-- A symbol as a file name: what is neither a letter or digit of ASCII nor a dot nor a
hyphen becomes an underscore. -/
def stem (symbol : String) : String :=
  symbol.map fun c => if c.isAlphanum || c == '.' || c == '-' then c else '_'

def display (s : FileStore) (p : Path) : String := "/".intercalate (s.root :: p.filter (· ≠ ""))

/-- A file with the ending of the store, and its temporary sibling. -/
structure Target where
  folder : Path
  stem : String

def Target.path (t : Target) : Path := t.folder ++ [t.stem ++ ".json"]

/-- The file that a new version is written to first. A name that is nothing but the
ending counts as a stem; a stem of one dot leaves no name, only the folder above. -/
def Target.temporary (t : Target) : Path :=
  t.folder ++
    [if t.stem = "" then ".json.json.tmp" else if t.stem = "." then ".." else t.stem ++ ".json.tmp"]

def instrumentsFile : Target := ⟨[], "instruments"⟩

def barsFile (symbol : String) : Target := ⟨["bars"], stem symbol⟩

def recordFile (symbol : String) (day : Day) : Target := ⟨["divergences", stem symbol], day.text⟩

/-- The folder of a record, whose own name may be a dot or nothing. -/
def recordFolder (symbol : String) : Path :=
  if stem symbol = "" ∨ stem symbol = "." then ["divergences"] else ["divergences", stem symbol]

/-! ### Reading -/

/-- The value in a file; none if there is no file. -/
def readFile {α : Type} (s : FileStore) (decode : Json.Written → Option α) (t : Target) :
    Except StoreFault (Option α) :=
  if !s.disk.contains t.path then .ok none
  else
    match s.disk.read? t.path with
    | none => .error (.read (s.display t.path))
    | some text =>
      match (Json.Written.ofText? text).bind decode with
      | none => .error (.parse (s.display t.path))
      | some a => .ok (some a)

/-! ### Instruments -/

def instrumentsOf? (w : Json.Written) : Option Instruments :=
  (w.listOf? Json.Written.text?).map fun names => Table.ofList (names.map (·, ()))

def instruments (s : FileStore) : Except StoreFault Instruments :=
  (s.readFile instrumentsOf? instrumentsFile).map (·.getD .empty)

/-! ### Bars -/

def bars (s : FileStore) (symbol : String) : Except StoreFault (List (Bar Float)) :=
  (s.readFile (Json.Written.listOf? Bar.ofWritten?) (barsFile symbol)).map (·.getD [])

/-- The bars that the retention keeps, where the calendar has its bound. -/
def retained? (retention : Option Int) (bars : List (Bar Float)) : Option (List (Bar Float)) :=
  match retention, bars.getLast? with
  | some keep, some newest =>
    (newest.time.plus? (-keep)).map fun cutoff => bars.filter fun b => cutoff.ms ≤ b.time.ms
  | _, _ => some bars

/-! ### Records -/

def record (s : FileStore) (symbol : String) (day : Day) : Except StoreFault DayRecord :=
  (s.readFile DayRecord.ofWritten? (recordFile symbol day)).map (·.getD .empty)

/-! ### Operations -/

/-- What may change the files of a store: opening it again, and what is saved. -/
inductive Operation
  | reopen
  | saveInstrument (symbol : String)
  | deleteInstrument (symbol : String)
  | saveBars (symbol : String) (new : List (Bar Float))
  | saveRecord (symbol : String) (day : Day) (r : DayRecord)

/-- The call that makes a folder. -/
def making (s : FileStore) (p : Path) (fault : String → StoreFault) : Directory.Call × StoreFault :=
  (.makeFolders p, fault (s.display p))

/-- The calls that put a new version of a file in its place. -/
def writing (s : FileStore) (t : Target) (j : Json) : List (Directory.Call × StoreFault) :=
  Directory.replacing t.temporary t.path j.compact (.write (s.display t.temporary)) (.rename (s.display t.path))

def changing (s : FileStore) (change : Instruments → Instruments) :
    Except StoreFault (List (Directory.Call × StoreFault)) :=
  s.instruments.map fun names => s.writing instrumentsFile (.listOf .text (change names).keys)

def adding (s : FileStore) (symbol : String) (new : List (Bar Float)) :
    Except StoreFault (List (Directory.Call × StoreFault)) :=
  if new.isEmpty then .ok []
  else
    match s.bars symbol with
    | .error e => .error e
    | .ok old =>
      let merged : BarSeries := BarSeries.merge (BarSeries.merge .empty old) new
      match retained? s.retention merged.values with
      | none => .error .outsideCalendar
      | some kept => .ok (s.writing (barsFile symbol) (.listOf Bar.json kept))

/-- The calls of an operation, unless what it reads stops it. -/
def calls (s : FileStore) : Operation → Except StoreFault (List (Directory.Call × StoreFault))
  | .reopen => .ok [s.making ["bars"] .createStore, s.making ["divergences"] .createStore]
  | .saveInstrument symbol => s.changing (·.insert symbol ())
  | .deleteInstrument symbol => s.changing (·.erase symbol)
  | .saveBars symbol new => s.adding symbol new
  | .saveRecord symbol day r =>
    .ok (s.making (recordFolder symbol) .createFolder :: s.writing (recordFile symbol day) r.json)

/-- Carries an operation out, on a disk where calls may break off. -/
def perform (s : FileStore) (op : Operation) (mishaps : List (Option Directory.Mishap)) :
    FileStore × Except StoreFault Unit :=
  match s.calls op with
  | .error e => (s, .error e)
  | .ok calls =>
    match s.disk.carryOut calls mishaps with
    | (disk, result) => ({ s with disk }, result)

/-- Makes the folders of the store. -/
def prepare (s : FileStore) : FileStore × Except StoreFault Unit := s.perform .reopen []

/-- A store without files. A span of time is counted in a word with a sign, no further
back than ahead, and so is a retention. -/
def create? (root : String) (retention : Option Int) : Option FileStore :=
  if retention.all fun ms => ms.natAbs < Word.size 63 then
    some (prepare ⟨root, retention, .empty⟩).1
  else none

def saveBars (s : FileStore) (symbol : String) (new : List (Bar Float)) : FileStore × Except StoreFault Unit :=
  s.perform (.saveBars symbol new) []

def saveRecord (s : FileStore) (symbol : String) (day : Day) (r : DayRecord) : FileStore × Except StoreFault Unit :=
  s.perform (.saveRecord symbol day r) []

instance : Store FileStore where
  instruments s := s.instruments.map Table.keys
  saveInstrument s symbol := s.perform (.saveInstrument symbol) []
  deleteInstrument s symbol := s.perform (.deleteInstrument symbol) []
  loadBars s symbol since := (s.bars symbol).map (·.filter fun b => since.ms ≤ b.time.ms)
  saveBars := saveBars
  loadRecord := record
  saveRecord := saveRecord

end FileStore
end TickerBoard

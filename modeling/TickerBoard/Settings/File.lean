import TickerBoard.Settings.Written
import TickerBoard.Storage.Directory

/-! The settings file, and settings from the environment. -/
namespace TickerBoard
namespace Settings

/-! ### The file -/

inductive FileFault
  | read (path : String)
  | parse (path : String)
  | write (path : String)
  | rename (path : String)
deriving Repr, DecidableEq

def FileFault.message : FileFault → String
  | read path => "failed to read runtime config from " ++ path
  | parse path => "failed to parse runtime config from " ++ path
  | write path => "failed to write tmp config to " ++ path
  | rename path => "failed to rename tmp config to " ++ path

def fileName : String := "pulse_config.json"

def temporaryName : String := "pulse_config.json.tmp"

variable (root : String) (disk : Directory)

/-- The settings in the file of a folder, whose name in messages is `root`. -/
def load : Except FileFault Settings :=
  let path := root ++ "/" ++ fileName
  match disk.read? [fileName] with
  | none => .error (.read path)
  | some text =>
    match (Json.Written.ofText? text).bind ofWritten? with
    | none => .error (.parse path)
    | some s => .ok s

/-- Puts the settings into the file of a folder. -/
def save (s : Settings) : Directory × Except FileFault Unit :=
  match disk.replace [temporaryName] [fileName] (s.json.indented 0) with
  | (disk, .ok ()) => (disk, .ok ())
  | (disk, .error .write) => (disk, .error (.write (root ++ "/" ++ temporaryName)))
  | (disk, .error .rename) => (disk, .error (.rename (root ++ "/" ++ fileName)))

/-! ### The environment -/

/-- The symbols of a list with commas, trimmed and in upper case. -/
def symbolsOf (text : String) : List String :=
  ((text.splitOn ",").map fun s => Text.upper (Text.trim s)).filter (· ≠ "")

/-- Sets a part from a variable, if it is set. -/
def override (environment : String → Option String) (name : String)
    (set : Settings → String → Settings) (s : Settings) : Settings :=
  match environment name with
  | some value => set s value
  | none => s

/-- The settings with what the environment sets. A bad adapter mode is a fault, and
then the variables after it are not looked at. -/
def withEnvironment (environment : String → Option String) (s : Settings) :
    Settings × Except Fault Unit :=
  let s := override environment "PULSE_SYMBOLS" (fun s text => { s with symbols := symbolsOf text }) s
  let s := override environment "PULSE_BIND_ADDR" (fun s text => { s with bindAddress := text }) s
  let rest (s : Settings) : Settings :=
    override environment "PULSE_API_TOKEN"
      (fun s text => { s with live := { s.live with token := text } })
      (override environment "PULSE_DATA_DIR" (fun s text => { s with dataFolder := text }) s)
  match (environment "PULSE_ADAPTER").map AdapterMode.ofText with
  | none => (rest s, .ok ())
  | some (.ok mode) => (rest { s with adapter := mode }, .ok ())
  | some (.error fault) => (s, .error (fault.under "invalid PULSE_ADAPTER"))

end Settings
end TickerBoard

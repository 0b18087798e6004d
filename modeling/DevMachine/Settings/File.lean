import DevMachine.Settings.Overlay
import DevMachine.Text.Utf8

/-!
# The settings file

Where the file is looked for, what may stand there, and what is reported when
it cannot be read or is not a valid document of settings.
-/

namespace DevMachine.Settings

open Text (Octets)

/-- What stands at a path. -/
inductive FileState
  | missing
  | directory
  | unreadable
  | file (contents : Octets)
  deriving DecidableEq, Repr

/-- Why there are no settings: the file cannot be read as text, or the text is
no document of settings. -/
inductive LoadError
  | unreadable
  | malformed
  deriving DecidableEq, Repr

def LoadError.message (path : String) : LoadError → String
  | .unreadable => s!"reading config file at {path}"
  | .malformed => s!"parsing TOML config from {path}"

/-- The settings of a text. -/
def ofText (text : String) : Except LoadError Settings :=
  match (Toml.read text).bind ofDocument with
  | some settings => .ok settings
  | none => .error .malformed

/-- The settings of a file that was asked for. -/
def load : FileState → Except LoadError Settings
  | .file contents =>
    match Text.Utf8.decode? contents with
    | some text => ofText text
    | none => .error .unreadable
  | _ => .error .unreadable

/-- The settings of the file at the usual place, and the defaults where there
is none. -/
def loadDefault : FileState → Except LoadError Settings
  | .missing => .ok {}
  | state => load state

/-- A path below another one. -/
def join (base name : String) : String :=
  if base.isEmpty ∨ base.endsWith "/" then base ++ name else base ++ "/" ++ name

/-- A directory of the environment counts when it is an absolute path. -/
def absolute? (path : Option String) : Option String :=
  path.filter (·.startsWith "/")

/-- The place of the settings file. -/
def configPath (home : String) (configHome : Option String) : String :=
  join (join ((absolute? configHome).getD (join home ".config")) "machine-box") "config.toml"

/-- The directory of the log files. -/
def logDirectory (home : String) (dataHome : Option String) : String :=
  join (join ((absolute? dataHome).getD (join (join home ".local") "share")) "machine-box") "logs"

end DevMachine.Settings

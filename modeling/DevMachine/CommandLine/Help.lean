import DevMachine.CommandLine.Arguments

/-!
# Help texts

A help text says what the program or a command is for, how it is called, and
what its operands and options mean, with the explanations in one column.
-/

namespace DevMachine.CommandLine

def programName : String := "machine-box"

def versionText : String := programName ++ " 0.1.0\n"

def programPurpose : String := "Manage developer machines running in Docker"

def Verb.purpose : Verb → String
  | .exec => "Run a shell command inside a container"
  | .alive => "Check whether a process started by `exec` is still running"
  | .kill => "Terminate a process started by `exec`"
  | .launcher => "Launch the startup command in dev machines as they start"
  | .logs => "Print the ordered output of a channel from the event endpoint"

def Verb.operands : Verb → List String
  | .exec => ["<CONTAINER>", "<COMMAND>"]
  | .alive | .kill => ["<CONTAINER>", "<PID_FILE>"]
  | .launcher => []
  | .logs => ["<CHANNEL>"]

/-- An entry of a list with its explanation. -/
abbrev Row := String × String

def commonRows : List Row :=
  [("    --config <CONFIG>", "Config file to use instead of the default location"),
    ("    --stderr", "Log to stderr instead of the log file")]

def helpRow : Row := ("-h, --help", "Print help")

def Verb.optionRows : Verb → List Row
  | .exec => [("    --detach", "Return immediately instead of streaming output")]
  | .logs => [("    --endpoint <ENDPOINT>", "Endpoint URL, overriding the configured one")]
  | _ => []

/-- A list under a title, its explanations two columns behind the longest
entry. -/
def list (title : String) (rows : List Row) : String :=
  let width := rows.foldl (fun w row => max w row.1.length) 0
  rows.foldl
    (fun text row => text ++ "  " ++ row.1.pushn ' ' (width - row.1.length + 2) ++ row.2 ++ "\n")
    (title ++ ":\n")

def programHelp : String :=
  programPurpose ++ "\n\nUsage: " ++ programName ++ " [OPTIONS] <COMMAND>\n\n" ++
    list "Commands" (Verb.all.map (fun verb => (verb.name, verb.purpose)) ++
      [("help", "Print this message or the help of the given subcommand(s)")]) ++ "\n" ++
    list "Options" (commonRows ++ [helpRow, ("-V, --version", "Print version")])

def Verb.help (verb : Verb) : String :=
  verb.purpose ++ "\n\nUsage: " ++
    " ".intercalate ([programName, verb.name, "[OPTIONS]"] ++ verb.operands) ++ "\n\n" ++
    (if verb.operands = [] then ""
      else list "Arguments" (verb.operands.map fun operand => (operand, "")) ++ "\n") ++
    list "Options" (verb.optionRows ++ commonRows ++ [helpRow])

def helpText : Option Verb → String
  | some verb => verb.help
  | none => programHelp

end DevMachine.CommandLine

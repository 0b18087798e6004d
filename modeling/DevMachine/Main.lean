import DevMachine.CommandLine.Run

/-!
# The program

Reads the environment and the settings files, runs the command line and writes
what it reports.  No socket is opened here, so neither a daemon nor an endpoint
is ever met.
-/

open DevMachine DevMachine.CommandLine

/-- What stands at a path. -/
def readState (path : String) : IO Settings.FileState := do
  try
    let contents ← IO.FS.readBinFile path
    return .file contents.toList
  catch
    | .noFileOrDirectory .. => return .missing
    | _ => return .unreadable

/-- The files that a run may read. -/
def readSite (args : List String) : IO Site := do
  let home := (← IO.getEnv "HOME").getD ""
  let usualConfig := Settings.configPath home (← IO.getEnv "XDG_CONFIG_HOME")
  let wanted := match Parsed.ofArguments args with
    | .run common _ => common.config.getD usualConfig
    | _ => usualConfig
  let state ← readState wanted
  return { usualConfig, files := fun path => if path = wanted then state else .missing }

def main (args : List String) : IO UInt32 := do
  match run (← readSite args) args with
  | some report => do
    (← IO.getStdout).putStr report.output
    (← IO.getStderr).putStr report.errors
    return UInt32.ofNat report.exit
  | none => return 0

import DevMachine.Exec.Backend
import DevMachine.Exec.Script
import DevMachine.Text.Blank
import DevMachine.Text.Hexadecimal
import DevMachine.Text.Lines

/-!
# Launched commands

A runner launches commands in containers and finds them again through their
pid files.  Every launch takes a token of its own from the runner's supply;
the probe and the kill of a handle use the path that its launch wrote.
-/

namespace DevMachine.Exec

open Container (Failure)
open Text (Octets LineBuffer)

/-- The file a launched command writes its process number to. -/
def pidFile (token : String) : String := "/tmp/machine-exec-" ++ token ++ ".pid"

/-- Eight hexadecimal digits, counted up from zero. -/
def ordinalToken (n : Nat) : String := String.ofList (Text.hexDigits 8 n)

/-- One command launched inside a container. -/
structure Handle where
  container : String
  command : String
  pidFile : Option String
  deriving DecidableEq, Repr

/-- A handle of a command that was never started. -/
def Handle.unstarted (container command : String) : Handle :=
  { container, command, pidFile := none }

/-- A handle of a process that was launched earlier. -/
def Handle.ofPidFile (container path : String) : Handle :=
  { container, command := "", pidFile := some path }

/-- Forwards output line by line, up to its end or its first failure.  The
unfinished line is forwarded at the end only. -/
def forward (buffer : LineBuffer) : List (Except Failure Octets) → List String × Option Failure
  | [] => (buffer.finish.1.toList, none)
  | .error e :: _ => ([], some e)
  | .ok chunk :: rest =>
    let (lines, buffer) := buffer.push chunk
    let (more, failure) := forward buffer rest
    (lines ++ more, failure)

/-- The state of the runtime, how many commands were launched, and the supply
of tokens for their pid files. -/
structure Runner (σ : Type) where
  world : σ
  launched : Nat := 0
  token : Nat → String := ordinalToken

/-- What became of a request: its result and the lines it forwarded. -/
structure Outcome (α : Type) where
  result : Except Failure α
  lines : List String := []

namespace Runner

variable {σ : Type}

/-- Runs a script in a container, with its output forwarded or detached. -/
def run (r : Runner σ) (b : Backend σ) (container script : String) (attach : Bool) :
    Outcome Unit × Runner σ :=
  match b.create r.world container attach (shellArguments script) with
  | (.error e, world) => ({ result := .error e }, { r with world })
  | (.ok exec, world) =>
    match b.start world exec (!attach) with
    | (.error e, world) => ({ result := .error e }, { r with world })
    | (.ok .detached, world) => ({ result := .ok () }, { r with world })
    | (.ok (.attached chunks), world) =>
      if attach then
        let (lines, failure) := forward {} chunks
        ({ result := match failure with
            | some e => .error e
            | none => .ok ()
           lines }, { r with world })
      else ({ result := .ok () }, { r with world })

/-- Launches a command.  With `attach` its output is forwarded and the launch
ends with it; without, it ends once the runtime has taken the command. -/
def start (r : Runner σ) (b : Backend σ) (container command : String) (attach : Bool) :
    Outcome Handle × Runner σ :=
  let path := pidFile (r.token r.launched)
  let (outcome, r) :=
    run { r with launched := r.launched + 1 } b container (wrapCommand path command) attach
  ({ result := outcome.result.map fun _ => { container, command, pidFile := some path }
     lines := outcome.lines }, r)

/-- Whether the process of a handle still runs: its probe then says nothing
but blanks. -/
def isAlive (r : Runner σ) (b : Backend σ) (handle : Handle) : Except Failure Bool × Runner σ :=
  match handle.pidFile with
  | none => (.ok false, r)
  | some path =>
    let (outcome, r) := run r b handle.container (livenessProbe path) true
    (outcome.result.map fun _ => outcome.lines.all Text.isBlank, r)

/-- Asks the process of a handle to end, without waiting for it. -/
def kill (r : Runner σ) (b : Backend σ) (handle : Handle) : Except Failure Unit × Runner σ :=
  match handle.pidFile with
  | none => (.ok (), r)
  | some path =>
    let (outcome, r) := run r b handle.container (killCommand path) false
    (outcome.result, r)

end Runner

end DevMachine.Exec

import DevMachine.CommandLine.Help
import DevMachine.Connection.Step
import DevMachine.Container.Manager
import DevMachine.Session.Linked
import DevMachine.Settings.File

/-!
# Runs of the command line

A run is determined by its arguments and by what it meets: files, a daemon and
an event endpoint.  Everything it does is in its report.  The log is set up
before the settings are read, so only runs that ask for nothing but a text, or
ask wrongly, leave no log file.
-/

namespace DevMachine.CommandLine

open Channel (Frame)
open Container (Failure Surroundings)
open Exec (Handle Runner)
open Session (Linked)
open Settings (FileState)

/-- The endpoint that a run meets: its url, the texts it sends once it was sent
something, whether it then closes the link, and whether the user interrupts the
run once something the endpoint sent was handled. -/
structure Endpoint where
  url : String
  texts : List String := []
  closes : Bool := false
  interrupted : Bool := false
  deriving DecidableEq, Repr

/-- What a run meets. -/
structure Site where
  usualConfig : String
  files : (path : String) → FileState := fun _ => .missing
  surroundings : Surroundings := {}
  daemon : Daemon := {}
  endpoint : Option Endpoint := none

/-- What a run did.  `logsToErrors` says that the log went to the error output,
which is then not determined. -/
structure Report where
  exit : Nat := 0
  output : String := ""
  errors : String := ""
  logFile : Bool := false
  logsToErrors : Bool := false
  daemon : Daemon := {}
  frames : List Frame := []

def outputLines (lines : List String) : String := String.join (lines.map (· ++ "\n"))

/-- The report of a run that failed. -/
def Report.failed (r : Report) (message : String) : Report :=
  { r with exit := 1, errors := "Error: " ++ message ++ "\n" }

/-- The words for a failure on the command line. -/
def failureText (e : Failure) : String := e.message?.getD "Docker connection error"

/-- Connects to the daemon and goes on with it. -/
def withDaemon (site : Site) (settings : Settings) (r : Report)
    (go : Daemon → Report → Report) : Report :=
  match Container.connect site.surroundings settings.dockerHost site.daemon with
  | (.error e, d) => { r with daemon := d }.failed (failureText e)
  | (.ok (), d) => go d r

def execCommand (container command : String) (detach : Bool) (d : Daemon) (r : Report) : Report :=
  let (outcome, after) := Runner.start { world := d } Container.backend container command !detach
  let r := { r with daemon := after.world, output := outputLines outcome.lines }
  match outcome.result with
  | .error e => r.failed (failureText e)
  | .ok handle =>
    match handle.pidFile with
    | some path => { r with errors := "pid file: " ++ path ++ "\n" }
    | none => r

def aliveCommand (container pidFile : String) (d : Daemon) (r : Report) : Report :=
  let (alive, after) :=
    Runner.isAlive { world := d } Container.backend (.ofPidFile container pidFile)
  let r := { r with daemon := after.world }
  match alive with
  | .error e => r.failed (failureText e)
  | .ok alive => { r with output := if alive then "alive\n" else "dead\n" }

def killCommand (container pidFile : String) (d : Daemon) (r : Report) : Report :=
  let (done, after) := Runner.kill { world := d } Container.backend (.ofPidFile container pidFile)
  let r := { r with daemon := after.world }
  match done with
  | .error e => r.failed (failureText e)
  | .ok () => r

/-- Launches startup commands until the feed ends. -/
def launcherCommand (settings : Settings) (d : Daemon) (r : Report) : Report :=
  let (events, d) := Container.machineEvents settings.devLabel d
  let launcher := Container.launcher settings.devLabel settings.startupCommand
  { r with daemon := (launcher.run { world := d } events).2.world }

/-- A session that streams a channel of the endpoint, after all the endpoint
sends. -/
def streamed (e : Endpoint) (channel : String) : Linked :=
  let started := (Linked.perform {} (.startStreaming channel none)).2.exchange
  let sent := e.texts.foldl (fun l text => (l.arrive (.text text)).exchange) started
  if e.closes then (sent.arrive .close).exchange else sent

/-- Prints the channel until the user interrupts the run. -/
def streamLogs (e : Endpoint) (channel : String) (r : Report) : Option Report :=
  if e.interrupted && (e.closes || !e.texts.isEmpty) then
    let ended := ((streamed e channel).perform .stopAll).2.exchange
    some { r with
      output := outputLines (ended.session.sinks.flatMap (·.lines))
      frames := ended.pump.written }
  else none

/-- The failure of a connection to an endpoint that cannot be reached. -/
def unreachable (url : String) : Channel.Failure :=
  let asked := Connection.run {} [(false, .connect url), (false, .request)]
  let ended := asked.sleep ((Connection.retryBudget + 1) * Connection.retryDelay)
  (ended.history.findSome? fun
    | (_, .answer _ (.failure e)) => some e
    | _ => none).getD .closed

def logsCommand (site : Site) (url channel : String) (r : Report) : Option Report :=
  match site.endpoint with
  | some e =>
    if e.url = url then streamLogs e channel r else some (r.failed (unreachable url).message)
  | none => some (r.failed (unreachable url).message)

def runCommand (site : Site) (settings : Settings) (r : Report) : Command → Option Report
  | .exec container command detach =>
    some (withDaemon site settings r (execCommand container command detach))
  | .alive container pidFile => some (withDaemon site settings r (aliveCommand container pidFile))
  | .kill container pidFile => some (withDaemon site settings r (killCommand container pidFile))
  | .launcher => some (withDaemon site settings r (launcherCommand settings))
  | .logs channel endpoint =>
    match endpoint.or settings.endpoint with
    | some url => logsCommand site url channel r
    | none => some (r.failed "no event endpoint configured; pass --endpoint")

/-- The settings of a run, or why there are none. -/
def loadSettings (site : Site) (common : Common) : Except String Settings :=
  match common.config with
  | some path => (Settings.load (site.files path)).mapError (·.message path)
  | none =>
    (Settings.loadDefault (site.files site.usualConfig)).mapError (·.message site.usualConfig)

/-- The report of a run; there is none for a run that does not end. -/
def run (site : Site) (args : List String) : Option Report :=
  let idle : Report := { daemon := site.daemon }
  match Parsed.ofArguments args with
  | .misuse => some { idle with exit := 2, errors := "error: invalid arguments\n" }
  | .version => some { idle with output := versionText }
  | .help verb => some { idle with output := helpText verb }
  | .run common command =>
    let r := { idle with logFile := !common.stderr, logsToErrors := common.stderr }
    match loadSettings site common with
    | .error message => some (r.failed message)
    | .ok settings => runCommand site settings r command

end DevMachine.CommandLine

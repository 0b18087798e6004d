import DevMachine.Daemon.Inspection
import DevMachine.Daemon.Output
import DevMachine.Daemon.Reading
import DevMachine.Machine.Launcher
import DevMachine.Text.UrlPath

/-!
# Containers of a daemon

The daemon is where commands run, where machines are looked up and where the
event feed comes from.  Names of containers and sessions are put into paths as
they are, so they are escaped like any other path.
-/

namespace DevMachine.Container

open Daemon (FeedItem Method Payload Reply Request Route)
open Exec (Backend Output)
open Json (Reader Value)
open Machine (Event Info Launcher Registry)

/-- A request to a path. -/
def request (method : Method) (path : String) (body : Option Value := none) : Request :=
  let (path, query) := Text.UrlPath.ofText path
  { method, path, query, body }

def sessionBody (attach : Bool) (arguments : List String) : Value :=
  .ofMembers [("AttachStdout", .bool attach), ("AttachStderr", .bool attach),
    ("Cmd", .array (arguments.map .string))]

def startBody (detach : Bool) : Value := .ofMembers [("Detach", .bool detach), ("Tty", .bool false)]

def createdReader : Reader Value :=
  Json.recordOf [{ name := "Id", reader := Json.textValue, required := true }]

/-- Creates a session for a command in a container. -/
def createSession (d : Daemon) (container : String) (attach : Bool) (arguments : List String) :
    Except Failure String × Daemon :=
  let (reply, d) := d.ask .create
    (request .post s!"/containers/{container}/exec" (some (sessionBody attach arguments)))
  (match reply.document createdReader with
    | .ok v => .ok (((v.member? "Id").bind Value.string?).getD "")
    | .error fault => .error (.ofLookup container fault), d)

/-- What a started session hands back.  Output can be attached to only where
the daemon hands the connection over. -/
def sessionOutput (detach : Bool) (reply : Reply) : Except Failure Output :=
  match reply.payload with
  | .error fault => .error (.connection fault)
  | .ok payload =>
    if detach then .ok .detached
    else
      match payload with
      | .raw output => .ok (.attached (Daemon.outputChunks output))
      | .body _ => .error (.connection .unusable)

def startSession (d : Daemon) (session : String) (detach : Bool) :
    Except Failure Output × Daemon :=
  let (reply, d) := d.ask .start
    (request .post s!"/exec/{session}/start" (some (startBody detach)))
  (sessionOutput detach reply, d)

def backend : Backend Daemon := { create := createSession, start := startSession }

/-- The machine of an inspected container. -/
def machineOf (devLabel name : String) (inspection : Value) : Except Failure Info :=
  match Daemon.inspectedId? inspection with
  | some container =>
    .ok
      { machine := name
        container
        dev := Machine.isDev (Daemon.inspectedLabels? inspection) devLabel }
  | none => .error (.operationFailed s!"container {name} has no id")

def lookupMachine (devLabel : String) (d : Daemon) (name : String) :
    Except Failure Info × Daemon :=
  let (reply, d) := d.ask .inspect (request .get s!"/containers/{name}/json")
  (match reply.document Daemon.inspectionReader with
    | .ok inspection => machineOf devLabel name inspection
    | .error fault => .error (.ofLookup name fault), d)

def registry (devLabel : String) : Registry Daemon := lookupMachine devLabel

/-- The request for all events of containers. -/
def eventsRequest : Request :=
  { method := .get
    path := "/events"
    query := some "filters=%7B%22type%22%3A%5B%22container%22%5D%7D" }

/-- The feed of the daemon.  One that was refused is a fault and nothing else. -/
def eventFeed (d : Daemon) : List FeedItem × Daemon :=
  let (reply, d) := d.ask .events eventsRequest
  (match reply.payload with
    | .ok payload => Daemon.feedItems payload.chunks
    | .error fault => [.error fault], d)

/-- The machine events of a feed until its first fault. -/
def eventsOf (devLabel : String) (feed : List FeedItem) : List Event :=
  (feed.takeWhile Except.isOk).filterMap fun item => item.toOption.bind (Event.ofMessage? devLabel)

def machineEvents (devLabel : String) (d : Daemon) : List Event × Daemon :=
  let (feed, d) := eventFeed d
  (eventsOf devLabel feed, d)

/-- A launcher that looks machines up at the daemon and has it run their
startup command. -/
def launcher (devLabel startup : String) : Launcher Daemon :=
  { registry := registry devLabel, backend, startup }

/-- Where a daemon can be reached: on which sockets, and whether at the usual
places. -/
structure Surroundings where
  listens : (socket : String) → Bool := fun _ => false
  usual : Bool := false

/-- Finds the daemon.  A host has to name a socket; without one the usual
places are tried. -/
def locate (s : Surroundings) : (host : Option String) → Except Failure Unit
  | some host =>
    match host.dropPrefix? "unix://" with
    | some socket =>
      if s.listens socket.toString then .ok () else .error (.connection .unusable)
    | none => .error (.invalidConfig s!"unsupported Docker host {host}, expected unix://<socket>")
  | none => if s.usual then .ok () else .error (.connection .unusable)

/-- Finds the daemon and checks that it answers. -/
def connect (s : Surroundings) (host : Option String) (d : Daemon) : Except Failure Unit × Daemon :=
  match locate s host with
  | .error e => (.error e, d)
  | .ok () =>
    let (reply, d) := d.ask .ping { method := .get, path := "/_ping" }
    (match reply.payload with
      | .ok _ => .ok ()
      | .error fault => .error (.connection fault), d)

end DevMachine.Container

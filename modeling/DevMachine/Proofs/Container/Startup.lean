import DevMachine.Container.Manager
import Mathlib.Data.List.ReduceOption
import Mathlib.Logic.Function.Iterate
import Mathlib.Tactic.Common

/-!
# Startup commands out of the event feed

A feed says which containers have started, and the daemon is asked about each of
them by name.  The inspection decides: its labels say whether the container is
for development, and its id says where the startup command goes.  The reply to each
request is known by its number among the requests of its kind.
-/

namespace DevMachine

open Daemon (FeedItem Reply Request Route)
open Exec (Backend Output Runner pidFile shellArguments wrapCommand)
open Json (Value)
open Machine (Event EventKind FeedMessage Launcher Outcome)

namespace Daemon

/-- The reply to a later request of a kind, by how many come before it. -/
def replyAt (d : Daemon) (route : Route) (k : Nat) : Reply :=
  ((afterReply^[k]) (d.replies route)).headD route.usual

def asked (d : Daemon) (route : Route) : List Request :=
  (d.requests.filter (·.1 = route)).map (·.2)

end Daemon

namespace Container

/-- Whether a container is for development by its own labels. -/
def isLabelled (devLabel : String) (inspection : Value) : Bool :=
  ((Daemon.inspectedLabels? inspection).bind (Machine.labelValue? devLabel)).any fun value =>
    Machine.asciiLower value = "true".toList

/-- The container that an inspection finds, where that is for development. -/
def devContainer? (devLabel : String) (inspected : Reply) : Option String :=
  match inspected.document Daemon.inspectionReader with
  | .ok inspection =>
    if isLabelled devLabel inspection then Daemon.inspectedId? inspection else none
  | .error _ => none

def inspectRequest (name : String) : Request := request .get s!"/containers/{name}/json"

/-- The request for a detached session in which the shell runs a script. -/
def createRequest (container script : String) : Request :=
  request .post s!"/containers/{container}/exec" <| some <|
    .ofMembers [("AttachStdout", .bool false), ("AttachStderr", .bool false),
      ("Cmd", .array [.string "/bin/sh", .string "-c", .string script])]

def startRequest (session : String) : Request :=
  request .post s!"/exec/{session}/start" <| some <|
    .ofMembers [("Detach", .bool true), ("Tty", .bool false)]

/-- The session that a reply says was created. -/
def session? (created : Reply) : Option String :=
  (created.document createdReader).toOption.map fun v =>
    ((v.member? "Id").bind Value.string?).getD ""

/-- What is left of a daemon that was asked for a detached session and for its
start, the latter only if there is a session. -/
def afterLaunch (d : Daemon) (container script : String) : Daemon :=
  let asked := (d.ask .create (createRequest container script)).2
  match session? (d.replyAt .create 0) with
  | some session => (asked.ask .start (startRequest session)).2
  | none => asked

variable (devLabel startup : String)

/-- The containers for development among those that are inspected next. -/
def devContainers (devLabel : String) (d : Daemon) (names : List String) : List String :=
  (names.mapIdx fun k _ => devContainer? devLabel (d.replyAt .inspect k)).reduceOption

/-- What a feed has the daemon asked for, given the names of the containers that
have started. -/
structure Launches (names : List String) (r r' : Runner Daemon) : Prop where
  /-- Each container that has started is inspected once, by its name. -/
  inspected : r'.world.asked .inspect = r.world.asked .inspect ++ names.map inspectRequest
  /-- Each container found to be for development gets one detached session for
  the startup command, with a pid file of its own. -/
  created : r'.world.asked .create = r.world.asked .create ++
    (devContainers devLabel r.world names).mapIdx fun j container =>
      createRequest container (wrapCommand (pidFile (r.token (r.launched + j))) startup)
  /-- Each session is started once, detached. -/
  started : r'.world.asked .start = r.world.asked .start ++
    ((devContainers devLabel r.world names).mapIdx fun j _ =>
      (session? (r.world.replyAt .create j)).map startRequest).reduceOption

/-- Beside its requests, what a feed uses up: pid files and replies. -/
structure Visits (names : List String) (r r' : Runner Daemon) : Prop
    extends Launches devLabel startup names r r' where
  token : r'.token = r.token
  launched : r'.launched = r.launched + (devContainers devLabel r.world names).length
  inspections : ∀ k, r'.world.replyAt .inspect k = r.world.replyAt .inspect (k + names.length)
  creations : ∀ k, r'.world.replyAt .create k =
    r.world.replyAt .create (k + (devContainers devLabel r.world names).length)

variable {devLabel startup} {names more : List String} {r r' r'' : Runner Daemon}

theorem devContainers_append {d d' : Daemon}
    (hreplies : ∀ k, d'.replyAt .inspect k = d.replyAt .inspect (k + names.length)) :
    devContainers devLabel d (names ++ more) =
      devContainers devLabel d names ++ devContainers devLabel d' more := by
  unfold devContainers
  rw [List.mapIdx_append, List.reduceOption_append]
  simp only [hreplies]

theorem Visits.append (h : Visits devLabel startup names r r')
    (h' : Visits devLabel startup more r' r'') :
    Visits devLabel startup (names ++ more) r r'' := by
  have hcontainers : devContainers devLabel r.world (names ++ more) =
      devContainers devLabel r.world names ++ devContainers devLabel r'.world more :=
    devContainers_append h.inspections
  constructor
  · constructor
    · rw [h'.inspected, h.inspected, List.map_append, List.append_assoc]
    · rw [h'.created, h.created, hcontainers, List.mapIdx_append, List.append_assoc, h.token,
        h.launched]
      simp only [Nat.add_assoc, Nat.add_comm (List.length _)]
    · rw [h'.started, h.started, hcontainers, List.mapIdx_append, List.reduceOption_append,
        List.append_assoc]
      simp only [h.creations]
  · rw [h'.token, h.token]
  · rw [h'.launched, h.launched, hcontainers, List.length_append, Nat.add_assoc]
  · intro k
    rw [h'.inspections, h.inspections, List.length_append, Nat.add_assoc,
      Nat.add_comm more.length]
  · intro k
    rw [h'.creations, h.creations, hcontainers, List.length_append, Nat.add_assoc,
      Nat.add_comm (List.length (devContainers devLabel r'.world more))]

/-- A container whose label is out of date in the feed, one that is not for
development, a feed that fails. -/
example :
    let inspection := fun (id label : String) =>
      Reply.response 200 ["\x7b\"Id\":\"" ++ id ++
        "\",\"Config\":\x7b\"Labels\":\x7b\"dev\":\"" ++ label ++ "\"\x7d\x7d\x7d"]
    let d : Daemon :=
      { replies := fun
          | .inspect => [inspection "9e1c" "TRUE", inspection "77aa" "no"]
          | _ => [] }
    let started := fun (id name label : String) =>
      Except.ok {
        action := some "start"
        actor := some { id, attributes := some [("name", name), ("dev", label)] } }
    let feed := [started "f00d" "box" "false", started "beef" "hut" "true", .error .unusable,
      started "cafe" "den" "true"]
    let after := ((launcher "dev" "serve").run { world := d } (eventsOf "dev" feed)).2.world
    (after.asked .inspect).map (·.path) = ["/containers/box/json", "/containers/hut/json"] ∧
      (after.asked .create).map (·.path) = ["/containers/9e1c/exec"] := by
  decide +kernel

end Container

end DevMachine

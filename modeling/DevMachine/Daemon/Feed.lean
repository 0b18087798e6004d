import DevMachine.Container.Failure
import DevMachine.Json.Document
import DevMachine.Machine.Event

/-!
# The event feed of the daemon

The feed is a stream of JSON objects, one a line, that arrives in chunks.  Each
time a chunk has arrived, objects are taken from the front for as long as there
are complete ones.  A line that ends too early is put together with the next
one, without the line end between them, and tried again when more has arrived
or the stream has ended; so is a line that says `null`.  An object of another
form is a fault, and nothing comes after it.
-/

namespace DevMachine.Daemon

open Container (DaemonFault)
open Json (Field Reader Value Fault)
open Machine (Actor FeedMessage Labels)

/-- What comes out of a feed: a message, or a fault of the feed itself. -/
abbrev FeedItem := Except DaemonFault FeedMessage

/-- The kinds of things that events are about. -/
def eventTypes : List String :=
  ["", "builder", "config", "container", "daemon", "image", "network", "node", "plugin", "secret",
    "service", "volume"]

def actorReader : Reader Value :=
  Json.recordOf [
    Json.optionalField "ID" Json.textValue,
    Json.optionalField "Attributes" (Json.mapOf Json.textValue)]

def eventReader : Reader Value :=
  Json.recordOf [
    Json.optionalField "Type" (Json.nameAmong eventTypes),
    Json.optionalField "Action" Json.textValue,
    Json.optionalField "Actor" actorReader,
    Json.optionalField "scope" (Json.nameAmong ["", "local", "swarm"]),
    Json.optionalField "time" Json.integerValue,
    Json.optionalField "timeNano" Json.integerValue]

/-- The texts of an object. -/
def labelsOf : Value → Option Labels
  | .object members => some (members.filterMap fun m => m.2.string?.map (m.1, ·))
  | _ => none

def actorOf : Value → Option Actor
  | .object members =>
    some {
      id := (Json.findMember? "ID" members).bind Value.string?
      attributes := (Json.findMember? "Attributes" members).bind labelsOf }
  | _ => none

def feedMessageOf (v : Value) : FeedMessage :=
  { action := (v.member? "Action").bind Value.string?
    actor := (v.member? "Actor").bind actorOf }

/-- What is at the front of the characters that have arrived. -/
inductive Front
  | message (m : FeedMessage) (rest : List Char)
  | incomplete (rest : List Char)
  | broken

def front (arrived : List Char) : Front :=
  let line := arrived.takeWhile (· ≠ '\n')
  let rest := arrived.drop (line.length + 1)
  match Json.readDocument (Json.nullable eventReader) (String.ofList line) with
  | .ok .null => .incomplete (line ++ rest)
  | .ok v => .message (feedMessageOf v) rest
  | .error .ended => .incomplete (line ++ rest)
  | .error _ => .broken

/-- Takes items for as long as there are complete messages.  What is left is
missing when the feed has broken. -/
def takeItems : (fuel : Nat) → List Char → List FeedItem × Option (List Char)
  | 0, arrived => ([], some arrived)
  | fuel + 1, arrived =>
    match front arrived with
    | .message m rest =>
      let (more, left) := takeItems fuel rest
      (.ok m :: more, left)
    | .incomplete rest => ([], some rest)
    | .broken => ([.error .unusable], none)

/-- The items of a stream.  Each message takes at least one character. -/
def itemsFrom (arrived : List Char) : List String → List FeedItem
  | [] => (takeItems (arrived.length + 1) arrived).1
  | chunk :: chunks =>
    let arrived := arrived ++ chunk.toList
    match takeItems (arrived.length + 1) arrived with
    | (items, some left) => items ++ itemsFrom left chunks
    | (items, none) => items

/-- The items of a feed that arrives in chunks. -/
def feedItems (chunks : List String) : List FeedItem :=
  itemsFrom [] (chunks.filter (· ≠ ""))

end DevMachine.Daemon

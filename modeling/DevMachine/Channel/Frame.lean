import DevMachine.Json.Printer
import DevMachine.Json.Reader

/-!
# Wire frames

The endpoint and its clients exchange frames as JSON texts.  A client
subscribes to channels, gives them up and sends heartbeats; the endpoint sends
events with an opaque body, errors and answers to heartbeats.

A frame is written as an object whose first member is its kind.  It is read
from an object with the kind and each field exactly once, in any order and
among members of other names, or from an array of the kind and the fields in
their order.
-/

namespace DevMachine.Channel

open Json

inductive Frame
  | subscribe (channel : String) (timestamp : Int64)
  | unsubscribe (channel : String) (timestamp : Int64)
  | heartbeat (timestamp : Int64)
  | event (channel : String) (body : Value)
  | error (channel : Option String) (message : String)
  | heartbeatResponse (timestamp : Int64)

namespace Frame

/-- The name of the kind of a frame on the wire. -/
def kind : Frame → String
  | .subscribe .. => "subscribe"
  | .unsubscribe .. => "unsubscribe"
  | .heartbeat _ => "heartbeat"
  | .event .. => "event"
  | .error .. => "error"
  | .heartbeatResponse _ => "heartbeat_response"

def timestampValue (t : Int64) : Value := .ofInt t.toInt

/-- The fields of a frame in the order they are written in.  An error of no
channel is written without one. -/
def fields : Frame → List Member
  | .subscribe channel t | .unsubscribe channel t =>
    [("channel", .string channel), ("timestamp", timestampValue t)]
  | .heartbeat t | .heartbeatResponse t => [("timestamp", timestampValue t)]
  | .event channel body => [("channel", .string channel), ("body", body)]
  | .error (some channel) message =>
    [("channel", .string channel), ("error", .string message)]
  | .error none message => [("error", .string message)]

/-- The text of a frame on the wire. -/
def render (f : Frame) : String :=
  String.ofList ('\x7b' :: membersChars (("type", .string f.kind) :: f.fields))

/-- A timestamp is an integer of 64 bits with a sign. -/
def timestamp? (v : Value) : Option Int64 :=
  match v.int? with
  | some n => if n < signedLimit then some (Int64.ofInt n) else none
  | none => none

def optionalChannel? : Value → Option (Option String)
  | .null => some none
  | .string c => some (some c)
  | _ => none

/-- All values given for a key. -/
def valuesOf (key : String) (members : List Member) : List Value :=
  (members.filter (·.1 = key)).map (·.2)

/-- The value of a key that is given exactly once. -/
def single? (key : String) (members : List Member) : Option Value :=
  match valuesOf key members with
  | [v] => some v
  | _ => none

/-- A frame of the named kind from its fields in their order. -/
def ofFields : (kind : String) → List Value → Option Frame
  | "subscribe", [.string c, t] => (timestamp? t).map (.subscribe c)
  | "unsubscribe", [.string c, t] => (timestamp? t).map (.unsubscribe c)
  | "heartbeat", [t] => (timestamp? t).map .heartbeat
  | "event", [.string c, body] => some (.event c body)
  | "error", [c, .string message] => (optionalChannel? c).map (.error · message)
  | "heartbeat_response", [t] => (timestamp? t).map .heartbeatResponse
  | _, _ => none

/-- The channel of an error object, `null` where it is left out. -/
def errorChannel? (members : List Member) : Option Value :=
  match valuesOf "channel" members with
  | [] => some .null
  | [v] => some v
  | _ => none

/-- The fields of a kind, found among the members of an object. -/
def fieldsAmong (kind : String) (members : List Member) : Option (List Value) :=
  if kind = "subscribe" ∨ kind = "unsubscribe" then
    return [← single? "channel" members, ← single? "timestamp" members]
  else if kind = "heartbeat" ∨ kind = "heartbeat_response" then
    return [← single? "timestamp" members]
  else if kind = "event" then
    return [← single? "channel" members, ← single? "body" members]
  else if kind = "error" then
    return [← errorChannel? members, ← single? "error" members]
  else none

def ofMembers (members : List Member) : Option Frame := do
  let .string kind ← single? "type" members | none
  ofFields kind (← fieldsAmong kind members)

def ofNode : Node → Option Frame
  | .members ms => ofMembers ms
  | .items (.string kind :: fields) => ofFields kind fields
  | _ => none

/-- The frame of a text. -/
def parse (text : String) : Option Frame := (readNode text).bind ofNode

end Frame

end DevMachine.Channel

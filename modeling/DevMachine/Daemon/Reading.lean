import DevMachine.Container.Failure
import DevMachine.Daemon.Exchange
import DevMachine.Json.Document

/-!
# Reading replies of the daemon

A reply counts as a success by its status.  Any other status is a fault with
the text that the daemon gave: the `message` of its body, the body itself when
it is of another form, and no text for an empty body.  A body that is no JSON
makes the reply unusable whatever its status, and so does a success whose body
is not the document that was asked for.
-/

namespace DevMachine.Daemon

open Container (DaemonFault)
open Json (Field Reader Value Fault readDocument recordOf textValue)
open Text (Octets)

/-- What a successful reply carries. -/
inductive Payload
  | body (chunks : List String)
  | raw (output : Octets)
  deriving DecidableEq, Repr

def Payload.chunks : Payload → List String
  | .body chunks => chunks
  | .raw _ => []

/-- The whole body. -/
def Payload.text (p : Payload) : String := String.join p.chunks

def isSuccess (status : Nat) : Bool := (200 ≤ status && status < 300) || status = 304

/-- The status of a connection that is handed over. -/
def switching : Nat := 101

def faultReader : Reader Value :=
  recordOf [{ name := "message", reader := textValue, required := true }]

/-- The text of a fault with the given body, if it has a usable one. -/
def faultText? (body : String) : Option String :=
  if body = "" then some ""
  else
    match readDocument faultReader body with
    | .ok v => some (((v.member? "message").bind Value.string?).getD "")
    | .error .mismatched => some body
    | .error _ => none

def faultOf (status : Nat) (body : String) : DaemonFault :=
  match faultText? body with
  | some text => .status status text
  | none => .unusable

def Reply.payload : Reply → Except DaemonFault Payload
  | .upgraded output => .ok (.raw output)
  | .response status chunks =>
    if status = switching then .ok (.raw (Text.Utf8.encode (String.join chunks)))
    else if isSuccess status then .ok (.body chunks)
    else .error (faultOf status (String.join chunks))
  | .hangup => .error .unusable

/-- The document that a reply carries. -/
def Reply.document (reader : Reader Value) (r : Reply) : Except DaemonFault Value := do
  let p ← r.payload
  match readDocument reader p.text with
  | .ok v => return v
  | .error _ => throw .unusable

end DevMachine.Daemon

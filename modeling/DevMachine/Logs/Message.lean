import DevMachine.Json.Printer
import DevMachine.Json.Reader

/-!
# Numbered log messages

A log payload is a JSON object with the number of the line in its stream and
the text of the line.  Decoding is lenient about the number, which is 0 when
it is missing or no integer of 64 bits, and about the kind of the line; it
insists on an object that has a line.
-/

namespace DevMachine.Logs

open Json

/-- One line of remote output and its number in the stream. -/
structure Message where
  number : UInt64
  text : String
  deriving DecidableEq, Repr

/-- Why a payload is no log message. -/
inductive Refusal
  | notJson
  | notAnObject
  | noLine
  deriving DecidableEq, Repr

def Refusal.message : Refusal → String
  | .notJson => "Malformed log payload"
  | .notAnObject => "Log payload is not a JSON object"
  | .noLine => "Log payload has no 'line' key"

/-- The text of a line: a string stands for itself, `null` for the empty text,
anything else for its compact rendering. -/
def lineText : Value → String
  | .string s => s
  | .null => ""
  | other => other.render

/-- The number of a message, 0 where the payload gives none that fits. -/
def lineNumber (members : List Member) : UInt64 :=
  ((findMember? "num" members).bind Value.uint64?).getD 0

def Message.ofValue : Value → Except Refusal Message
  | .object members =>
    match findMember? "line" members with
    | some line => .ok { number := lineNumber members, text := lineText line }
    | none => .error .noLine
  | _ => .error .notAnObject

/-- The message of a payload that is still text. -/
def Message.parse (payload : String) : Except Refusal Message :=
  match read payload with
  | some v => Message.ofValue v
  | none => .error .notJson

end DevMachine.Logs

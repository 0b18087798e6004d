import DevMachine.Channel.Bus
import DevMachine.Logs.Reassembly

/-!
# Ordered log streams

A stream reads the items of one subscription and prints the lines of the
decodable ones in the order of their numbers.  Each decodable message moves
the flush deadline to one timeout after it; when the deadline comes, the lines
that still wait are printed and the missing ones given up.  A stopped stream counts
what has arrived as delivered, up to the first failure, which it passes over.
-/

namespace DevMachine.Logs

open Channel (Failure Item)
open Json (Value)

/-- The pause after which missing lines are given up, in milliseconds. -/
def flushTimeout : Nat := 5000

/-- How a stream came to its end. -/
inductive Ending
  | finished
  | failed (failure : Failure)
  | broken
  | aborted
  deriving DecidableEq, Repr

/-- The words that a failure of the transport is reported in.  What the runtime says of a task
that broke or was aborted is its own. -/
def Ending.message? : Ending → Option String
  | .failed failure => some s!"Log stream transport failed: {failure.message}"
  | _ => none

structure Stream where
  timeout : Nat := flushTimeout
  reassembly : Reassembly := {}
  deadline : Option Nat := none
  deriving DecidableEq, Repr

/-- What a turn did: the messages it printed, the stream after it, and how the
stream ended, if it did.  `releases` says whether it gave its channel up. -/
structure Turn where
  printed : List Message := []
  stream : Stream
  ending : Option Ending := none
  releases : Bool := false
  deriving DecidableEq, Repr

namespace Stream

/-- Takes in the body of an event.  One that holds no log message changes
nothing. -/
def take (now : Nat) (s : Stream) (body : Value) : List Message × Stream :=
  match Message.ofValue body with
  | .error _ => ([], s)
  | .ok m =>
    let (printed, reassembly) := s.reassembly.accept m
    (printed, { s with reassembly, deadline := some (now + s.timeout) })

/-- Takes in items up to the first failure. -/
def takeAll (now : Nat) (s : Stream) : List Item → List Message × Stream × Option Failure
  | [] => ([], s, none)
  | .error e :: _ => ([], s, some e)
  | .ok body :: rest =>
    let (printed, s) := s.take now body
    let (more, s, failure) := takeAll now s rest
    (printed ++ more, s, failure)

/-- Prints everything that waits. -/
def flush (s : Stream) : List Message × Stream :=
  let (printed, reassembly) := s.reassembly.flush
  (printed, { s with reassembly, deadline := none })

def isDue (now : Nat) (s : Stream) : Bool :=
  match s.deadline with
  | some t => t ≤ now
  | none => false

/-- The turn of a stream that was asked to stop. -/
def stopTurn (now : Nat) (s : Stream) (items : List Item) : Turn :=
  let (printed, s, _) := s.takeAll now items
  let (flushed, s) := s.flush
  { printed := printed ++ flushed, stream := s, ending := some .finished, releases := true }

/-- The turn of a stream whose source may have ended behind the items. -/
def turn (now : Nat) (s : Stream) (items : List Item) (sourceEnded : Bool) : Turn :=
  match s.takeAll now items with
  | (printed, s, some e) =>
    { printed, stream := s, ending := some (.failed e), releases := true }
  | (printed, s, none) =>
    if sourceEnded then
      let (flushed, s) := s.flush
      { printed := printed ++ flushed, stream := s, ending := some .finished }
    else if s.isDue now then
      let (flushed, s) := s.flush
      { printed := printed ++ flushed, stream := s }
    else { printed, stream := s }

end Stream

end DevMachine.Logs

import DevMachine.Logs.Message

/-!
# Reassembly of numbered lines

Messages arrive in any order, some never and some twice.  The next number in
turn is printed at once together with everything buffered directly behind it;
a higher number waits in the buffer, in ascending order; a number at or below the
last one printed is stale.  A flush prints all that waits.
-/

namespace DevMachine.Logs

/-- The messages that wait and the highest number printed so far. -/
structure Reassembly where
  lastPrinted : UInt64 := 0
  pending : List Message := []
  deriving DecidableEq, Repr

namespace Reassembly

/-- The number whose turn it is; there is none after the highest one. -/
def nextExpected (last : UInt64) : Option UInt64 :=
  if last.toNat + 1 < UInt64.size then some (last + 1) else none

/-- Puts a message into the buffer in place of an earlier one of its number. -/
def buffer (m : Message) : List Message → List Message
  | [] => [m]
  | p :: rest =>
    if m.number < p.number then m :: p :: rest
    else if m.number = p.number then m :: rest
    else p :: buffer m rest

/-- Prints from the front of the buffer for as long as the turn of its first
message has come. -/
def drain (last : UInt64) : List Message → List Message × Reassembly
  | [] => ([], { lastPrinted := last, pending := [] })
  | p :: rest =>
    if nextExpected last = some p.number then
      let (printed, after) := drain p.number rest
      (p :: printed, after)
    else ([], { lastPrinted := last, pending := p :: rest })

/-- Takes in a message and gives the messages printed by it, in order. -/
def accept (s : Reassembly) (m : Message) : List Message × Reassembly :=
  if nextExpected s.lastPrinted = some m.number then
    let (printed, after) := drain m.number s.pending
    (m :: printed, after)
  else if s.lastPrinted < m.number then drain s.lastPrinted (buffer m s.pending)
  else drain s.lastPrinted s.pending

/-- Prints everything that waits, in ascending order, skipping gaps. -/
def flush (s : Reassembly) : List Message × Reassembly :=
  (s.pending, { lastPrinted := (s.pending.getLast?.map Message.number).getD s.lastPrinted })

end Reassembly

end DevMachine.Logs

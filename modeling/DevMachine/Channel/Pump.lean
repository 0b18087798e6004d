import DevMachine.Channel.Bus
import DevMachine.Text.Utf8

/-!
# The pump of a link

A link is one socket, and the pump carries everything over it.  Which of its branches
comes next when several are possible is not fixed; a branch names the choice.  The pump
ends when the endpoint closes the link or when the socket fails, and the subscriptions
end with it.
-/

namespace DevMachine.Channel

open Text (Octets)

/-- The time between heartbeats, in milliseconds. -/
def heartbeatInterval : Nat := 30000

/-- What arrives on the socket: a text, something else that carries no frame,
the endpoint's farewell, or a failure of the socket. -/
inductive Arrival
  | text (text : String)
  | other
  | close
  | failure (message : String)
  deriving DecidableEq, Repr

/-- What the pump does next.  Writing to the socket may fail. -/
inductive Branch
  | outbound (writeFailure : Option String)
  | heartbeat (writeFailure : Option String)
  | inbound
  deriving DecidableEq, Repr

/-- How a link ended. -/
inductive LinkEnd
  | graceful
  | failed (cause : Failure)
  deriving DecidableEq, Repr

/-- What has arrived and not been handled yet, how many frames were taken off
the queue of the bus, what was written, and how the link ended. -/
structure Pump where
  arrivals : List Arrival := []
  taken : Nat := 0
  written : List Frame := []
  ending : Option LinkEnd := none

namespace Pump

/-- The bus of a link that has ended. -/
def busAtEnd (b : Bus) : LinkEnd → Bus
  | .graceful => b.clear.closeOutbound
  | .failed cause => (b.failAll cause).closeOutbound

def finish (b : Bus) (p : Pump) (ending : LinkEnd) : Bus × Pump :=
  (busAtEnd b ending, { p with ending := some ending })

/-- Writes a frame to the socket. -/
def write (b : Bus) (p : Pump) (frame : Frame) : (writeFailure : Option String) → Bus × Pump
  | none => (b, { p with written := p.written ++ [frame] })
  | some message => finish b p (.failed (.protocol message))

/-- Handles something that has arrived. -/
def handle (b : Bus) (p : Pump) : Arrival → Bus × Pump
  | .text text =>
    match Frame.parse text with
    | some frame => (b.dispatch frame, p)
    | none => (b, p)
  | .other => (b, p)
  | .close => finish b p .graceful
  | .failure message => finish b p (.failed (.protocol message))

/-- Takes a branch; one that is not ready changes nothing, and neither does
any after the end. -/
def step (b : Bus) (p : Pump) (branch : Branch) : Bus × Pump :=
  if p.ending.isSome then (b, p)
  else
    match branch with
    | .outbound writeFailure =>
      match b.outbound[p.taken]? with
      | some frame => write b { p with taken := p.taken + 1 } frame writeFailure
      | none => (b, p)
    | .heartbeat writeFailure => write b p (.heartbeat b.stamp) writeFailure
    | .inbound =>
      match p.arrivals with
      | [] => (b, p)
      | arrival :: rest => handle b { p with arrivals := rest } arrival

end Pump

/-! ## Raw octets -/

/-- Whether some octets are one unmasked close frame: without a content, or
with a code of two octets and a text. -/
def isCloseFrame : Octets → Bool
  | [0x88, 0] => true
  | 0x88 :: size :: _ :: _ :: reason =>
    size < 126 && size.toNat = reason.length + 2 && (Text.Utf8.decode? reason).isSome
  | _ => false

/-- What raw octets of the endpoint amount to. -/
def Arrival.ofOctets (octets : Octets) : Arrival :=
  if isCloseFrame octets then .close else .failure "invalid frame"

end DevMachine.Channel

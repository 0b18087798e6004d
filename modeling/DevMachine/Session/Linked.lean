import DevMachine.Channel.Pump
import DevMachine.Session.Step

/-!
# Sessions over a link

A session whose bus belongs to an open link.  After everything that happens,
what is queued is written, what has arrived is handled, the streams settle, and
what they queued is written as well.
-/

namespace DevMachine.Session

open Channel (Arrival Branch Pump)

structure Linked where
  session : Session := {}
  pump : Pump := {}

namespace Linked

/-- Lets the pump take a branch. -/
def branch (l : Linked) (b : Branch) : Linked :=
  let (bus, pump) := l.pump.step l.session.bus b
  { session := l.session.useBus bus, pump }

/-- Writes all frames that are queued. -/
def writeAll (l : Linked) : Linked :=
  Nat.repeat (·.branch (.outbound none)) (l.session.bus.outbound.length - l.pump.taken) l

/-- Handles all that has arrived. -/
def readAll (l : Linked) : Linked := Nat.repeat (·.branch .inbound) l.pump.arrivals.length l

def settle (l : Linked) : Linked := { l with session := l.session.settle }

/-- Lets everything run until nothing can. -/
def exchange (l : Linked) : Linked := l.writeAll.readAll.settle.writeAll

/-- Something arrives on the socket. -/
def arrive (l : Linked) (a : Arrival) : Linked :=
  { l with pump := { l.pump with arrivals := l.pump.arrivals ++ [a] } }

/-- The heartbeats that fall into a time span after the session's clock. -/
def heartbeatsWithin (l : Linked) (duration : Nat) : Nat :=
  (l.session.clock + duration) / Channel.heartbeatInterval -
    l.session.clock / Channel.heartbeatInterval

/-- Lets time pass, with a heartbeat at the end of each interval. -/
def pass (l : Linked) (duration : Nat) : Linked :=
  let beaten := Nat.repeat (·.branch (.heartbeat none)) (l.heartbeatsWithin duration) l
  { beaten with session := beaten.session.sleep duration }

/-- A step of the session. -/
def perform (l : Linked) (step : Step) : Reply × Linked :=
  let (reply, session) := l.session.perform step
  (reply, { l with session })

end Linked

end DevMachine.Session

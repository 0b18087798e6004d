import DevMachine.Session.Manager

/-!
# Runs of a session

Everything that can happen to a session from outside is a step.  After a step
the session settles, unless the step is queued behind the next one.
-/

namespace DevMachine.Session

open Channel (Failure Frame Reading)
open Logs (Ending)

inductive Step
  | subscribe (channel : String)
  | next (subscription : Nat)
  | unsubscribe (subscription : Nat)
  | drop (subscription : Nat)
  | dispatch (frame : Frame)
  | send (frame : Frame)
  | failAll (failure : Failure)
  | clear
  | closeOutbound
  | spawn (channel : String) (timeout : Nat) (breaksOn : Option String)
  | adopt (subscription : Nat) (timeout : Nat) (breaksOn : Option String)
  | stop (stream : Nat)
  | abort (stream : Nat)
  | abandon (stream : Nat)
  | startStreaming (channel : String) (breaksOn : Option String)
  | stopStreaming (channel : String)
  | stopAll
  | dropManager
  | dropSink (sink : Nat)
  | sleep (duration : Nat)
  | settle

/-- What a step answers. -/
inductive Reply
  | done
  | failed (failure : Failure)
  | reading (reading : Reading)
  | subscribed (subscription : Nat)
  | spawned (stream sink : Nat)
  | streaming (sink : Nat) (result : Except Failure Unit)
  | ended (ending : Ending)

def Reply.ofSent : Except Failure Unit → Reply
  | .ok () => .done
  | .error e => .failed e

/-- Starts a stream on a subscription, into a sink of its own. -/
def adopt (s : Session) (subscription timeout : Nat) (breaksOn : Option String) : Reply × Session :=
  let (sink, s) := s.openSink breaksOn
  let (stream, s) := s.spawn subscription sink timeout
  (.spawned stream sink, s)

/-- The effect of a step before the session settles. -/
def perform (s : Session) : Step → Reply × Session
  | .subscribe channel =>
    match s.bus.subscribe channel with
    | (.error e, b) => (.failed e, s.useBus b)
    | (.ok id, b) => (.subscribed id, s.useBus b)
  | .next id =>
    let (reading, b) := s.bus.next id
    (.reading reading, s.useBus b)
  | .unsubscribe id => (.done, s.useBus (s.bus.unsubscribe id))
  | .drop id => (.done, s.useBus (s.bus.drop id))
  | .dispatch frame => (.done, s.useBus (s.bus.dispatch frame))
  | .send frame =>
    let (result, b) := s.bus.send frame
    (.ofSent result, s.useBus b)
  | .failAll failure => (.done, s.useBus (s.bus.failAll failure))
  | .clear => (.done, s.useBus s.bus.clear)
  | .closeOutbound => (.done, s.useBus s.bus.closeOutbound)
  | .spawn channel timeout breaksOn =>
    match s.bus.subscribe channel with
    | (.error e, b) => (.failed e, s.useBus b)
    | (.ok id, b) => (s.useBus b).adopt id timeout breaksOn
  | .adopt id timeout breaksOn => s.adopt id timeout breaksOn
  | .stop stream =>
    let (ending, s) := s.stop stream
    (.ended (ending.getD .finished), s)
  | .abort stream => (.done, s.signal stream .abort)
  | .abandon stream => (.done, s.signal stream .stop)
  | .startStreaming channel breaksOn =>
    let (sink, s) := s.openSink breaksOn
    let (result, s) := s.startStreaming channel sink
    (.streaming sink result, s)
  | .stopStreaming channel =>
    let (ending, s) := s.stopStreaming channel
    (.ended ending, s)
  | .stopAll => (.done, s.stopAll)
  | .dropManager => (.done, s.dropManager)
  | .dropSink sink =>
    (.done, { s with sinks := s.sinks.modify sink fun k => { k with discards := true } })
  | .sleep duration => (.done, s.sleep duration)
  | .settle => (.done, s.settle)

/-- One step, after which the session settles unless the step is queued. -/
def step (s : Session) (queued : Bool) (step : Step) : Reply × Session :=
  let (reply, s) := s.perform step
  (reply, if queued then s else s.settle)

/-- The session after some steps, each of which may be queued. -/
def run (s : Session) (steps : List (Bool × Step)) : Session :=
  steps.foldl (fun s entry => (s.step entry.1 entry.2).2) s

end DevMachine.Session

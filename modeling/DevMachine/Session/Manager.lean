import DevMachine.Session.Basic

/-!
# Managed streams

The manager of a session keeps at most one stream per channel.  Starting a
channel again stops the earlier stream first; how that one ended is of no
consequence.  A stream that ended by itself stays listed until its channel is
stopped or started again, but does not count as streaming.
-/

namespace DevMachine.Session

open Channel (Failure)
open Logs (Ending)

def managed? (s : Session) (channel : String) : Option Nat :=
  (s.managed.find? (·.1 = channel)).map (·.2)

def unmanage (s : Session) (channel : String) : Session :=
  { s with managed := s.managed.filter (·.1 ≠ channel) }

/-- Stops the stream of a channel.  Without one there is nothing to stop. -/
def stopStreaming (s : Session) (channel : String) : Ending × Session :=
  match s.managed? channel with
  | some i =>
    let (ending, s) := (s.unmanage channel).stop i
    (ending.getD .finished, s)
  | none => (.finished, s)

/-- Starts a stream of a channel into a sink, in place of an earlier one. -/
def startStreaming (s : Session) (channel : String) (sink : Nat) : Except Failure Unit × Session :=
  let (_, s) := s.stopStreaming channel
  match s.bus.subscribe channel with
  | (.error e, b) => (.error e, s.useBus b)
  | (.ok subscription, b) =>
    let (i, s) := (s.useBus b).spawn subscription sink Logs.flushTimeout
    (.ok (), { s with managed := (channel, i) :: s.managed })

/-- The channels with a listed stream, in ascending order. -/
def active (s : Session) : List String := (s.managed.map (·.1)).mergeSort (· ≤ ·)

/-- Whether a channel has a listed stream that has not ended. -/
def isStreaming (s : Session) (channel : String) : Bool :=
  match s.managed? channel with
  | some i => (s.ending? i).isNone
  | none => false

/-- Stops the streams of some channels, one after the other. -/
def stopEach (s : Session) (channels : List String) : Session :=
  channels.foldl (fun s channel => (s.stopStreaming channel).2) s

def stopAll (s : Session) : Session := s.stopEach s.active

/-- Takes all streams down without flushing them. -/
def dropManager (s : Session) : Session :=
  s.managed.foldl (fun s entry => s.signal entry.2 .abort) { s with managed := [] }

end DevMachine.Session

import DevMachine.Channel.Bus
import DevMachine.Logs.Sink
import DevMachine.Logs.Stream

/-!
# Sessions

A session is one bus with the log streams that read from it, on a clock that
moves only when it is told to.  Settling gives every stream that has something new to
look at its turn, in the order in which they became ready, and then every stream whose
flush deadline has come, the earliest deadline first.
-/

namespace DevMachine

open Channel (Bus Frame Item)
open Logs (Ending Sink Stream Turn)

namespace Session

/-- What the owner of a stream may ask of it. -/
inductive Signal
  | stop
  | abort
  deriving DecidableEq, Repr

/-- A stream at work: the subscription it reads, the sink it writes to, what it
was asked to do and how it ended. -/
structure Task where
  subscription : Nat
  sink : Nat
  stream : Stream
  signal : Option Signal := none
  ending : Option Ending := none
  deriving DecidableEq, Repr

def Task.isDue (now : Nat) (t : Task) : Bool := t.ending.isNone && t.stream.isDue now

/-- The next turn of a task, before its sink had a say. -/
def Task.turn (t : Task) (now : Nat) (b : Bus) : Turn :=
  let items := ((b.mailboxes[t.subscription]?).map (·.items)).getD []
  match t.signal with
  | some .abort => { stream := t.stream, ending := some .aborted }
  | some .stop => t.stream.stopTurn now items
  | none => t.stream.turn now items !(b.owns t.subscription)

end Session

/-- The streams that the manager of a session started are listed with their
channels; tasks and sinks are known by their numbers. -/
structure Session where
  bus : Bus := {}
  clock : Nat := 0
  tasks : List Session.Task := []
  sinks : List Sink := []
  ready : List Nat := []
  managed : List (String × Nat) := []

namespace Session

/-- The tasks that may have something to do once the bus has changed: their
mailbox got an item, or their channel was lost or gained. -/
def noticed (s : Session) (after : Bus) : List Nat :=
  (List.range s.tasks.length).filter fun i =>
    match s.tasks[i]? with
    | some t =>
      (s.bus.mailboxes[t.subscription]?.map (·.items.length)) !=
          (after.mailboxes[t.subscription]?.map (·.items.length)) ||
        s.bus.owns t.subscription != after.owns t.subscription
    | none => false

/-- Puts tasks at the end of the ready ones, each at most once. -/
def wake (s : Session) (woken : List Nat) : Session :=
  { s with ready := s.ready ++ woken.filter fun i => !s.ready.contains i }

/-- The session after its bus has changed. -/
def useBus (s : Session) (after : Bus) : Session :=
  { s.wake (s.noticed after) with bus := after }

def updateTask (s : Session) (i : Nat) (f : Task → Task) : Session :=
  { s with tasks := s.tasks.modify i f }

/-- Writes to a sink. -/
def write (s : Session) (sink : Nat) (lines : List String) : Session :=
  { s with sinks := s.sinks.modify sink (·.write lines) }

/-- The bus after a turn of the task.  A stream that goes on has read its
mailbox; one that ended has dropped it. -/
def busAfter (b : Bus) (t : Task) (turn : Turn) : Bus :=
  match turn.ending with
  | none => b.updateMailbox t.subscription fun box => { box with items := [] }
  | some _ =>
    (if turn.releases then b.unsubscribe t.subscription else b).drop t.subscription

/-- What is left of a turn when the sink breaks on one of its lines. -/
def broken (turn : Turn) : Turn := { turn with ending := some .broken, releases := false }

/-- Gives a task its turn, unless it has ended. -/
def poll (s : Session) (i : Nat) : Session :=
  match s.tasks[i]? with
  | some t =>
    if t.ending.isSome then s
    else
      let turn := t.turn s.clock s.bus
      let lines := turn.printed.map (·.text)
      let breaks := ((s.sinks[t.sink]?).map (·.breaksWithin lines)).getD false
      let turn := if breaks then broken turn else turn
      let s := s.write t.sink lines
      { s.updateTask i fun t => { t with stream := turn.stream, ending := turn.ending } with
        bus := busAfter s.bus t turn }
  | none => s

/-- The flush deadline of a task, 0 where there is none. -/
def deadlineOf (s : Session) (i : Nat) : Nat :=
  ((s.tasks[i]?).bind (·.stream.deadline)).getD 0

/-- Puts a task among others that stand in the order of their deadlines, in
front of those with the same one. -/
def insertDue (s : Session) (i : Nat) : List Nat → List Nat
  | [] => [i]
  | j :: rest => if s.deadlineOf i ≤ s.deadlineOf j then i :: j :: rest else j :: s.insertDue i rest

/-- The tasks whose flush deadline has come, in the order of their deadlines. -/
def due (s : Session) : List Nat :=
  ((List.range s.tasks.length).filter fun i =>
    ((s.tasks[i]?).map (·.isDue s.clock)).getD false).foldr s.insertDue []

/-- Lets everything run until nothing can. -/
def settle (s : Session) : Session :=
  (s.ready ++ s.due).foldl poll { s with ready := [] }

/-- Lets time pass. -/
def sleep (s : Session) (duration : Nat) : Session :=
  let s := s.settle
  let later : Session := { s with clock := s.clock + duration }
  later.settle

def openSink (s : Session) (breaksOn : Option String) : Nat × Session :=
  (s.sinks.length, { s with sinks := s.sinks ++ [{ breaksOn }] })

def addTask (s : Session) (t : Task) : Session := { s with tasks := s.tasks ++ [t] }

/-- Starts a stream on a subscription. -/
def spawn (s : Session) (subscription sink timeout : Nat) : Nat × Session :=
  let i := s.tasks.length
  (i, (s.addTask { subscription, sink, stream := { timeout } }).wake [i])

/-- Asks a task to end.  One that has ended takes no notice. -/
def signal (s : Session) (i : Nat) (signal : Signal) : Session :=
  (s.updateTask i fun t => { t with signal := some signal }).wake [i]

def ending? (s : Session) (i : Nat) : Option Ending := (s.tasks[i]?).bind (·.ending)

/-- Stops a stream and waits for its end. -/
def stop (s : Session) (i : Nat) : Option Ending × Session :=
  let s := if (s.ending? i).isNone then (s.signal i .stop).settle else s
  (s.ending? i, s)

/-- The channel of a stream. -/
def channel? (s : Session) (i : Nat) : Option String :=
  (s.tasks[i]?).bind fun t => (s.bus.mailboxes[t.subscription]?).map (·.channel)

end Session

end DevMachine

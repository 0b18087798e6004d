import DevMachine.Connection.Driver

/-!
# Runs of a connection

Everything that can happen to a connection from outside is a step: clients
connect, ask for the bus and close; the endpoint ends links; time passes.
After a step everything runs until nothing can, unless the step is queued
behind the next one.
-/

namespace DevMachine.Connection

open Channel (Bus Failure Frame Reading)

def wake (c : Connection) (w : Wake) : Connection :=
  if c.ready.contains w then c else { c with ready := c.ready ++ [w] }

/-- The link that the driver watches. -/
def watched? (c : Connection) : Option Nat :=
  match c.phase? with
  | some (.linked k) => some k
  | _ => none

/-- Gives the driver up.  What it was doing leads to nothing more. -/
def abandonDriver (c : Connection) : Connection :=
  match c.phase? with
  | none | some .finished => { c with driver := none }
  | some _ =>
    { c with
      driver := none
      lingering := c.watched? :: c.lingering
      ready := c.ready.filter (· ≠ .driver) }

/-- Starts connecting to a url with a new driver and a full budget. -/
def connect (c : Connection) (url : String) : Connection :=
  { c.abandonDriver with
    retries := retryBudget, status := .stopped, bus := none, driver := some { url } }.wake .driver

def updateBus (c : Connection) (link : Nat) (f : Bus → Bus) : Connection :=
  { c with links := c.links.modify link fun l => { l with bus := f l.bus } }

/-- Ends the connection.  The subscriptions of an open link end with it. -/
def close (c : Connection) : Connection :=
  let c := c.abandonDriver
  let wasStarted := c.status = .started
  let c := match c.bus with
    | some k => c.updateBus k Bus.clear
    | none => c
  let c := { c with status := .stopped, bus := none }
  if wasStarted then c.record (.notice .stopped) else c

def addRequest (c : Connection) : Connection :=
  { c with requests := c.requests ++ [RequestState.asked] }

/-- A client asks for the bus. -/
def request (c : Connection) : Nat × Connection :=
  (c.requests.length, c.addRequest.wake (.request c.requests.length))

def RequestState.cancel : RequestState → RequestState
  | .answered => .answered
  | _ => .cancelled

/-- A client does not want its answer any more.  Its place stays taken. -/
def cancel (c : Connection) (i : Nat) : Connection :=
  { c with requests := c.requests.modify i RequestState.cancel }

/-- The turn of a request: it gets the bus of the open link, or takes the
waiting place from an earlier one. -/
def serve (c : Connection) (i : Nat) : Connection :=
  match c.requests[i]? with
  | some .asked =>
    let c := { c with requests := c.requests.set i .waiting }
    match c.bus with
    | some k => c.answer i (.bus k)
    | none => { c.answerWaiter (.failure .superseded) with waiter := some i }
  | _ => c

def turn (c : Connection) : Wake → Connection
  | .driver => c.drive
  | .request i => c.serve i

/-- Lets everything run until nothing can. -/
def settle (c : Connection) : Connection :=
  { c.ready.foldl turn { c with ready := [] } with lingering := [] }

/-- Moves the clock from one due time to the next, up to the given time. -/
def passUntil (target : Nat) : (fuel : Nat) → Connection → Connection
  | 0, c => c
  | fuel + 1, c =>
    match c.nextDue? with
    | some t =>
      if t ≤ target then passUntil target fuel { c with clock := max c.clock t }.drive else c
    | none => c

/-- Lets time pass. -/
def sleep (c : Connection) (duration : Nat) : Connection :=
  let c := c.settle
  let target := c.clock + duration
  { passUntil target (c.rank + 1) c with clock := target }

/-- Whether somebody still watches a link. -/
def isWatched (c : Connection) (link : Nat) : Bool :=
  c.watched? = some link || c.lingering.contains (some link)

/-- The endpoint ends a link.  The first end counts. -/
def endLink (c : Connection) (link : Nat) (ending : Option Failure) : Connection :=
  let c := { c with
    links := c.links.modify link fun l => { l with farEnd := l.farEnd.or (some ending) } }
  if c.watched? = some link then c.wake .driver else c

/-- Whether the endpoint has not ended a link yet. -/
def isOpenEnded (c : Connection) (link : Nat) : Bool :=
  match c.links[link]? with
  | some l => l.farEnd.isNone
  | none => false

/-- Gives the whole connection up, with all requests that wait. -/
def dropController (c : Connection) : Connection :=
  let c := (List.range c.requests.length).foldl cancel c
  { c.abandonDriver with waiter := none, dropped := true }

/-- Whether nobody is left who could send a notice. -/
def noticesEnded (c : Connection) : Bool := c.dropped && c.lingering.isEmpty

inductive Step
  | connect (url : String)
  | close
  | request
  | cancel (request : Nat)
  | closeLink (link : Nat) (failure : Option Failure)
  | dropLink (link : Nat)
  | subscribe (link : Nat) (channel : String)
  | dispatch (link : Nat) (frame : Frame)
  | next (link subscription : Nat)
  | dropController
  | sleep (duration : Nat)
  | settle

/-- What a step answers. -/
inductive Reply
  | done
  | requested (request : Nat)
  | said (answer : Bool)
  | subscribed (result : Except Failure Nat)
  | reading (reading : Reading)

def busOf (c : Connection) (link : Nat) : Bus := ((c.links[link]?).map (·.bus)).getD {}

/-- The effect of a step before the connection settles. -/
def perform (c : Connection) : Step → Reply × Connection
  | .connect url => (.done, c.connect url)
  | .close => (.done, c.close)
  | .request =>
    let (i, c) := c.request
    (.requested i, c)
  | .cancel i => (.done, c.cancel i)
  | .closeLink link failure =>
    (.said (c.isOpenEnded link && c.isWatched link), c.endLink link failure)
  | .dropLink link => (.said (c.isOpenEnded link), c.endLink link (some .closed))
  | .subscribe link channel =>
    let (result, b) := (c.busOf link).subscribe channel
    (.subscribed result, c.updateBus link fun _ => b)
  | .dispatch link frame => (.done, c.updateBus link (·.dispatch frame))
  | .next link id =>
    let (reading, b) := (c.busOf link).next id
    (.reading reading, c.updateBus link fun _ => b)
  | .dropController => (.done, c.dropController)
  | .sleep duration => (.done, c.sleep duration)
  | .settle => (.done, c.settle)

/-- One step, after which the connection settles unless the step is queued. -/
def step (c : Connection) (queued : Bool) (step : Step) : Reply × Connection :=
  let (reply, c) := c.perform step
  (reply, if queued then c else c.settle)

def run (c : Connection) (steps : List (Bool × Step)) : Connection :=
  steps.foldl (fun c entry => (c.step entry.1 entry.2).2) c

end DevMachine.Connection

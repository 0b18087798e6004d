import DevMachine.Channel.Bus

/-!
# Connections to the event endpoint

A connection is wanted by a url and kept up by a driver, which opens links one
after the other and starts again when one fails, until a budget of retries is
spent.  Clients ask for the bus of the open link; one of them at a time may
wait for a link to open.
-/

namespace DevMachine.Connection

open Channel (Bus Failure)

/-- The retries granted by each request to connect. -/
def retryBudget : Nat := 5

/-- The pause before each retry, in milliseconds. -/
def retryDelay : Nat := 1000

inductive Status
  | stopped
  | started
  deriving DecidableEq, Repr

/-- What a connection tells about itself. -/
inductive Notice
  | started
  | stopped
  | reconnecting (remaining : Nat)
  | stoppedOnError (cause : Failure)
  deriving DecidableEq, Repr

/-- How a link goes away by itself: when, and whether by a failure. -/
structure Fading where
  after : Nat
  failure : Option Failure := none
  deriving DecidableEq, Repr

/-- What an attempt to open a link leads to. -/
inductive Opening
  | opens (fading : Option Fading)
  | fails (failure : Failure)
  | refused
  | hangs
  deriving DecidableEq, Repr

/-- An entry of the script: what an attempt leads to, and after which delay. -/
structure Attempt where
  opening : Opening := .refused
  delay : Nat := 0
  deriving DecidableEq, Repr

/-- What a client that asked for the bus is told: the link whose bus it gets,
or why it gets none. -/
inductive Answer
  | bus (link : Nat)
  | failure (cause : Failure)
  deriving DecidableEq, Repr

/-- Something that happened.  Links and requests are known by their
numbers. -/
inductive Occurrence
  | notice (n : Notice)
  | attempt (url : String)
  | answer (request : Nat) (answer : Answer)
  deriving DecidableEq, Repr

/-- A link that was open at some time.  `farEnd` is the end that the endpoint
gave it, gracefully or by a failure. -/
structure Link where
  bus : Bus := {}
  fadesAt : Option (Nat × Option Failure) := none
  farEnd : Option (Option Failure) := none

/-- What the driver is doing. -/
inductive Phase
  | fresh
  | opening (opening : Opening) (due : Nat)
  | linked (link : Nat)
  | pausing (due : Nat)
  | finished
  deriving DecidableEq, Repr

structure Driver where
  url : String
  phase : Phase := .fresh
  deriving DecidableEq, Repr

/-- What became of a client's request for the bus. -/
inductive RequestState
  | asked
  | waiting
  | answered
  | cancelled
  deriving DecidableEq, Repr

/-- What is to have its turn when the connection settles. -/
inductive Wake
  | driver
  | request (number : Nat)
  deriving DecidableEq, Repr

end DevMachine.Connection

namespace DevMachine

open Connection in
/-- A connection with everything around it.  `bus` is the link whose bus is
handed out and `waiter` the request that waits for one.  A driver that was
given up watches its link until the connection settles; `lingering` lists the
links of such drivers. -/
structure Connection where
  clock : Nat := 0
  script : List Attempt := []
  status : Status := .stopped
  retries : Nat := retryBudget
  bus : Option Nat := none
  waiter : Option Nat := none
  driver : Option Driver := none
  lingering : List (Option Nat) := []
  links : List Link := []
  requests : List RequestState := []
  history : List (Nat × Occurrence) := []
  ready : List Wake := []
  dropped : Bool := false

end DevMachine

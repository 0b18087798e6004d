import DevMachine.Connection.Basic

/-!
# The driver of a connection

The driver moves from an attempt to an open link, from a failed attempt or a
failed link to a pause, and from a pause to the next attempt.  Each move lowers its
rank, so the moves that are possible without waiting come to an end.
-/

namespace DevMachine.Connection

open Channel (Failure)

def record (c : Connection) (o : Occurrence) : Connection :=
  { c with history := c.history ++ [(c.clock, o)] }

def phase? (c : Connection) : Option Phase := c.driver.map Driver.phase

def setPhase (c : Connection) (phase : Phase) : Connection :=
  { c with driver := c.driver.map fun d => { d with phase } }

/-- Answers a request, unless it was cancelled. -/
def answer (c : Connection) (request : Nat) (answer : Answer) : Connection :=
  match c.requests[request]? with
  | some .waiting =>
    { c with requests := c.requests.set request .answered }.record (.answer request answer)
  | _ => c

/-- Answers the request in the waiting place, which is free afterwards. -/
def answerWaiter (c : Connection) (answer : Answer) : Connection :=
  match c.waiter with
  | some request => { c with waiter := none }.answer request answer
  | none => c

/-- Begins the next attempt of the script; past its end attempts are refused. -/
def beginAttempt (c : Connection) (url : String) : Connection :=
  let attempt := c.script.headD {}
  ({ c with script := c.script.tail }.record (.attempt url)).setPhase
    (.opening attempt.opening (c.clock + attempt.delay))

/-- A link has opened: its bus is handed out from now on. -/
def linkOpened (c : Connection) (fading : Option Fading) : Connection :=
  let k := c.links.length
  let link : Link := { fadesAt := fading.map fun f => (c.clock + f.after, f.failure) }
  let c := { c with links := c.links ++ [link], status := .started, bus := some k }
  ((c.answerWaiter (.bus k)).record (.notice .started)).setPhase (.linked k)

/-- The link has ended gracefully. -/
def linkClosed (c : Connection) : Connection :=
  ({ c with status := .stopped, bus := none }.record (.notice .stopped)).setPhase .finished

/-- An attempt or a link has failed: another retry, or the end. -/
def failed (c : Connection) (failure : Failure) : Connection :=
  if c.retries = 0 then
    let c := { c with status := .stopped, bus := none }
    ((c.answerWaiter (.failure (.exhausted retryBudget))).record
      (.notice (.stoppedOnError failure))).setPhase .finished
  else
    let remaining := c.retries - 1
    ({ c with retries := remaining }.record (.notice (.reconnecting remaining))).setPhase
      (.pausing (c.clock + retryDelay))

/-- The end of a link, once it has come.  A link that fades ends by that alone,
any other by what the endpoint says. -/
def Link.ended? (now : Nat) (link : Link) : Option (Option Failure) :=
  match link.fadesAt with
  | some (t, ending) => if t ≤ now then some ending else none
  | none => link.farEnd

/-- The end of an attempt whose delay is over. -/
def openingEnded (c : Connection) (url : String) : Opening → Option Connection
  | .opens fading => some (c.linkOpened fading)
  | .fails failure => some (c.failed failure)
  | .refused => some (c.failed (.connect url "connection refused"))
  | .hangs => none

/-- The next move of the driver, if it need not wait. -/
def move? (c : Connection) : Option Connection := do
  let driver ← c.driver
  match driver.phase with
  | .fresh => some (c.beginAttempt driver.url)
  | .opening opening due => if due ≤ c.clock then c.openingEnded driver.url opening else none
  | .linked k =>
    match ← (← c.links[k]?).ended? c.clock with
    | none => some c.linkClosed
    | some failure => some ({ c with bus := none }.failed failure)
  | .pausing due => if due ≤ c.clock then some (c.beginAttempt driver.url) else none
  | .finished => none

/-- An upper bound for the moves that the driver can still make. -/
def rank (c : Connection) : Nat :=
  match c.phase? with
  | some .fresh | some (.pausing _) => 4 * c.retries + 4
  | some (.opening ..) => 4 * c.retries + 3
  | some (.linked _) => 4 * c.retries + 2
  | some .finished | none => 0

/-- Makes moves for as long as there are any, at most `fuel`. -/
def moves : (fuel : Nat) → Connection → Connection
  | 0, c => c
  | fuel + 1, c =>
    match c.move? with
    | some c => moves fuel c
    | none => c

/-- Runs the driver until it has to wait. -/
def drive (c : Connection) : Connection := moves c.rank c

/-- The time at which the driver goes on by itself. -/
def nextDue? (c : Connection) : Option Nat := do
  match ← c.phase? with
  | .opening .hangs _ => none
  | .opening _ due | .pausing due => some due
  | .linked k => return (← (← c.links[k]?).fadesAt).1
  | .fresh | .finished => none

end DevMachine.Connection

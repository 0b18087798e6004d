/-!
# Failures of container operations

The daemon may answer with an error status, answer too late, or answer in a
way that cannot be used at all: no connection, no reply, or a reply that does
not decode.  The first two have a text of their own.
-/

namespace DevMachine.Container

/-- What went wrong between the client and the daemon. -/
inductive DaemonFault
  | status (code : Nat) (text : String)
  | timeout
  | unusable
  deriving DecidableEq, Repr

/-- The text of a fault, where it has a stable one. -/
def DaemonFault.text? : DaemonFault → Option String
  | .status code text => some s!"Docker responded with status code {code}: {text}"
  | .timeout => some "Timeout error"
  | .unusable => none

inductive Failure
  | connection (fault : DaemonFault)
  | notFound (name : String)
  | invalidConfig (text : String)
  | operationFailed (text : String)
  deriving DecidableEq, Repr

/-- The words a failure is reported in, where they are stable. -/
def Failure.message? : Failure → Option String
  | .connection fault => fault.text?.map ("Docker connection error: " ++ ·)
  | .notFound name => some s!"Container not found: {name}"
  | .invalidConfig text => some s!"Invalid configuration: {text}"
  | .operationFailed text => some s!"Container operation failed: {text}"

/-- The failure of looking a container up by name: a daemon that knows no such
container answers with status 404. -/
def Failure.ofLookup (name : String) : DaemonFault → Failure
  | .status 404 _ => .notFound name
  | fault => .connection fault

end DevMachine.Container

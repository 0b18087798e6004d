/-!
# Failures of the event endpoint

What can go wrong between this machine and the endpoint, and the words it is
reported in.  A failure is a plain value, so one failure of a link can be
handed to every subscriber.
-/

namespace DevMachine.Channel

inductive Failure
  | connect (url reason : String)
  | closed
  | protocol (message : String)
  | remote (channel message : String)
  | superseded
  | exhausted (attempts : Nat)
  deriving DecidableEq, Repr

def Failure.message : Failure → String
  | .connect url reason => s!"Failed to connect to {url}: {reason}"
  | .closed => "Connection closed"
  | .protocol message => s!"Protocol error: {message}"
  | .remote channel message => s!"Remote error on channel {channel}: {message}"
  | .superseded => "Connection request superseded by a newer request"
  | .exhausted attempts => s!"Connection stopped after {attempts} failed reconnect attempts"

end DevMachine.Channel

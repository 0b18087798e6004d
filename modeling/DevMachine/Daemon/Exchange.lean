import DevMachine.Json.Value
import DevMachine.Text.Utf8

/-!
# Requests to the container daemon and its replies

A daemon answers each kind of request from a list of replies of its own, one
after the other, and goes on with the last one.  It keeps a record of what it
was asked.
-/

namespace DevMachine

open Json (Value)
open Text (Octets)

namespace Daemon

inductive Method
  | get
  | post
  deriving DecidableEq, Repr

/-- A request as the daemon gets it, with its path below the version. -/
structure Request where
  method : Method
  path : String
  query : Option String := none
  body : Option Value := none

/-- What comes back: a response whose body arrives in chunks, a connection
handed over for raw output, or nothing at all. -/
inductive Reply
  | response (status : Nat) (chunks : List String)
  | upgraded (output : Octets)
  | hangup
  deriving DecidableEq, Repr

/-- The kinds of requests. -/
inductive Route
  | ping
  | inspect
  | create
  | start
  | events
  deriving DecidableEq, Repr

/-- The answer of a daemon that was told nothing else. -/
def Route.usual : Route → Reply
  | .ping => .response 200 ["OK"]
  | .inspect => .response 404 ["\x7b\"message\":\"no reply\"\x7d"]
  | .create => .response 201 ["\x7b\"Id\":\"exec-1\"\x7d"]
  | .start => .response 200 []
  | .events => .response 200 []

end Daemon

/-- The replies still to come on each route, and the requests so far. -/
structure Daemon where
  replies : Daemon.Route → List Daemon.Reply := fun _ => []
  requests : List (Daemon.Route × Daemon.Request) := []

namespace Daemon

/-- What is left of some replies after one was given. -/
def afterReply : List Reply → List Reply
  | _ :: next :: rest => next :: rest
  | replies => replies

def setReplies (d : Daemon) (route : Route) (replies : List Reply) : Daemon :=
  { d with replies := fun r => if r = route then replies else d.replies r }

/-- Answers a request and records it. -/
def ask (d : Daemon) (route : Route) (request : Request) : Reply × Daemon :=
  ((d.replies route).headD route.usual,
    { d.setReplies route (afterReply (d.replies route)) with
      requests := d.requests ++ [(route, request)] })

end Daemon

end DevMachine

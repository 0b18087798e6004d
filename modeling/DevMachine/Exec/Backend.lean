import DevMachine.Container.Failure
import DevMachine.Text.Utf8

/-!
# Container runtimes

A runtime creates an exec session in a container and starts it, attached to
its output or detached from it.  It is described by what these two requests
answer and how they change the runtime's own state.  A rehearsed runtime
answers from two lists and keeps a record of the requests it got.
-/

namespace DevMachine.Exec

open Container (Failure)
open Text (Octets)

/-- What a started session hands back: nothing, or its output in chunks that
need not end where lines end. -/
inductive Output
  | detached
  | attached (chunks : List (Except Failure Octets))

structure Backend (σ : Type) where
  create : σ → (container : String) → (attach : Bool) → (arguments : List String) →
    Except Failure String × σ
  start : σ → (exec : String) → (detach : Bool) → Except Failure Output × σ

/-- A request to the runtime. -/
inductive Call
  | create (container : String) (attach : Bool) (arguments : List String)
  | start (exec : String) (detach : Bool)
  deriving DecidableEq, Repr

/-- A runtime with prepared answers.  Once they have run out, sessions are
created as `exec-1` and start detached. -/
structure Rehearsal where
  creates : List (Except Failure String) := []
  starts : List (Except Failure Output) := []
  calls : List Call := []

namespace Rehearsal

def create (r : Rehearsal) (container : String) (attach : Bool) (arguments : List String) :
    Except Failure String × Rehearsal :=
  (r.creates.headD (.ok "exec-1"),
    { r with creates := r.creates.tail, calls := r.calls ++ [.create container attach arguments] })

def start (r : Rehearsal) (exec : String) (detach : Bool) : Except Failure Output × Rehearsal :=
  (r.starts.headD (.ok .detached),
    { r with starts := r.starts.tail, calls := r.calls ++ [.start exec detach] })

def backend : Backend Rehearsal := { create, start }

end Rehearsal

end DevMachine.Exec

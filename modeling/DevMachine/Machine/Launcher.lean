import DevMachine.Exec.Runner
import DevMachine.Machine.Event

/-!
# Startup commands

A development machine gets its startup command each time it starts running.
What the registry says about the machine decides, not the labels the event
carries.  A failure is an outcome like any other: nothing is tried again.
-/

namespace DevMachine.Machine

open Container (Failure)
open Exec (Backend Handle Runner)

/-- A registry looks machines up by name and may change its state by it. -/
abbrev Registry (σ : Type) := σ → String → Except Failure Info × σ

/-- A registry that answers from a fixed table and changes nothing. -/
def Registry.ofTable {σ : Type} (table : List (String × Except Failure Info)) : Registry σ :=
  fun world name =>
    match table.find? (·.1 = name) with
    | some (_, answer) => (answer, world)
    | none => (.error (.notFound name), world)

/-- What an event led to. -/
inductive Outcome
  | ignored
  | notDev
  | lookupFailed (cause : Failure)
  | launchFailed (cause : Failure)
  | launched (handle : Handle)
  deriving DecidableEq, Repr

structure Launcher (σ : Type) where
  registry : Registry σ
  backend : Backend σ
  startup : String

namespace Launcher

variable {σ : Type}

/-- Handles one event: looks the machine up when it started running, and
launches its startup command, detached, when it is for development. -/
def handle (l : Launcher σ) (r : Runner σ) (event : Event) : Outcome × Runner σ :=
  if event.kind = .running then
    match l.registry r.world event.machine with
    | (.error e, world) => (.lookupFailed e, { r with world })
    | (.ok machine, world) =>
      let r := { r with world }
      if machine.dev then
        match r.start l.backend machine.container l.startup false with
        | ({ result := .ok handle, .. }, r) => (.launched handle, r)
        | ({ result := .error e, .. }, r) => (.launchFailed e, r)
      else (.notDev, r)
  else (.ignored, r)

/-- Handles events until the feed ends. -/
def run (l : Launcher σ) (r : Runner σ) (events : List Event) : List Outcome × Runner σ :=
  match events with
  | [] => ([], r)
  | event :: rest =>
    let (outcome, r) := l.handle r event
    let (outcomes, r) := run l r rest
    (outcome :: outcomes, r)

end Launcher

end DevMachine.Machine

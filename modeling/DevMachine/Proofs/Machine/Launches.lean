import DevMachine.Machine.Launcher
import Mathlib.Tactic.Common

/-!
# Launches over a whole feed

The registry alone decides which events launch the startup command.  Each
launch takes the next reply for a session and, if there is a session, the next
reply for its start.  What became of earlier events shows nowhere but in how
many replies are used up.
-/

namespace DevMachine

open Container (Failure)
open Exec (Backend Call Output Rehearsal Runner pidFile shellArguments wrapCommand)

namespace Exec

/-- A runtime beside something else that it leaves alone. -/
def Backend.beside (ρ : Type) {σ : Type} (b : Backend σ) : Backend (ρ × σ) where
  create world container attach arguments :=
    let (reply, own) := b.create world.2 container attach arguments
    (reply, world.1, own)
  start world exec detach :=
    let (reply, own) := b.start world.2 exec detach
    (reply, world.1, own)

namespace Rehearsal

/-- The reply to a request for a session, by how many were made before it. -/
def created (w : Rehearsal) (k : Nat) : Except Failure String :=
  w.creates[k]?.getD (.ok "exec-1")

def started (w : Rehearsal) (k : Nat) : Except Failure Output :=
  w.starts[k]?.getD (.ok .detached)

/-- How many of the next requests for a session succeed. -/
def sessions (w : Rehearsal) (k : Nat) : Nat :=
  (List.range k).countP fun j => (w.created j).isOk

theorem headD_creates (w : Rehearsal) : w.creates.headD (.ok "exec-1") = w.created 0 := by
  rw [created]
  cases w.creates <;> rfl

theorem headD_starts (w : Rehearsal) : w.starts.headD (.ok .detached) = w.started 0 := by
  rw [started]
  cases w.starts <;> rfl

end Rehearsal

end Exec

namespace Machine

variable {ρ σ : Type}

def Registry.beside (registry : Registry ρ) (σ : Type) : Registry (ρ × σ) :=
  fun world name =>
    let (answer, own) := registry world.1 name
    (answer, own, world.2)

/-- Asks the registry about an event.  It is asked by the machine's name, and
only about machines that started running. -/
def consult (registry : Registry ρ) (x : ρ) (event : Event) :
    Option (Except Failure Info) × ρ :=
  if event.kind = .running then
    let (answer, x) := registry x event.machine
    (some answer, x)
  else (none, x)

def answers (registry : Registry ρ) (x : ρ) : List Event → List (Option (Except Failure Info))
  | [] => []
  | event :: events =>
    let (answer, x) := consult registry x event
    answer :: answers registry x events

def consulted (registry : Registry ρ) (x : ρ) (events : List Event) : ρ :=
  events.foldl (fun x event => (consult registry x event).2) x

/-- The container that an answer has the startup command launched in. -/
def target? : Option (Except Failure Info) → Option String
  | some (.ok machine) => if machine.dev then some machine.container else none
  | _ => none

/-- What is there for one launch: a pid file, and the replies to its requests. -/
structure Turn where
  path : String
  created : Except Failure String
  started : Except Failure Output

/-- A launch asks for a detached session of the wrapped command, and has it
started if it was created. -/
def Turn.calls (turn : Turn) (startup container : String) : List Call :=
  .create container false ["/bin/sh", "-c", wrapCommand turn.path startup] ::
    match turn.created with
    | .error _ => []
    | .ok exec => [.start exec true]

def callsFor (startup : String) (turn : Turn) (answer : Option (Except Failure Info)) :
    List Call :=
  match target? answer with
  | none => []
  | some container => turn.calls startup container

def conclusion (startup : String) (turn : Turn) : Option (Except Failure Info) → Outcome
  | none => .ignored
  | some (.error e) => .lookupFailed e
  | some (.ok machine) =>
    if machine.dev then
      match turn.created, turn.started with
      | .error e, _ => .launchFailed e
      | .ok _, .error e => .launchFailed e
      | .ok _, .ok _ =>
        .launched { container := machine.container, command := startup, pidFile := some turn.path }
    else .notDev

/-- The turn of a launch by its number.  Every launch uses up a pid file and a
reply for a session, but a reply for a start only if it gets to that. -/
def turn (path : Nat → String) (w : Rehearsal) (k : Nat) : Turn :=
  { path := path k, created := w.created k, started := w.started (w.sessions k) }

def afterLaunch (startup : String) (path : Nat → String) (w : Rehearsal) (container : String) :
    Rehearsal where
  creates := w.creates.tail
  starts := if (w.created 0).isOk then w.starts.tail else w.starts
  calls := w.calls ++ (turn path w 0).calls startup container

section Turn

variable (startup : String) (path : Nat → String) (w : Rehearsal) (container : String)

theorem created_afterLaunch (k : Nat) :
    (afterLaunch startup path w container).created k = w.created (k + 1) := by
  simp [Rehearsal.created, afterLaunch, List.getElem?_tail]

theorem sessions_succ (k : Nat) :
    w.sessions (k + 1) = w.sessions 1 + (afterLaunch startup path w container).sessions k := by
  unfold Rehearsal.sessions
  rw [List.range_succ_eq_map, List.countP_cons, List.countP_map]
  simp only [created_afterLaunch, Function.comp_def]
  simp [List.range_succ, Nat.add_comm]

theorem started_afterLaunch (k : Nat) :
    (afterLaunch startup path w container).started k = w.started (w.sessions 1 + k) := by
  cases hcreated : w.created 0 with
  | error e =>
      have hnone : w.sessions 1 = 0 := by
        simp [Rehearsal.sessions, hcreated, Except.isOk, Except.toBool]
      simp [Rehearsal.started, afterLaunch, hcreated, hnone, Except.isOk, Except.toBool]
  | ok exec =>
      have hone : w.sessions 1 = 1 := by
        simp [Rehearsal.sessions, hcreated, Except.isOk, Except.toBool]
      simp [Rehearsal.started, afterLaunch, hcreated, hone, Except.isOk, Except.toBool,
        List.getElem?_tail, Nat.add_comm]

theorem turn_succ (k : Nat) :
    turn path w (k + 1) =
      turn (fun j => path (j + 1)) (afterLaunch startup path w container) k := by
  simp only [turn, created_afterLaunch, started_afterLaunch]
  rw [sessions_succ startup path w container]

end Turn

/-! ## One event -/

/-- A launcher for a registry with a state of its own and a rehearsed runtime. -/
def rehearsed (registry : Registry ρ) (startup : String) : Launcher (ρ × Rehearsal) where
  registry := registry.beside Rehearsal
  backend := Rehearsal.backend.beside ρ
  startup := startup

section Handle

variable (registry : Registry ρ) (startup : String) (x : ρ) (w : Rehearsal) (launched : Nat)
  (token : Nat → String) (path : Nat → String) {event : Event}

theorem run_launch (container : String) :
    Runner.run { world := (x, w), launched, token } (Rehearsal.backend.beside ρ) container
        (wrapCommand (path 0) startup) false =
      ({ result := (w.created 0).bind fun _ => (w.started 0).map fun _ => () },
        { world := (x, afterLaunch startup path w container), launched, token }) := by
  unfold Runner.run
  simp only [Backend.beside, Rehearsal.backend, Rehearsal.create, Rehearsal.start,
    Rehearsal.headD_creates]
  cases hcreated : w.created 0 with
  | error e => simp [afterLaunch, Turn.calls, turn, shellArguments, hcreated, Except.bind,
      Except.isOk, Except.toBool]
  | ok exec =>
      have hstart : w.starts.headD (.ok .detached) = w.started 0 := w.headD_starts
      have hafter : afterLaunch startup path w container =
          { creates := w.creates.tail
            starts := w.starts.tail
            calls := w.calls ++ [.create container false
              ["/bin/sh", "-c", wrapCommand (path 0) startup]] ++ [.start exec true] } := by
        simp [afterLaunch, Turn.calls, turn, hcreated, Except.isOk, Except.toBool]
      simp only [hstart, hafter]
      cases hstarted : w.started 0 with
      | error e => rfl
      | ok output => cases output <;> rfl

theorem handle_of_no_target (turn : Turn) (htarget : target? (consult registry x event).1 = none) :
    (rehearsed registry startup).handle { world := (x, w), launched, token } event =
      (conclusion startup turn (consult registry x event).1,
        { world := ((consult registry x event).2, w), launched, token }) := by
  unfold consult at htarget ⊢
  unfold Launcher.handle
  simp only [rehearsed, Registry.beside]
  split at htarget
  next hkind =>
    cases hanswer : registry x event.machine with
    | mk answer x' =>
        cases answer with
        | error e => simp [hkind, conclusion]
        | ok machine =>
            have hdev : machine.dev = false := by simpa [hanswer, target?] using htarget
            simp [hkind, hdev, conclusion]
  next hkind => simp [hkind, conclusion]

theorem handle_of_target {container : String} (hpath : path 0 = pidFile (token launched))
    (htarget : target? (consult registry x event).1 = some container) :
    (rehearsed registry startup).handle { world := (x, w), launched, token } event =
      (conclusion startup (turn path w 0) (consult registry x event).1,
        { world := ((consult registry x event).2, afterLaunch startup path w container),
          launched := launched + 1, token }) := by
  unfold consult at htarget ⊢
  unfold Launcher.handle
  simp only [rehearsed, Registry.beside]
  split at htarget
  next hkind =>
    cases hanswer : registry x event.machine with
    | mk answer x' =>
        cases answer with
        | error e => simp [hanswer, target?] at htarget
        | ok machine =>
            obtain ⟨hdev, rfl⟩ : machine.dev = true ∧ machine.container = container := by
              simpa [hanswer, target?] using htarget
            simp only [hkind, hdev, conclusion, Runner.start, ← hpath, run_launch, if_true, turn,
              Rehearsal.sessions, List.range_zero, List.countP_nil]
            cases w.created 0 with
            | error e => rfl
            | ok exec => cases w.started 0 <;> rfl
  next hkind => simp [target?] at htarget

end Handle

/-! ## Feeds -/

def launchesBefore (known : List (Option (Except Failure Info))) (i : Nat) : Nat :=
  (known.take i).countP fun answer => (target? answer).isSome

/-- The turn of the event at a position: the earlier launches have had theirs. -/
def turnAt (path : Nat → String) (w : Rehearsal) (known : List (Option (Except Failure Info)))
    (i : Nat) : Turn :=
  turn path w (launchesBefore known i)

section Feed

variable (startup : String) (path : Nat → String) (w : Rehearsal)
  {known : List (Option (Except Failure Info))} {answer : Option (Except Failure Info)}
  {container : String}

theorem turnAt_cons_of_no_target (htarget : target? answer = none) (i : Nat) :
    turnAt path w (answer :: known) (i + 1) = turnAt path w known i := by
  simp [turnAt, launchesBefore, htarget]

theorem turnAt_cons_of_target (htarget : target? answer = some container) (i : Nat) :
    turnAt path w (answer :: known) (i + 1) =
      turnAt (fun k => path (k + 1)) (afterLaunch startup path w container) known i := by
  have hbefore : launchesBefore (answer :: known) (i + 1) = launchesBefore known i + 1 := by
    simp [launchesBefore, htarget]
  rw [turnAt, hbefore, turn_succ startup path w container, turnAt]

end Feed

theorem Launcher.run_cons {l : Launcher σ} {r r' : Runner σ} {event : Event} {outcome : Outcome}
    (hhandle : l.handle r event = (outcome, r')) (events : List Event) :
    l.run r (event :: events) = (outcome :: (l.run r' events).1, (l.run r' events).2) := by
  rw [run, hhandle]

theorem run_rehearsed (registry : Registry ρ) (startup : String) (x : ρ) (w : Rehearsal)
    (launched : Nat) (token : Nat → String) (events : List Event) :
    let known := answers registry x events
    let turns := turnAt (fun k => pidFile (token (launched + k))) w known
    let done := (rehearsed registry startup).run { world := (x, w), launched, token } events
    done.2.world.1 = consulted registry x events ∧
      done.2.world.2.calls =
        w.calls ++ (known.mapIdx fun i => callsFor startup (turns i)).flatten ∧
      done.1 = known.mapIdx fun i => conclusion startup (turns i) := by
  -- the rest of a feed is handled like a feed of its own, by what the first event leaves behind
  induction events generalizing x w launched with
  | nil => simp [answers, consulted, Launcher.run]
  | cons event events ih =>
      intro known turns done
      let answer := (consult registry x event).1
      let x' := (consult registry x event).2
      let later := answers registry x' events
      let path := fun k => pidFile (token (launched + k))
      have hcallsFor : (known.mapIdx fun i => callsFor startup (turns i)).flatten =
          callsFor startup (turns 0) answer ++
            (later.mapIdx fun i => callsFor startup (turns (i + 1))).flatten :=
        congrArg List.flatten List.mapIdx_cons
      have hconclusion : (known.mapIdx fun i => conclusion startup (turns i)) =
          conclusion startup (turns 0) answer ::
            later.mapIdx fun i => conclusion startup (turns (i + 1)) :=
        List.mapIdx_cons
      cases htarget : target? answer with
      | none =>
          have hdone := Launcher.run_cons
            (handle_of_no_target registry startup x w launched token (turns 0) htarget) events
          obtain ⟨hasked, hcalls, houtcomes⟩ := ih x' w launched
          have hturns : ∀ i, turns (i + 1) = turnAt path w later i :=
            turnAt_cons_of_no_target path w htarget
          have hnone : callsFor startup (turns 0) answer = [] := by rw [callsFor, htarget]
          simp only [done, hdone, hcallsFor, hconclusion, hturns, hnone]
          exact ⟨hasked, hcalls, congrArg _ houtcomes⟩
      | some container =>
          have hdone := Launcher.run_cons
            (handle_of_target registry startup x w launched token path rfl htarget) events
          have hpath : (fun k => path (k + 1)) = fun k => pidFile (token (launched + 1 + k)) := by
            funext k
            exact congrArg (fun n => pidFile (token n)) (by omega)
          obtain ⟨hasked, hcalls, houtcomes⟩ :=
            ih x' (afterLaunch startup path w container) (launched + 1)
          have hturns : ∀ i, turns (i + 1) =
              turnAt (fun k => pidFile (token (launched + 1 + k)))
                (afterLaunch startup path w container) later i := by
            intro i
            rw [← hpath]
            exact turnAt_cons_of_target startup path w htarget i
          have hsome : callsFor startup (turns 0) answer =
              (turn path w 0).calls startup container := by
            rw [callsFor, htarget]
            rfl
          simp only [done, hdone, hcallsFor, hconclusion, hturns, hsome, ← List.append_assoc]
          exact ⟨hasked, hcalls, congrArg _ houtcomes⟩

/-- Only which machine an event is about and what became of it matters. -/
theorem Launcher.run_congr (l : Launcher σ) (r : Runner σ) {events events' : List Event}
    (h : events'.map (fun e => (e.machine, e.kind)) = events.map fun e => (e.machine, e.kind)) :
    l.run r events' = l.run r events := by
  induction events generalizing r events' with
  | nil =>
      obtain rfl := List.map_eq_nil_iff.mp h
      rfl
  | cons event events ih =>
      obtain ⟨event', events', rfl, hevent, hevents⟩ := List.map_eq_cons_iff.mp h
      obtain ⟨hmachine, hkind⟩ := Prod.mk.inj hevent
      have hhandle : l.handle r event' = l.handle r event := by
        simp only [handle, hmachine, hkind]
      rw [run_cons hhandle, run_cons rfl, ih _ hevents]

/-- A feed is handled by what the registry says about its events, one launch
taking its turn after the other. -/
structure LaunchedAsKnown (registry : Registry ρ) (startup : String) (x : ρ) (w : Rehearsal)
    (token : Nat → String) (events : List Event)
    (run : List Event → List Outcome × Runner (ρ × Rehearsal)) : Prop where
  /-- The registry is asked once about each machine that started running. -/
  asked : (run events).2.world.1 = consulted registry x events
  /-- Each event gets the calls of its own launch if it has one, in feed order. -/
  calls : (run events).2.world.2.calls = w.calls ++
    ((answers registry x events).mapIdx fun i answer => callsFor startup
      (turnAt (fun k => pidFile (token k)) w (answers registry x events) i) answer).flatten
  /-- A failure is what becomes of its own event. -/
  outcomes : (run events).1 = (answers registry x events).mapIdx fun i answer =>
    conclusion startup (turnAt (fun k => pidFile (token k)) w (answers registry x events) i) answer
  /-- The labels and container ids of events make no difference. -/
  unlabelled : ∀ events' : List Event,
    events'.map (fun e => (e.machine, e.kind)) = events.map (fun e => (e.machine, e.kind)) →
      run events' = run events

theorem feed_launches_as_known (registry : Registry ρ) (startup : String) (x : ρ)
    (w : Rehearsal) (token : Nat → String) (events : List Event) :
    LaunchedAsKnown registry startup x w token events
      ((rehearsed registry startup).run { world := (x, w), token }) := by
  obtain ⟨hasked, hcalls, houtcomes⟩ := run_rehearsed registry startup x w 0 token events
  simp only [Nat.zero_add] at hcalls houtcomes
  exact ⟨hasked, hcalls, houtcomes, fun _ => Launcher.run_congr _ _⟩

/-- A lookup, a session and a start fail one after another, and the launches
that follow get theirs. -/
example :
    let lost : Failure := .operationFailed "lost"
    let registry : Registry Unit :=
      .ofTable [("box", .ok { machine := "box", container := "9e1c", dev := true })]
    let w : Rehearsal := { creates := [.error lost, .ok "a", .ok "b"], starts := [.error lost] }
    let running := fun machine => { machine, kind := .running, dev := false, container := "" }
    ((rehearsed registry "serve").run { world := ((), w) }
        [running "gone", running "box", running "box", running "box"]).1 =
      [.lookupFailed (.notFound "gone"), .launchFailed lost, .launchFailed lost,
        .launched { container := "9e1c", command := "serve",
                    pidFile := some (pidFile (Exec.ordinalToken 2)) }] := rfl

end Machine

end DevMachine

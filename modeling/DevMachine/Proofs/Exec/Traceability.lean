import DevMachine.Exec.Runner
import Mathlib.Tactic.Common

/-!
# Launched processes are found again

A journal of a runner lists its requests with everything that was exchanged
with the runtime for them.  Every request runs one script at most.  What ties the
requests together is the pid file: each launch has one of its own, and its handle
leads later requests to that file in that container.
-/

namespace DevMachine.Exec

open Container (Failure)

inductive Exchange
  | create (container : String) (attach : Bool) (arguments : List String)
      (reply : Except Failure String)
  | start (exec : String) (detach : Bool) (reply : Except Failure Output)

/-- A runtime that also notes down what is exchanged with it. -/
def Backend.noted {σ : Type} (b : Backend σ) : Backend (σ × List Exchange) where
  create w container attach arguments :=
    let (reply, world) := b.create w.1 container attach arguments
    (reply, world, w.2 ++ [.create container attach arguments reply])
  start w exec detach :=
    let (reply, world) := b.start w.1 exec detach
    (reply, world, w.2 ++ [.start exec detach reply])

structure Script where
  container : String
  text : String
  attach : Bool

/-- The exchanges of running one script: a session of the shell is created for it, and
started once under the id that the runtime gave it if there is one. -/
inductive Script.Ran (s : Script) : List Exchange → Prop
  | refused (e : Failure) :
      s.Ran [.create s.container s.attach ["/bin/sh", "-c", s.text] (.error e)]
  | started (exec : String) (reply : Except Failure Output) :
      s.Ran [.create s.container s.attach ["/bin/sh", "-c", s.text] (.ok exec),
        .start exec (!s.attach) reply]

/-- The script leaves the number of its process in a file and goes on with a command. -/
def LeavesNumber (script path command : String) : Prop :=
  ∃ setup, script = setup ++ "echo $$>" ++ path ++ "; " ++ command

/-- The script signals the process whose number is in a file. -/
def SignalsNumber (script path : String) : Prop :=
  ∃ front options back, script = front ++ "kill " ++ options ++ "$(cat " ++ path ++ ")" ++ back

theorem leavesNumber_wrapCommand (path command : String) :
    LeavesNumber (wrapCommand path command) path command := by
  unfold wrapCommand
  simp only [toString]
  simp only [← String.append_assoc]
  exact ⟨_, rfl⟩

theorem signalsNumber_livenessProbe (path : String) :
    SignalsNumber (livenessProbe path) path := by
  have hkill : " ]; then kill -0 $(cat " = " ]; then " ++ "kill " ++ "-0 " ++ "$(cat " := by
    decide
  have hback : ") 2>&1; else echo \"no pid file " =
      ")" ++ " 2>&1; else echo \"no pid file " := by decide
  unfold livenessProbe
  simp only [toString]
  rw [hkill, hback]
  refine ⟨"if [ -r " ++ path ++ " ]; then ", "-0 ",
    " 2>&1; else echo \"no pid file " ++ path ++ "\"; fi", ?_⟩
  simp only [← String.append_assoc]

theorem signalsNumber_killCommand (path : String) : SignalsNumber (killCommand path) path := by
  have hkill : " ] && kill $(cat " = " ] && " ++ "kill " ++ "" ++ "$(cat " := by decide
  unfold killCommand
  simp only [toString]
  rw [hkill]
  refine ⟨"[ -r " ++ path ++ " ] && ", "", "", ?_⟩
  simp only [← String.append_assoc, String.append_empty]

/-- The failure of a whole output is the first one among its chunks. -/
def Output.failure? : Output → Option Failure
  | .detached => none
  | .attached chunks => chunks.findSome? fun
    | .error e => some e
    | .ok _ => none

/-- The failure that an exchange ends a request with.  The output counts where
it is forwarded. -/
def Exchange.failure? (attach : Bool) : Exchange → Option Failure
  | .create _ _ _ (.error e) => some e
  | .create _ _ _ (.ok _) => none
  | .start _ _ (.error e) => some e
  | .start _ _ (.ok output) => if attach then output.failure? else none

/-- The first failure among some exchanges, or a value where there is none. -/
def conclusion {α : Type} (attach : Bool) (exchanges : List Exchange) (value : α) :
    Except Failure α :=
  match exchanges.findSome? (Exchange.failure? attach) with
  | some e => .error e
  | none => .ok value

theorem map_conclusion {α β : Type} (f : α → β) (attach : Bool) (exchanges : List Exchange)
    (value : α) :
    (conclusion attach exchanges value).map f = conclusion attach exchanges (f value) := by
  unfold conclusion
  split <;> rfl

theorem forward_failure (buffer : Text.LineBuffer) (chunks : List (Except Failure Text.Octets)) :
    (forward buffer chunks).2 = (Output.attached chunks).failure? := by
  induction chunks generalizing buffer with
  | nil => rfl
  | cons chunk chunks ih =>
      cases chunk with
      | error e => rfl
      | ok octets => exact ih _

namespace Runner

variable {σ : Type}

/-- A runner whose runtime notes down what is exchanged from now on. -/
def noting (r : Runner σ) : Runner (σ × List Exchange) :=
  { world := (r.world, []), launched := r.launched, token := r.token }

def exchanges (r : Runner (σ × List Exchange)) : List Exchange := r.world.2

/-- The runner behind one whose runtime notes down what is exchanged. -/
def behind (r : Runner (σ × List Exchange)) : Runner σ :=
  { world := r.world.1, launched := r.launched, token := r.token }

theorem run_behind (b : Backend σ) (r : Runner (σ × List Exchange)) (container script : String)
    (attach : Bool) :
    r.behind.run b container script attach =
      ((r.run b.noted container script attach).1,
        (r.run b.noted container script attach).2.behind) := by
  cases hcreate : b.create r.world.1 container attach (shellArguments script) with
  | mk created world =>
      unfold run behind
      simp only [Backend.noted, hcreate]
      cases created with
      | error e => rfl
      | ok exec =>
          cases hstart : b.start world exec (!attach) with
          | mk started world' =>
              simp only [hstart]
              cases started with
              | error e => rfl
              | ok output =>
                  cases output with
                  | detached => rfl
                  | attached chunks => cases attach <;> rfl

/-- A run asks the runtime for its script only, and ends with the first
failure. -/
theorem run_noted (b : Backend σ) {r : Runner (σ × List Exchange)} (hr : r.exchanges = [])
    (s : Script) :
    s.Ran (r.run b.noted s.container s.text s.attach).2.exchanges ∧
      (r.run b.noted s.container s.text s.attach).1.result =
        conclusion s.attach (r.run b.noted s.container s.text s.attach).2.exchanges () := by
  obtain ⟨container, script, attach⟩ := s
  cases hcreate : b.create r.world.1 container attach (shellArguments script) with
  | mk created world =>
      have hcreated : b.noted.create r.world container attach (shellArguments script) =
          (created, world, [.create container attach (shellArguments script) created]) := by
        have hnotes : r.world.2 = [] := hr
        simp [Backend.noted, hcreate, hnotes]
      unfold run
      simp only [hcreated]
      cases created with
      | error e => exact ⟨.refused e, rfl⟩
      | ok exec =>
          cases hstart : b.start world exec (!attach) with
          | mk started world' =>
              have hstarted : ∀ notes, b.noted.start (world, notes) exec (!attach) =
                  (started, world', notes ++ [.start exec (!attach) started]) := by
                intro notes
                simp [Backend.noted, hstart]
              simp only [hstarted]
              cases started with
              | error e => exact ⟨.started exec _, rfl⟩
              | ok output =>
                  cases output with
                  | detached => cases attach <;> exact ⟨.started exec _, rfl⟩
                  | attached chunks =>
                      cases attach with
                      | false => exact ⟨.started exec _, rfl⟩
                      | true =>
                          refine ⟨.started exec _, ?_⟩
                          simp only [if_true, forward_failure]
                          simp only [exchanges, conclusion, List.cons_append, List.nil_append,
                            List.findSome?_cons, List.findSome?_nil, Exchange.failure?, if_true]
                          cases (Output.attached chunks).failure? <;> rfl

theorem run_supply (r : Runner σ) (b : Backend σ) (container script : String) (attach : Bool) :
    (r.run b container script attach).2.token = r.token ∧
      (r.run b container script attach).2.launched = r.launched := by
  fun_cases run r b container script attach <;> exact ⟨rfl, rfl⟩

end Runner

/-! ## Journals -/

inductive Request
  | start (container command : String) (attach : Bool)
  | isAlive (handle : Handle)
  | kill (handle : Handle)

inductive Answer
  | launched (result : Except Failure Handle)
  | alive (result : Except Failure Bool)
  | killed (result : Except Failure Unit)

structure Entry where
  request : Request
  exchanges : List Exchange
  answer : Answer

namespace Request

def isStart : Request → Bool
  | .start .. => true
  | _ => false

/-- The script that a request has run, given the pid file of a launch. -/
def script? (path : String) : Request → Option Script
  | .start container command attach => some { container, text := wrapCommand path command, attach }
  | .isAlive handle => handle.pidFile.map fun path =>
    { container := handle.container, text := livenessProbe path, attach := true }
  | .kill handle => handle.pidFile.map fun path =>
    { container := handle.container, text := killCommand path, attach := false }

end Request

/-- How many commands some requests launch. -/
def launches (requests : List Request) : Nat := requests.countP Request.isStart

theorem launches_cons (request : Request) (requests : List Request) :
    launches (request :: requests) = launches [request] + launches requests :=
  @List.countP_append _ Request.isStart [request] requests

theorem launches_take_le (requests : List Request) {i j : Nat} (hij : i ≤ j) :
    launches (requests.take i) ≤ launches (requests.take j) :=
  (List.take_sublist_take_left hij).countP_le

theorem launches_take_lt {requests : List Request} {i : Nat} {request : Request}
    (hi : requests[i]? = some request) (hstart : request.isStart = true) :
    launches (requests.take i) < launches (requests.take (i + 1)) := by
  rw [List.take_add_one, hi, launches, launches, List.countP_append]
  simp [hstart]

namespace Runner

variable {σ : Type}

def serve (r : Runner σ) (b : Backend σ) : Request → Answer × Runner σ
  | .start container command attach =>
    let (outcome, r) := r.start b container command attach
    (.launched outcome.result, r)
  | .isAlive handle =>
    let (result, r) := r.isAlive b handle
    (.alive result, r)
  | .kill handle =>
    let (result, r) := r.kill b handle
    (.killed result, r)

/-- The entry of one request: what is exchanged for it and what it is
answered. -/
def entry (r : Runner σ) (b : Backend σ) (request : Request) : Entry where
  request := request
  exchanges := (r.noting.serve b.noted request).2.exchanges
  answer := (r.serve b request).1

def journal (r : Runner σ) (b : Backend σ) : List Request → List Entry
  | [] => []
  | request :: requests => r.entry b request :: (r.serve b request).2.journal b requests

/-- The pid file of the next launch is named by the next token of the supply. -/
def nextPath (r : Runner σ) : String := pidFile (r.token r.launched)

variable (r : Runner σ) (b : Backend σ)

theorem serve_of_script {request : Request} {s : Script}
    (hs : request.script? r.nextPath = some s) :
    (r.serve b request).2 =
      (run { r with launched := r.launched + launches [request] } b s.container s.text
        s.attach).2 := by
  cases request with
  | start container command attach =>
      cases hs
      rfl
  | isAlive handle =>
      obtain ⟨path, hpath, rfl⟩ := Option.map_eq_some_iff.mp hs
      simp only [serve, isAlive, hpath]
      rfl
  | kill handle =>
      obtain ⟨path, hpath, rfl⟩ := Option.map_eq_some_iff.mp hs
      simp only [serve, kill, hpath]
      rfl

theorem serve_of_no_script {request : Request} (hs : request.script? r.nextPath = none) :
    (r.serve b request).2 = r ∧ launches [request] = 0 := by
  cases request with
  | start container command attach => cases hs
  | isAlive handle =>
      have hpath := Option.map_eq_none_iff.mp hs
      refine ⟨?_, rfl⟩
      simp only [serve, isAlive, hpath]
  | kill handle =>
      have hpath := Option.map_eq_none_iff.mp hs
      refine ⟨?_, rfl⟩
      simp only [serve, kill, hpath]

theorem serve_supply (request : Request) :
    (r.serve b request).2.token = r.token ∧
      (r.serve b request).2.launched = r.launched + launches [request] := by
  cases hs : request.script? r.nextPath with
  | none =>
      obtain ⟨hsame, hnone⟩ := r.serve_of_no_script b hs
      rw [hsame, hnone]
      exact ⟨rfl, rfl⟩
  | some s =>
      rw [r.serve_of_script b hs]
      exact run_supply _ b s.container s.text s.attach

theorem exchanges_of_script {request : Request} {s : Script}
    (hs : request.script? r.nextPath = some s) : s.Ran (r.entry b request).exchanges := by
  unfold entry
  rw [r.noting.serve_of_script b.noted hs]
  exact (run_noted b rfl s).1

theorem exchanges_of_no_script {request : Request} (hs : request.script? r.nextPath = none) :
    (r.entry b request).exchanges = [] := by
  unfold entry
  rw [(r.noting.serve_of_no_script b.noted hs).1]
  rfl

/-- A launch hands out a handle of its pid file unless something failed. -/
theorem answer_start (container command : String) (attach : Bool) :
    (r.entry b (.start container command attach)).answer =
      .launched (conclusion attach (r.entry b (.start container command attach)).exchanges
        { container, command, pidFile := some r.nextPath }) := by
  let noting : Runner (σ × List Exchange) := { r.noting with launched := r.launched + 1 }
  let script : Script := { container, text := wrapCommand r.nextPath command, attach }
  have hanswer : (r.entry b (.start container command attach)).answer =
      .launched ((noting.behind.run b container script.text attach).1.result.map
        fun _ => { container, command, pidFile := some r.nextPath }) := rfl
  have hrun := (run_noted b (r := noting) rfl script).2
  rw [hanswer, run_behind, hrun, map_conclusion]
  rfl

theorem requests_journal (requests : List Request) :
    (r.journal b requests).map Entry.request = requests := by
  induction requests generalizing r with
  | nil => rfl
  | cons request requests ih => exact congrArg (request :: ·) (ih _)

theorem entry_of_journal {requests : List Request} {i : Nat} {e : Entry}
    (he : (r.journal b requests)[i]? = some e) :
    ∃ r' : Runner σ, e = r'.entry b e.request ∧
      r'.nextPath = pidFile (r.token (r.launched + launches (requests.take i))) := by
  -- the runner of a later entry is the one that the earlier requests leave behind
  induction requests generalizing r i with
  | nil => cases he
  | cons request requests ih =>
      cases i with
      | zero =>
          obtain rfl : r.entry b request = e := by simpa [journal] using he
          exact ⟨r, rfl, rfl⟩
      | succ i =>
          have he' : ((r.serve b request).2.journal b requests)[i]? = some e := by
            simpa [journal] using he
          obtain ⟨r', hentry, hpath⟩ := ih (r.serve b request).2 he'
          obtain ⟨htoken, hlaunched⟩ := r.serve_supply b request
          refine ⟨r', hentry, ?_⟩
          rw [hpath, htoken, hlaunched, List.take_succ_cons,
            launches_cons request (requests.take i), Nat.add_assoc]

end Runner

/-! ## Traceability -/

theorem pidFile_injective {token token' : String} (h : pidFile token = pidFile token') :
    token = token' :=
  (String.append_right_inj _).mp ((String.append_left_inj _).mp h)

/-- The pid file of the launch at a position is named by how many there were
before. -/
def launchPath (token : Nat → String) (requests : List Request) (i : Nat) : String :=
  pidFile (token (launches (requests.take i)))

theorem launchPath_injective {token : Nat → String} {requests : List Request}
    (htoken : ∀ k < launches requests, ∀ l < launches requests, token k = token l → k = l)
    {i j : Nat} {request request' : Request} (hi : requests[i]? = some request)
    (hstart : request.isStart = true) (hj : requests[j]? = some request')
    (hstart' : request'.isStart = true)
    (hpath : launchPath token requests i = launchPath token requests j) : i = j := by
  have hlt := launches_take_lt hi hstart
  have hlt' := launches_take_lt hj hstart'
  have hwhole : ∀ k, launches (requests.take k) ≤ launches requests := fun k =>
    (List.take_sublist k requests).countP_le
  have heq := htoken _ (Nat.lt_of_lt_of_le hlt (hwhole _)) _
    (Nat.lt_of_lt_of_le hlt' (hwhole _)) (pidFile_injective hpath)
  -- of two launches the later one has counted the earlier one
  rcases Nat.lt_trichotomy i j with hij | hij | hij
  · have hle : launches (requests.take (i + 1)) ≤ launches (requests.take j) :=
      launches_take_le requests hij
    omega
  · exact hij
  · have hle : launches (requests.take (j + 1)) ≤ launches (requests.take i) :=
      launches_take_le requests hij
    omega

/-- A journal in which the launch at each position has a given pid file and
every process can be traced by it. -/
structure Traceable (requests : List Request) (path : Nat → String) (journal : List Entry) :
    Prop where
  /-- Every request has its entry, in order. -/
  complete : journal.map Entry.request = requests
  /-- No two launches share a pid file. -/
  own : ∀ (i j : Nat) (request request' : Request), requests[i]? = some request →
    request.isStart = true → requests[j]? = some request' → request'.isStart = true →
      path i = path j → i = j
  /-- A launch runs its command, wrapped with its pid file, in its container. -/
  launched : ∀ (i : Nat) (e : Entry) (container command : String) (attach : Bool),
    journal[i]? = some e → e.request = .start container command attach →
      Script.Ran ⟨container, wrapCommand (path i) command, attach⟩ e.exchanges
  /-- It hands out a handle unless something failed; then it tells the first
  failure. -/
  answered : ∀ (i : Nat) (e : Entry) (container command : String) (attach : Bool),
    journal[i]? = some e → e.request = .start container command attach →
      e.answer = .launched (conclusion attach e.exchanges
        { container, command, pidFile := some (path i) })
  /-- A probe of that handle asks for the same pid file in the same container. -/
  probed : ∀ (i j : Nat) (e e' : Entry) (container command : String) (attach : Bool)
    (handle : Handle), journal[i]? = some e → e.request = .start container command attach →
      e.answer = .launched (.ok handle) → journal[j]? = some e' → e'.request = .isAlive handle →
        Script.Ran ⟨container, livenessProbe (path i), true⟩ e'.exchanges
  /-- So does a kill. -/
  killed : ∀ (i j : Nat) (e e' : Entry) (container command : String) (attach : Bool)
    (handle : Handle), journal[i]? = some e → e.request = .start container command attach →
      e.answer = .launched (.ok handle) → journal[j]? = some e' → e'.request = .kill handle →
        Script.Ran ⟨container, killCommand (path i), false⟩ e'.exchanges
  /-- All three scripts mean the same file: the launch leaves the number of its process there,
  and the probe and the kill signal that process. -/
  sameFile : ∀ (i : Nat) (command : String),
    LeavesNumber (wrapCommand (path i) command) (path i) command ∧
      SignalsNumber (livenessProbe (path i)) (path i) ∧
        SignalsNumber (killCommand (path i)) (path i)
  /-- A handle of nothing asks the runtime for nothing. -/
  unstarted : ∀ e ∈ journal, ∀ handle : Handle, handle.pidFile = none →
    e.request = .isAlive handle ∨ e.request = .kill handle → e.exchanges = []

section Journal

variable {σ : Type} (b : Backend σ) (world : σ) (token : Nat → String) {requests : List Request}
  {i : Nat} {e : Entry} {container command : String} {attach : Bool}

theorem journal_entry (he : (Runner.journal { world, token } b requests)[i]? = some e) :
    ∃ r : Runner σ, e = r.entry b e.request ∧ r.nextPath = launchPath token requests i := by
  obtain ⟨r, hr, hpath⟩ := Runner.entry_of_journal _ b he
  exact ⟨r, hr, by simpa [launchPath] using hpath⟩

theorem journal_answer (he : (Runner.journal { world, token } b requests)[i]? = some e)
    (hrequest : e.request = .start container command attach) :
    e.answer = .launched (conclusion attach e.exchanges
      { container, command, pidFile := some (launchPath token requests i) }) := by
  obtain ⟨r, hr, hpath⟩ := journal_entry b world token he
  rw [← hpath, hr, hrequest]
  exact r.answer_start b container command attach

theorem journal_handle (he : (Runner.journal { world, token } b requests)[i]? = some e)
    (hrequest : e.request = .start container command attach) {handle : Handle}
    (hanswer : e.answer = .launched (.ok handle)) :
    handle = { container, command, pidFile := some (launchPath token requests i) } := by
  rw [journal_answer b world token he hrequest, Answer.launched.injEq, conclusion] at hanswer
  split at hanswer
  · cases hanswer
  · exact (Except.ok.inj hanswer).symm

theorem journal_script (he : (Runner.journal { world, token } b requests)[i]? = some e)
    {s : Script} (hs : e.request.script? (launchPath token requests i) = some s) :
    s.Ran e.exchanges := by
  obtain ⟨r, hr, hpath⟩ := journal_entry b world token he
  rw [hr]
  exact r.exchanges_of_script b (hpath ▸ hs)

end Journal

/-- Whatever is asked of a runner and whatever its runtime replies, every
launched process can be traced by its handle, as long as the supply of tokens
does not repeat itself. -/
theorem launches_are_traceable {σ : Type} (b : Backend σ) (world : σ) (token : Nat → String)
    (requests : List Request)
    (htoken : ∀ k < launches requests, ∀ l < launches requests, token k = token l → k = l) :
    Traceable requests (launchPath token requests)
      (Runner.journal { world, token } b requests) := by
  constructor
  · exact Runner.requests_journal _ b requests
  · exact fun i j request request' => launchPath_injective htoken
  · intro i e container command attach he hrequest
    exact journal_script b world token he (by rw [hrequest]; rfl)
  · exact fun i e container command attach => journal_answer b world token
  · intro i j e e' container command attach handle he hrequest hanswer he' hrequest'
    obtain rfl := journal_handle b world token he hrequest hanswer
    exact journal_script b world token he' (by rw [hrequest']; rfl)
  · intro i j e e' container command attach handle he hrequest hanswer he' hrequest'
    obtain rfl := journal_handle b world token he hrequest hanswer
    exact journal_script b world token he' (by rw [hrequest']; rfl)
  · exact fun i command => ⟨leavesNumber_wrapCommand _ command, signalsNumber_livenessProbe _,
      signalsNumber_killCommand _⟩
  · intro e he handle hpath hrequest
    obtain ⟨i, hi⟩ := List.mem_iff_getElem?.mp he
    obtain ⟨r, hr, -⟩ := journal_entry b world token hi
    rw [hr]
    apply r.exchanges_of_no_script b
    rcases hrequest with hrequest | hrequest
    · simp [hrequest, Request.script?, hpath]
    · simp [hrequest, Request.script?, hpath]

/-- A forwarded launch whose output breaks off, a detached one that is probed
and killed, and a handle of nothing. -/
theorem launches_are_traceable_past_failure :
    let lost : Failure := .operationFailed "lost"
    let world : Rehearsal :=
      { creates := [.ok "exec-1", .ok "exec-2"]
        starts := [.ok (.attached [.ok [0x61, 0x0a], .error lost]), .ok .detached] }
    let handle : Handle :=
      { container := "box", command := "serve", pidFile := some (pidFile (ordinalToken 1)) }
    let requests : List Request :=
      [.start "box" "build" true, .start "box" "serve" false, .isAlive handle, .kill handle,
        .isAlive (.unstarted "box" "serve")]
    let journal := Runner.journal { world } Rehearsal.backend requests
    (∀ k < launches requests, ∀ l < launches requests,
        ordinalToken k = ordinalToken l → k = l) ∧
      journal.map Entry.answer =
        [.launched (.error lost), .launched (.ok handle), .alive (.ok true), .killed (.ok ()),
          .alive (.ok false)] ∧
      Traceable requests (launchPath ordinalToken requests) journal := by
  intro lost world handle requests journal
  have htoken : ∀ k < launches requests, ∀ l < launches requests,
      ordinalToken k = ordinalToken l → k = l := by decide +kernel
  exact ⟨htoken, rfl, launches_are_traceable Rehearsal.backend world ordinalToken requests htoken⟩

end DevMachine.Exec

import DevMachine.Proofs.Channel.Bus
import DevMachine.Proofs.Connection.Incidents

/-!
# What lasts over runs

A run is made of a few kinds of happenings, and besides them of calls on the buses
and of the steps that give a driver up.  A property that the first kinds keep is
stable; it holds after a run if it did before and the remaining steps of the run keep
it as well.
-/

namespace DevMachine.Connection

open Channel (Bus Failure)

structure Stable (P : Connection → Prop) : Prop where
  happens : ∀ {c c' : Connection} {incident : Incident}, Happens c incident c' →
    incident ≠ .abandoned → P c → P c'
  begins : ∀ {c : Connection} {url : String} {phase : Phase}, c.driver = some { url, phase } →
    c.situation.Begins phase → P c → P (c.beginAttempt url)
  waits : ∀ {c : Connection} (clock : Nat) (ready : List Wake) (lingering : List (Option Nat)),
    P c → P { c with clock, ready, lingering }
  asks : ∀ {c : Connection}, P c → P c.request.2
  ends : ∀ {c : Connection} (k : Nat) (ending : Option Failure), P c → P (c.endLink k ending)

/-- The call on the bus of a link that a step makes. -/
def Step.call? : Step → Option (Nat × Bus.Operation)
  | .subscribe k channel => some (k, .subscribe channel)
  | .dispatch k frame => some (k, .dispatch frame)
  | .next k id => some (k, .next id)
  | _ => none

def call (c : Connection) (k : Nat) (op : Bus.Operation) : Connection :=
  c.updateBus k fun b => b.perform op

variable {P : Connection → Prop} {c c' : Connection}

theorem updateBus_const (c : Connection) (k : Nat) (f : Bus → Bus) :
    (c.updateBus k fun _ => f (c.busOf k)) = c.updateBus k f := by
  unfold updateBus busOf
  congr 1
  apply List.ext_getElem?
  intro j
  by_cases hj : k = j
  · subst hj
    cases hlink : c.links[k]? <;> simp [hlink]
  · simp [hj]

theorem perform_of_call? {st : Step} {k : Nat} {op : Bus.Operation}
    (hcall : st.call? = some (k, op)) : (c.perform st).2 = c.call k op := by
  cases st with
  | subscribe j channel =>
      cases hcall
      exact updateBus_const c k fun b => (b.subscribe channel).2
  | dispatch j frame =>
      cases hcall
      rfl
  | next j id =>
      cases hcall
      exact updateBus_const c k fun b => (b.next id).2
  | _ => cases hcall

theorem Stable.move (hP : Stable P) (hmove : c.move? = some c') (h : P c) : P c' := by
  rcases move_cases hmove with ⟨incident, hkept, hhappens⟩ | ⟨url, phase, hdriver, hbegins, rfl⟩
  · exact hP.happens hhappens hkept h
  · exact hP.begins hdriver hbegins h

theorem Stable.moves (hP : Stable P) (fuel : Nat) (h : P c) : P (moves fuel c) := by
  induction fuel generalizing c with
  | zero => exact h
  | succ fuel ih =>
      simp only [Connection.moves]
      cases hmove : c.move? with
      | none => exact h
      | some c' => exact ih (hP.move hmove h)

theorem Stable.drive (hP : Stable P) (h : P c) : P c.drive := hP.moves c.rank h

theorem Stable.serve (hP : Stable P) (i : Nat) (h : P c) : P (c.serve i) := by
  by_cases hasked : c.requests[i]? = some .asked
  · exact hP.happens (.made hasked) (by simp) h
  · rwa [serve_of_not_asked hasked]

theorem Stable.turns (hP : Stable P) (wakes : List Wake) (h : P c) : P (wakes.foldl turn c) := by
  induction wakes generalizing c with
  | nil => exact h
  | cons w wakes ih =>
      cases w with
      | driver => exact ih (hP.drive h)
      | request i => exact ih (hP.serve i h)

theorem Stable.settle (hP : Stable P) (h : P c) : P c.settle := by
  have hturned := hP.turns c.ready (hP.waits c.clock [] c.lingering h)
  exact hP.waits _ _ [] hturned

theorem Stable.passUntil (hP : Stable P) (target fuel : Nat) (h : P c) :
    P (passUntil target fuel c) := by
  induction fuel generalizing c with
  | zero => exact h
  | succ fuel ih =>
      simp only [Connection.passUntil]
      cases hnext : c.nextDue? with
      | none => exact h
      | some t =>
          dsimp only
          split
          · exact ih (hP.drive (hP.waits (max c.clock t) c.ready c.lingering h))
          · exact h

theorem Stable.sleep (hP : Stable P) (duration : Nat) (h : P c) : P (c.sleep duration) :=
  hP.waits _ _ _ (hP.passUntil _ _ (hP.settle h))

theorem Stable.cancel (hP : Stable P) (i : Nat) (h : P c) : P (c.cancel i) := by
  by_cases hmade : i < c.requests.length
  · exact hP.happens (.cancelled hmade) (by simp) h
  · have hsame : c.cancel i = c := by
      unfold Connection.cancel
      rw [List.modify_eq_self (by omega)]
    rwa [hsame]

theorem Stable.perform (hP : Stable P) {st : Step} (hst : st.Continues)
    (hcall : st.call? = none) (h : P c) : P (c.perform st).2 := by
  cases st with
  | request => exact hP.asks h
  | cancel i => exact hP.cancel i h
  | closeLink k failure => exact hP.ends k failure h
  | dropLink k => exact hP.ends k (some .closed) h
  | sleep duration => exact hP.sleep duration h
  | settle => exact hP.settle h
  | connect url => exact hst.elim
  | close => exact hst.elim
  | dropController => exact hst.elim
  | _ => cases hcall

theorem Stable.step_of_perform (hP : Stable P) (queued : Bool) {st : Step}
    (h : P (c.perform st).2) : P (c.step queued st).2 := by
  cases queued with
  | true => exact h
  | false => exact hP.settle h

theorem Stable.perform_any (hP : Stable P)
    (hcalls : ∀ {c : Connection} k op, P c → P (c.call k op)) {st : Step}
    (hgives : ¬ st.Continues → P (c.perform st).2) (h : P c) : P (c.perform st).2 := by
  by_cases hst : st.Continues
  · cases hcall : st.call? with
    | none => exact hP.perform hst hcall h
    | some call =>
        obtain ⟨k, op⟩ := call
        rw [perform_of_call? hcall]
        exact hcalls k op h
  · exact hgives hst

/-- A stable property that no call breaks lasts, provided that the steps by
which drivers are given up do not break it either. -/
theorem Stable.run (hP : Stable P) (hcalls : ∀ {c : Connection} k op, P c → P (c.call k op))
    {steps : List (Bool × Step)}
    (hgives : ∀ entry ∈ steps, ¬ entry.2.Continues → ∀ c, P c → P (c.perform entry.2).2)
    (h : P c) : P (c.run steps) := by
  induction steps generalizing c with
  | nil => exact h
  | cons entry steps ih =>
      obtain ⟨queued, st⟩ := entry
      have hperformed : P (c.perform st).2 :=
        hP.perform_any hcalls (fun hst => hgives (queued, st) List.mem_cons_self hst c h) h
      exact ih (fun entry hentry => hgives entry (List.mem_cons_of_mem _ hentry))
        (hP.step_of_perform queued hperformed)

theorem stable_course (script : List Attempt) : Stable fun c => ∃ log, Course script log c where
  happens := by
    rintro c c' incident hhappens - ⟨log, hcourse⟩
    have hanswers := congrArg Desk.answers hhappens.desk_eq.2
    rw [Desk.answers_after] at hanswers
    exact ⟨_, hcourse.happens hhappens hanswers⟩
  begins := by
    rintro c url phase hdriver hbegins ⟨log, hcourse⟩
    exact ⟨log, hcourse.aside (.begins url (watched?_of_begins hdriver hbegins))⟩
  waits := by
    rintro c clock ready lingering ⟨log, hcourse⟩
    exact ⟨log, hcourse.aside (.waits clock ready lingering)⟩
  asks := by
    rintro c ⟨log, hcourse⟩
    exact ⟨log, hcourse.asks⟩
  ends := by
    rintro c k ending ⟨log, hcourse⟩
    exact ⟨log, hcourse.aside (.ends k ending)⟩

/-- Whatever leads to the one connection can go on to the other. -/
def Passes (c c' : Connection) : Prop :=
  ∀ ⦃script : List Attempt⦄ ⦃log : List LogEntry⦄, Course script log c →
    ∃ log', Course script log' c'

theorem passes_run {steps : List (Bool × Step)}
    (hsteps : ∀ entry ∈ steps, entry.2 ≠ .dropController) (c : Connection) :
    Passes c (c.run steps) := by
  intro script log hcourse
  refine (stable_course script).run ?_ ?_ ⟨log, hcourse⟩
  · rintro c k op ⟨log, hcourse⟩
    exact ⟨log, hcourse.aside (.uses k fun b => b.perform op)⟩
  · rintro ⟨queued, st⟩ hentry hst c ⟨log, hcourse⟩
    have habandoned {c' : Connection} (h : Happens c .abandoned c') :
        ∃ log, Course script log c' := by
      have hanswers := congrArg Desk.answers h.desk_eq.2
      rw [Desk.answers_after] at hanswers
      exact ⟨_, hcourse.happens h hanswers⟩
    cases st with
    | connect url => exact habandoned (.connects url)
    | close => exact habandoned .closes
    | dropController => exact absurd rfl (hsteps _ hentry)
    | _ => exact (hst trivial).elim

theorem course_run (script : List Attempt) {steps : List (Bool × Step)}
    (hsteps : ∀ entry ∈ steps, entry.2 ≠ .dropController) :
    ∃ log, Course script log (run { script } steps) :=
  passes_run hsteps { script } .start

end DevMachine.Connection

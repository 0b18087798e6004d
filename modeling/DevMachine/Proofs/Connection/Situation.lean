import DevMachine.Connection.Step
import Mathlib.Logic.Relation
import Mathlib.Tactic.Common

/-!
# The situation of the driver

How the driver goes on depends on a part of the connection only: the clock,
the script, the retries left, what the driver is doing and the ends of the
links.  Requests, buses and the waiting place have no influence on it.  This
file names that part, together with what the driver has told so far, and lists
the ways in which it can change.
-/

namespace DevMachine.Connection

open Channel (Failure)

/-- Whether an occurrence is the driver's own, not an answer to a request. -/
def Occurrence.isTold : Occurrence → Bool
  | .answer .. => false
  | _ => true

def told (c : Connection) : List (Nat × Occurrence) := c.history.filter (·.2.isTold)

def Link.bare (l : Link) : Link := { l with bus := {} }

/-- A link that the endpoint ends.  The first end counts. -/
def Link.endedBy (ending : Option Failure) (l : Link) : Link :=
  { l with farEnd := l.farEnd.or (some ending) }

structure Situation where
  clock : Nat
  script : List Attempt
  retries : Nat
  driver : Option Driver
  links : List Link
  told : List (Nat × Occurrence)

def situation (c : Connection) : Situation where
  clock := c.clock
  script := c.script
  retries := c.retries
  driver := c.driver
  links := c.links.map Link.bare
  told := c.told

namespace Situation

def tell (s : Situation) (o : Occurrence) : Situation :=
  { s with told := s.told ++ [(s.clock, o)] }

def enter (s : Situation) (phase : Phase) : Situation :=
  { s with driver := s.driver.map fun d => { d with phase } }

def began (s : Situation) (url : String) : Situation :=
  let attempt := s.script.headD {}
  ({ s with script := s.script.tail }.tell (.attempt url)).enter
    (.opening attempt.opening (s.clock + attempt.delay))

def opened (s : Situation) (fading : Option Fading) : Situation :=
  let link : Link := { fadesAt := fading.map fun f => (s.clock + f.after, f.failure) }
  ({ s with links := s.links ++ [link] }.tell (.notice .started)).enter (.linked s.links.length)

def closed (s : Situation) : Situation := (s.tell (.notice .stopped)).enter .finished

def failed (s : Situation) (cause : Failure) : Situation :=
  if s.retries = 0 then (s.tell (.notice (.stoppedOnError cause))).enter .finished
  else
    ({ s with retries := s.retries - 1 }.tell (.notice (.reconnecting (s.retries - 1)))).enter
      (.pausing (s.clock + retryDelay))

end Situation

def Opening.failure? (url : String) : Opening → Option Failure
  | .fails failure => some failure
  | .refused => some (.connect url "connection refused")
  | .opens _ | .hangs => none

namespace Situation

/-- The driver stands before its next attempt. -/
def Begins (s : Situation) : Phase → Prop
  | .fresh => True
  | .pausing due => due ≤ s.clock
  | _ => False

/-- What the driver waits for has failed. -/
def Fails (s : Situation) (url : String) (cause : Failure) : Phase → Prop
  | .opening opening due => due ≤ s.clock ∧ opening.failure? url = some cause
  | .linked k => ∃ l, s.links[k]? = some l ∧ l.ended? s.clock = some (some cause)
  | _ => False

/-- What the driver can do without waiting. -/
inductive Move (s : Situation) : Situation → Prop
  | begins {url : String} {phase : Phase} (hdriver : s.driver = some { url, phase })
      (hphase : s.Begins phase) : Move s (s.began url)
  | opens {url : String} {fading : Option Fading} {due : Nat}
      (hdriver : s.driver = some { url, phase := .opening (.opens fading) due })
      (hdue : due ≤ s.clock) : Move s (s.opened fading)
  | closes {url : String} {k : Nat} {l : Link}
      (hdriver : s.driver = some { url, phase := .linked k })
      (hlink : s.links[k]? = some l) (hended : l.ended? s.clock = some none) : Move s s.closed
  | fails {url : String} {phase : Phase} {cause : Failure}
      (hdriver : s.driver = some { url, phase }) (hfails : s.Fails url cause phase) :
      Move s (s.failed cause)

/-- The driver has to wait. -/
def Quiet (s : Situation) : Prop := ∀ s', ¬ s.Move s'

/-- The time at which the driver goes on by itself. -/
def nextDue? (s : Situation) : Option Nat := do
  match (← s.driver).phase with
  | .opening .hangs _ => none
  | .opening _ due | .pausing due => some due
  | .linked k => return (← (← s.links[k]?).fadesAt).1
  | .fresh | .finished => none

/-- How a situation changes as long as the driver is not given up: it makes a
move, time passes while it has to wait, up to its due time at most, or the
endpoint ends a link. -/
inductive Change (s : Situation) : Situation → Prop
  | move {s' : Situation} (hmove : s.Move s') : Change s s'
  | wait {t : Nat} (hquiet : s.Quiet) (hle : s.clock ≤ t)
      (hdue : ∀ due, s.nextDue? = some due → t ≤ max s.clock due) :
      Change s { s with clock := t }
  | farEnd (k : Nat) (ending : Option Failure) :
      Change s { s with links := s.links.modify k (Link.endedBy ending) }

def Leads : Situation → Situation → Prop := Relation.ReflTransGen Change

end Situation

variable (c : Connection)

@[simp] theorem situation_record_notice (n : Notice) :
    (c.record (.notice n)).situation = c.situation.tell (.notice n) := by
  simp [situation, Situation.tell, record, told, Occurrence.isTold]

@[simp] theorem situation_record_attempt (url : String) :
    (c.record (.attempt url)).situation = c.situation.tell (.attempt url) := by
  simp [situation, Situation.tell, record, told, Occurrence.isTold]

@[simp] theorem situation_record_answer (i : Nat) (a : Answer) :
    (c.record (.answer i a)).situation = c.situation := by
  simp [situation, record, told, Occurrence.isTold]

@[simp] theorem situation_setPhase (phase : Phase) :
    (c.setPhase phase).situation = c.situation.enter phase := rfl

@[simp] theorem situation_answer (i : Nat) (a : Answer) :
    (c.answer i a).situation = c.situation := by
  unfold answer
  split
  · rw [situation_record_answer]
    rfl
  · rfl

@[simp] theorem situation_answerWaiter (a : Answer) :
    (c.answerWaiter a).situation = c.situation := by
  unfold answerWaiter
  split
  · rw [situation_answer]
    rfl
  · rfl

theorem situation_beginAttempt (url : String) :
    (c.beginAttempt url).situation = c.situation.began url := by
  simp only [beginAttempt, Situation.began, situation_setPhase, situation_record_attempt]
  rfl

theorem situation_linkOpened (fading : Option Fading) :
    (c.linkOpened fading).situation = c.situation.opened fading := by
  simp only [linkOpened, Situation.opened, situation_setPhase, situation_record_notice,
    situation_answerWaiter]
  simp [situation, Link.bare, told]

theorem situation_linkClosed : c.linkClosed.situation = c.situation.closed := by
  simp only [linkClosed, Situation.closed, situation_setPhase, situation_record_notice]
  rfl

theorem situation_failed (cause : Failure) :
    (c.failed cause).situation = c.situation.failed cause := by
  simp only [failed, Situation.failed]
  have hretries : c.situation.retries = c.retries := rfl
  rw [hretries]
  split
  · simp only [situation_setPhase, situation_record_notice, situation_answerWaiter]
    rfl
  · simp only [situation_setPhase, situation_record_notice]
    rfl

theorem situation_links_getElem? (k : Nat) :
    c.situation.links[k]? = (c.links[k]?).map Link.bare := by
  simp [situation]

theorem move_of_move? {c c' : Connection} (h : c.move? = some c') :
    c.situation.Move c'.situation := by
  unfold move? at h
  cases hdriver : c.driver with
  | none => simp [hdriver] at h
  | some driver =>
      obtain ⟨url, phase⟩ := driver
      have hsituation : c.situation.driver = some { url, phase } := hdriver
      simp only [hdriver, Option.bind_eq_bind, Option.bind_some] at h
      cases phase with
      | fresh =>
          simp only [Option.some.injEq] at h
          rw [← h, situation_beginAttempt]
          exact .begins hsituation trivial
      | opening opening due =>
          simp only [Option.ite_none_right_eq_some] at h
          obtain ⟨hdue, h⟩ := h
          cases opening with
          | opens fading =>
              simp only [openingEnded, Option.some.injEq] at h
              rw [← h, situation_linkOpened]
              exact .opens hsituation hdue
          | fails cause =>
              simp only [openingEnded, Option.some.injEq] at h
              rw [← h, situation_failed]
              exact .fails hsituation ⟨hdue, rfl⟩
          | refused =>
              simp only [openingEnded, Option.some.injEq] at h
              rw [← h, situation_failed]
              exact .fails hsituation ⟨hdue, rfl⟩
          | hangs => simp [openingEnded] at h
      | linked k =>
          cases hlink : c.links[k]? with
          | none => simp [hlink] at h
          | some l =>
              have hbare : c.situation.links[k]? = some l.bare := by
                rw [situation_links_getElem?, hlink]
                rfl
              cases hended : l.ended? c.clock with
              | none => simp [hlink, hended] at h
              | some ending =>
                  cases ending with
                  | none =>
                      simp only [hlink, hended, Option.bind_some, Option.some.injEq] at h
                      rw [← h, situation_linkClosed]
                      exact .closes hsituation hbare hended
                  | some cause =>
                      have hsame :
                          c.situation =
                            situation { c with bus := none, driver := some ⟨url, .linked k⟩ } := by
                        simp [situation, told, hdriver]
                      simp only [hlink, hended, Option.bind_some, Option.some.injEq] at h
                      rw [← h, situation_failed, ← hsame]
                      exact .fails hsituation ⟨l.bare, hbare, hended⟩
      | pausing due =>
          simp only [Option.ite_none_right_eq_some, Option.some.injEq] at h
          rw [← h.2, situation_beginAttempt]
          exact .begins hsituation h.1
      | finished => simp at h

theorem quiet_of_move?_eq_none {c : Connection} (h : c.move? = none) : c.situation.Quiet := by
  intro s' hmove
  unfold move? at h
  cases hmove with
  | @begins url phase hdriver hphase =>
      replace hdriver : c.driver = some { url, phase } := hdriver
      simp only [hdriver, Option.bind_eq_bind, Option.bind_some] at h
      cases phase with
      | fresh => simp at h
      | pausing due =>
          have hdue : due ≤ c.clock := hphase
          simp [hdue] at h
      | _ => exact hphase
  | @opens url fading due hdriver hdue =>
      replace hdriver : c.driver = some { url, phase := .opening (.opens fading) due } := hdriver
      have hdue : due ≤ c.clock := hdue
      simp [hdriver, hdue, openingEnded] at h
  | @closes url k l hdriver hlink hended =>
      replace hdriver : c.driver = some { url, phase := .linked k } := hdriver
      rw [situation_links_getElem?, Option.map_eq_some_iff] at hlink
      obtain ⟨l, hlink, rfl⟩ := hlink
      have hended : l.ended? c.clock = some none := hended
      simp [hdriver, hlink, hended] at h
  | @fails url phase cause hdriver hfails =>
      replace hdriver : c.driver = some { url, phase } := hdriver
      simp only [hdriver, Option.bind_eq_bind, Option.bind_some] at h
      cases phase with
      | opening opening due =>
          obtain ⟨hdue, hopening⟩ := hfails
          have hdue : due ≤ c.clock := hdue
          cases opening <;> simp_all [Opening.failure?, openingEnded]
      | linked k =>
          obtain ⟨l, hlink, hended⟩ := hfails
          rw [situation_links_getElem?, Option.map_eq_some_iff] at hlink
          obtain ⟨l, hlink, rfl⟩ := hlink
          have hended : l.ended? c.clock = some (some cause) := hended
          simp [hlink, hended] at h
      | _ => exact hfails

end DevMachine.Connection

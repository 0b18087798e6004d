import DevMachine.Proofs.Connection.Steps

/-!
# Incidents

What becomes of the requests for the bus depends on a few kinds of incidents.  The
desk is the part of a connection on which the answers depend, and each incident
changes it in one way.  A course is a sequence of incidents in any order that the
connection admits; its log says which requests each incident resolved.
-/

namespace DevMachine.Connection

open Channel (Bus Failure)

inductive Incident
  | made (request : Nat)
  | cancelled (request : Nat)
  | opened (link : Nat)
  | closed (link : Nat)
  | failed (link : Option Nat) (retries : Nat)
  | abandoned
  deriving DecidableEq, Repr

/-- How incidents come about.  The driver sees the end of a link when it gets
its turn; a failure is that of a link or of an attempt, and finds some retries
left. -/
inductive Happens (c : Connection) : Incident → Connection → Prop
  | made {i : Nat} (hasked : c.requests[i]? = some .asked) : Happens c (.made i) (c.serve i)
  | cancelled {i : Nat} (hmade : i < c.requests.length) : Happens c (.cancelled i) (c.cancel i)
  | opened {url : String} {fading : Option Fading} {due : Nat}
      (hdriver : c.driver = some { url, phase := .opening (.opens fading) due })
      (hdue : due ≤ c.clock) : Happens c (.opened c.links.length) (c.linkOpened fading)
  | closed {url : String} {k : Nat} {l : Link}
      (hdriver : c.driver = some { url, phase := .linked k })
      (hlink : c.links[k]? = some l) (hended : l.ended? c.clock = some none) :
      Happens c (.closed k) c.linkClosed
  | refused {url : String} {opening : Opening} {due : Nat} {cause : Failure}
      (hdriver : c.driver = some { url, phase := .opening opening due }) (hdue : due ≤ c.clock)
      (hcause : opening.failure? url = some cause) :
      Happens c (.failed none c.retries) (c.failed cause)
  | broken {url : String} {k : Nat} {l : Link} {cause : Failure}
      (hdriver : c.driver = some { url, phase := .linked k })
      (hlink : c.links[k]? = some l) (hended : l.ended? c.clock = some (some cause)) :
      Happens c (.failed (some k) c.retries) (failed { c with bus := none } cause)
  | connects (url : String) : Happens c .abandoned (c.connect url)
  | closes : Happens c .abandoned c.close

def Occurrence.answer? : Occurrence → Option (Nat × Answer)
  | .answer i a => some (i, a)
  | _ => none

def answers (c : Connection) : List (Nat × Answer) :=
  c.history.filterMap fun entry => entry.2.answer?

structure Desk where
  requests : List RequestState
  waiter : Option Nat
  bus : Option Nat
  watched : Option Nat
  answers : List (Nat × Answer)

def desk (c : Connection) : Desk where
  requests := c.requests
  waiter := c.waiter
  bus := c.bus
  watched := c.watched?
  answers := c.answers

namespace Desk

/-- The request that waits, unless it was cancelled. -/
def pending? (d : Desk) : Option Nat := d.waiter.filter fun i => d.requests[i]? = some .waiting

def answer (d : Desk) (i : Nat) (a : Answer) : Desk :=
  { d with requests := d.requests.set i .answered, answers := d.answers ++ [(i, a)] }

def answerWaiter (d : Desk) (a : Answer) : Desk :=
  match d.pending? with
  | some i => { d with waiter := none }.answer i a
  | none => { d with waiter := none }

def serve (d : Desk) (i : Nat) : Desk :=
  let d := { d with requests := d.requests.set i .waiting }
  match d.bus with
  | some k => d.answer i (.bus k)
  | none => { d.answerWaiter (.failure .superseded) with waiter := some i }

/-- A desk at which a request is registered that has not been made yet. -/
def register (d : Desk) : Desk := { d with requests := d.requests ++ [.asked] }

/-- What an incident does to the desk. -/
def after (d : Desk) : Incident → Desk
  | .made i => d.serve i
  | .cancelled i => { d with requests := d.requests.modify i RequestState.cancel }
  | .opened k => { { d with bus := some k }.answerWaiter (.bus k) with watched := some k }
  | .closed _ => { d with bus := none, watched := none }
  | .failed link retries =>
    if retries = 0 then
      { { d with bus := none }.answerWaiter (.failure (.exhausted retryBudget)) with
        watched := none }
    else { d with bus := if link.isSome then none else d.bus, watched := none }
  | .abandoned => { d with bus := none, watched := none }

def Admits (d : Desk) : Incident → Prop
  | .made i => d.requests[i]? = some .asked
  | .cancelled i => i < d.requests.length
  | .opened _ => d.watched = none
  | .closed k => d.watched = some k
  | .failed link _ => d.watched = link
  | .abandoned => True

end Desk

/-- What else happens to a connection and is left aside. -/
inductive Aside (c : Connection) : Connection → Prop
  | begins (url : String) (hwatched : c.watched? = none) : Aside c (c.beginAttempt url)
  | waits (clock : Nat) (ready : List Wake) (lingering : List (Option Nat)) :
      Aside c { c with clock, ready, lingering }
  | ends (link : Nat) (ending : Option Failure) : Aside c (c.endLink link ending)
  | uses (link : Nat) (f : Bus → Bus) : Aside c (c.updateBus link f)

/-- An incident with the answers that were given by it. -/
structure LogEntry where
  incident : Incident
  resolved : List (Nat × Answer)

/-- The connections that incidents in any order lead to, with their logs. -/
inductive Course (script : List Attempt) : List LogEntry → Connection → Prop
  | start : Course script [] { script }
  | happens {log : List LogEntry} {c c' : Connection} {incident : Incident}
      {resolved : List (Nat × Answer)} (hcourse : Course script log c)
      (hhappens : Happens c incident c') (hresolved : c'.answers = c.answers ++ resolved) :
      Course script (log ++ [⟨incident, resolved⟩]) c'
  | aside {log : List LogEntry} {c c' : Connection} (hcourse : Course script log c)
      (haside : Aside c c') : Course script log c'
  | asks {log : List LogEntry} {c : Connection} (hcourse : Course script log c) :
      Course script log c.request.2

/-! ## What the parts of a step do to the desk -/

variable (c : Connection)

@[simp] theorem desk_record_notice (n : Notice) : (c.record (.notice n)).desk = c.desk := by
  simp [desk, record, answers, Occurrence.answer?, watched?, phase?]

@[simp] theorem desk_record_attempt (url : String) :
    (c.record (.attempt url)).desk = c.desk := by
  simp [desk, record, answers, Occurrence.answer?, watched?, phase?]

theorem desk_record_answer (i : Nat) (a : Answer) :
    (c.record (.answer i a)).desk = { c.desk with answers := c.desk.answers ++ [(i, a)] } := by
  simp [desk, record, answers, Occurrence.answer?, watched?, phase?]

theorem desk_setPhase_linked (k : Nat) (hdriver : c.driver.isSome) :
    (c.setPhase (.linked k)).desk = { c.desk with watched := some k } := by
  obtain ⟨driver, hdriver⟩ := Option.isSome_iff_exists.mp hdriver
  simp [desk, setPhase, answers, watched?, phase?, hdriver]

theorem desk_setPhase {phase : Phase} (hphase : ∀ k, phase ≠ .linked k) :
    (c.setPhase phase).desk = { c.desk with watched := none } := by
  have hnone : (c.setPhase phase).watched? = none := by
    simp only [watched?, phase?, setPhase, Option.map_map]
    cases c.driver with
    | none => rfl
    | some driver => cases phase <;> simp_all
  simp only [desk, hnone]
  rfl

theorem watched?_eq_some_iff {k : Nat} :
    c.watched? = some k ↔ ∃ url, c.driver = some { url, phase := .linked k } := by
  cases hdriver : c.driver with
  | none => simp [watched?, phase?, hdriver]
  | some driver =>
      obtain ⟨url, phase⟩ := driver
      cases phase <;> simp [watched?, phase?, hdriver]

theorem desk_answer {i : Nat} (hwaiting : c.requests[i]? = some .waiting) (a : Answer) :
    (c.answer i a).desk = c.desk.answer i a := by
  simp only [answer, hwaiting, desk_record_answer]
  rfl

theorem desk_answerWaiter (a : Answer) : (c.answerWaiter a).desk = c.desk.answerWaiter a := by
  have hpending : c.desk.pending? = c.waiter.filter fun i => c.requests[i]? = some .waiting := rfl
  unfold answerWaiter Desk.answerWaiter
  rw [hpending]
  cases hwaiter : c.waiter with
  | none =>
      simp only [Option.filter_none]
      rw [← hwaiter]
      rfl
  | some i =>
      by_cases hwaiting : c.requests[i]? = some .waiting
      · simp only [Option.filter_some, hwaiting, decide_true, if_true]
        exact desk_answer { c with waiter := none } hwaiting a
      · simp only [Option.filter_some, hwaiting, decide_false, Bool.false_eq_true, if_false]
        unfold answer
        split
        next h => exact absurd h hwaiting
        next => rfl

theorem driver_answer (i : Nat) (a : Answer) : (c.answer i a).driver = c.driver := by
  unfold answer
  split <;> rfl

theorem driver_answerWaiter (a : Answer) : (c.answerWaiter a).driver = c.driver := by
  unfold answerWaiter
  split
  · exact driver_answer _ _ _
  · rfl

theorem desk_serve {i : Nat} (hasked : c.requests[i]? = some .asked) :
    (c.serve i).desk = c.desk.serve i := by
  have hlt := (List.getElem?_eq_some_iff.mp hasked).1
  have hbus : c.desk.bus = c.bus := rfl
  unfold serve Desk.serve
  simp only [hasked, hbus]
  cases hlink : c.bus with
  | some k =>
      simp only
      rw [← hlink]
      exact desk_answer { c with requests := c.requests.set i .waiting }
        (List.getElem?_set_self hlt) _
  | none =>
      simp only
      rw [← hlink]
      exact congrArg (fun d : Desk => { d with waiter := some i })
        (desk_answerWaiter { c with requests := c.requests.set i .waiting } _)

theorem desk_linkOpened (hdriver : c.driver.isSome) (fading : Option Fading) :
    (c.linkOpened fading).desk = c.desk.after (.opened c.links.length) := by
  unfold linkOpened
  simp only
  rw [desk_setPhase_linked, desk_record_notice, desk_answerWaiter]
  · rfl
  · change (answerWaiter _ _).driver.isSome
    rw [driver_answerWaiter]
    exact hdriver

theorem desk_linkClosed (k : Nat) : c.linkClosed.desk = c.desk.after (.closed k) := by
  unfold linkClosed
  rw [desk_setPhase _ (by simp), desk_record_notice]
  rfl

theorem desk_failed (cause : Failure) :
    (c.failed cause).desk = c.desk.after (.failed none c.retries) := by
  unfold failed Desk.after
  split
  next hzero =>
    simp only
    rw [desk_setPhase _ (by simp), desk_record_notice, desk_answerWaiter, if_pos hzero]
    rfl
  next hpos =>
    simp only
    rw [desk_setPhase _ (by simp), desk_record_notice, if_neg hpos]
    rfl

theorem desk_failed_link (k : Nat) (cause : Failure) :
    (failed { c with bus := none } cause).desk = c.desk.after (.failed (some k) c.retries) := by
  rw [desk_failed]
  by_cases hzero : c.retries = 0
  · simp only [Desk.after, hzero, if_true]
    rfl
  · simp only [Desk.after, hzero, if_false]
    rfl

@[simp] theorem desk_wake (w : Wake) : (c.wake w).desk = c.desk := by
  unfold wake
  split <;> rfl

theorem desk_abandonDriver : c.abandonDriver.desk = { c.desk with watched := none } := by
  unfold abandonDriver
  split <;> rfl

theorem desk_connect (url : String) : (c.connect url).desk = c.desk.after .abandoned := by
  unfold connect
  rw [desk_wake]
  exact congrArg (fun d : Desk => { d with bus := none, watched := none }) (desk_abandonDriver c)

theorem desk_close : c.close.desk = c.desk.after .abandoned := by
  have hlost := congrArg (fun d : Desk => { d with bus := none }) (desk_abandonDriver c)
  have htold (c' : Connection) (wasStarted : Prop) [Decidable wasStarted] :
      (if wasStarted then c'.record (.notice .stopped) else c').desk = c'.desk := by
    split
    · exact desk_record_notice c' _
    · rfl
  unfold close
  simp only [htold]
  cases c.abandonDriver.bus <;> exact hlost

variable {c : Connection}

/-- What an incident needs is there, and it does to the desk what it should. -/
theorem Happens.desk_eq {c' : Connection} {incident : Incident} (h : Happens c incident c') :
    c.desk.Admits incident ∧ c'.desk = c.desk.after incident := by
  cases h with
  | made hasked => exact ⟨hasked, desk_serve c hasked⟩
  | cancelled hmade => exact ⟨hmade, rfl⟩
  | opened hdriver hdue =>
      refine ⟨?_, desk_linkOpened c (by simp [hdriver]) _⟩
      change c.watched? = none
      simp [watched?, phase?, hdriver]
  | closed hdriver hlink hended =>
      exact ⟨c.watched?_eq_some_iff.mpr ⟨_, hdriver⟩, desk_linkClosed c _⟩
  | refused hdriver hdue hcause =>
      refine ⟨?_, desk_failed c _⟩
      change c.watched? = none
      simp [watched?, phase?, hdriver]
  | broken hdriver hlink hended =>
      exact ⟨c.watched?_eq_some_iff.mpr ⟨_, hdriver⟩, desk_failed_link c _ _⟩
  | connects url => exact ⟨trivial, desk_connect c url⟩
  | closes => exact ⟨trivial, desk_close c⟩

theorem desk_beginAttempt (hwatched : c.watched? = none) (url : String) :
    (c.beginAttempt url).desk = c.desk := by
  unfold beginAttempt
  simp only
  rw [desk_setPhase _ (by simp), desk_record_attempt]
  exact congrArg (Desk.mk c.requests c.waiter c.bus · c.answers) hwatched.symm

theorem Aside.desk_eq {c' : Connection} (h : Aside c c') : c'.desk = c.desk := by
  cases h with
  | begins url hwatched => exact desk_beginAttempt hwatched url
  | waits clock ready lingering => rfl
  | uses link f => rfl
  | ends link ending =>
      unfold endLink
      dsimp only
      split
      · rw [desk_wake]
        rfl
      · rfl

theorem desk_request (c : Connection) : c.request.2.desk = c.desk.register := by
  simp only [request, desk_wake]
  rfl

/-! ## The answers of an incident -/

namespace Desk

variable {d : Desk}

theorem pending?_eq_some_iff {i : Nat} :
    d.pending? = some i ↔ d.waiter = some i ∧ d.requests[i]? = some .waiting := by
  simp [pending?, Option.filter_eq_some_iff]

def owed (d : Desk) (a : Answer) : List (Nat × Answer) := (d.pending?.map (·, a)).toList

theorem mem_owed_iff {a b : Answer} {i : Nat} :
    (i, b) ∈ d.owed a ↔ d.pending? = some i ∧ b = a := by
  unfold owed
  cases d.pending? with
  | none => simp
  | some j => simp [eq_comm]

def resolves (d : Desk) : Incident → List (Nat × Answer)
  | .made i =>
    match d.bus with
    | some k => [(i, .bus k)]
    | none => owed { d with requests := d.requests.set i .waiting } (.failure .superseded)
  | .opened k => d.owed (.bus k)
  | .failed _ retries =>
    if retries = 0 then d.owed (.failure (.exhausted retryBudget)) else []
  | _ => []

theorem answers_answerWaiter (d : Desk) (a : Answer) :
    (d.answerWaiter a).answers = d.answers ++ d.owed a := by
  unfold answerWaiter owed
  cases d.pending? with
  | none => simp
  | some i => rfl

theorem answers_after (d : Desk) (incident : Incident) :
    (d.after incident).answers = d.answers ++ d.resolves incident := by
  cases incident with
  | made i =>
      unfold after serve resolves
      cases hbus : d.bus with
      | some k => simp [answer]
      | none => simp [answers_answerWaiter]
  | opened k => exact answers_answerWaiter { d with bus := some k } (.bus k)
  | failed link retries =>
      unfold after resolves
      by_cases hzero : retries = 0
      · simp only [hzero, if_true]
        exact answers_answerWaiter { d with bus := none } _
      · simp [hzero]
  | cancelled i => simp [after, resolves]
  | closed k => simp [after, resolves]
  | abandoned => simp [after, resolves]

end Desk

/-- An incident happens, or what is left aside. -/
def Occurs (c c' : Connection) : Prop := (∃ incident, Happens c incident c') ∨ Aside c c'

theorem move_cases {c' : Connection} (h : c.move? = some c') :
    (∃ incident, incident ≠ .abandoned ∧ Happens c incident c') ∨
      ∃ url phase, c.driver = some { url, phase } ∧ c.situation.Begins phase ∧
        c' = c.beginAttempt url := by
  unfold move? at h
  cases hdriver : c.driver with
  | none => simp [hdriver] at h
  | some driver =>
      obtain ⟨url, phase⟩ := driver
      simp only [hdriver, Option.bind_eq_bind, Option.bind_some] at h
      cases phase with
      | fresh =>
          simp only [Option.some.injEq] at h
          exact .inr ⟨url, .fresh, rfl, trivial, h.symm⟩
      | opening opening due =>
          simp only [Option.ite_none_right_eq_some] at h
          obtain ⟨hdue, h⟩ := h
          cases opening with
          | opens fading =>
              simp only [openingEnded, Option.some.injEq] at h
              rw [← h]
              exact .inl ⟨.opened _, by simp, .opened hdriver hdue⟩
          | fails cause =>
              simp only [openingEnded, Option.some.injEq] at h
              rw [← h]
              exact .inl ⟨.failed none _, by simp, .refused hdriver hdue rfl⟩
          | refused =>
              simp only [openingEnded, Option.some.injEq] at h
              rw [← h]
              exact .inl ⟨.failed none _, by simp, .refused hdriver hdue rfl⟩
          | hangs => simp [openingEnded] at h
      | linked k =>
          cases hlink : c.links[k]? with
          | none => simp [hlink] at h
          | some l =>
              cases hended : l.ended? c.clock with
              | none => simp [hlink, hended] at h
              | some ending =>
                  cases ending with
                  | none =>
                      simp only [hlink, hended, Option.bind_some, Option.some.injEq] at h
                      rw [← h]
                      exact .inl ⟨.closed k, by simp, .closed hdriver hlink hended⟩
                  | some cause =>
                      simp only [hlink, hended, Option.bind_some, Option.some.injEq] at h
                      rw [← h, ← hdriver]
                      exact .inl ⟨.failed (some k) _, by simp, .broken hdriver hlink hended⟩
      | pausing due =>
          simp only [Option.ite_none_right_eq_some, Option.some.injEq] at h
          exact .inr ⟨url, .pausing due, rfl, h.1, h.2.symm⟩
      | finished => simp at h

theorem watched?_of_begins {url : String} {phase : Phase}
    (hdriver : c.driver = some { url, phase }) (hbegins : c.situation.Begins phase) :
    c.watched? = none := by
  cases phase with
  | fresh => simp [watched?, phase?, hdriver]
  | pausing due => simp [watched?, phase?, hdriver]
  | _ => exact hbegins.elim

theorem occurs_move {c' : Connection} (h : c.move? = some c') : Occurs c c' := by
  rcases move_cases h with ⟨incident, -, hhappens⟩ | ⟨url, phase, hdriver, hbegins, rfl⟩
  · exact .inl ⟨incident, hhappens⟩
  · exact .inr (.begins url (watched?_of_begins hdriver hbegins))

/-- A turn makes a request only if it was asked for and not cancelled. -/
theorem serve_of_not_asked {i : Nat} (hasked : c.requests[i]? ≠ some .asked) : c.serve i = c := by
  unfold serve
  split
  next h => exact absurd h hasked
  next => rfl

end DevMachine.Connection

import DevMachine.Proofs.Connection.Effects
import DevMachine.Proofs.Connection.WaiterProtocol

/-!
# What a stopped driver leaves behind

With no retry left a driver gives up, and the request that waits is told so.  Closing
the connection gives the driver up as well, but nobody is told: the request keeps the
waiting place until somebody connects anew, asks anew or takes the request back.
-/

namespace DevMachine.Connection

open Channel (Bus Failure)

def Occurrence.isGivingUp : Occurrence → Bool
  | .notice (.stoppedOnError _) => true
  | _ => false

def Incident.isGivingUp : Incident → Bool
  | .failed _ 0 => true
  | _ => false

/-- How often a connection has given up, as it was told. -/
def givenUp (c : Connection) : Nat := c.history.countP fun entry => entry.2.isGivingUp

variable {c c' : Connection} {log : List LogEntry} {incident : Incident} {i : Nat}

theorem givenUp_of_silent {more : List (Nat × Occurrence)}
    (hhistory : c'.history = c.history ++ more) (hmore : ∀ e ∈ more, e.2.isGivingUp = false) :
    c'.givenUp = c.givenUp := by
  have hnone : more.countP (fun entry => entry.2.isGivingUp) = 0 := by
    rw [List.countP_eq_zero]
    intro e he
    simp [hmore e he]
  rw [givenUp, hhistory, List.countP_append, hnone]
  rfl

theorem givenUp_serve (c : Connection) (i : Nat) : (c.serve i).givenUp = c.givenUp := by
  cases hbus : c.bus with
  | some k =>
      obtain ⟨requests, entries, heq, hentries⟩ := serve_of_bus c (i := i) hbus
      rw [heq]
      refine givenUp_of_silent rfl fun e he => ?_
      rw [hentries e he]
      rfl
  | none =>
      obtain ⟨waiter, requests, entries, heq, hentries⟩ := serve_of_no_bus c (i := i) hbus
      rw [heq]
      refine givenUp_of_silent rfl fun e he => ?_
      obtain ⟨j, rfl⟩ := hentries e he
      rfl

theorem givenUp_linkOpened (c : Connection) (fading : Option Fading) :
    (c.linkOpened fading).givenUp = c.givenUp := by
  obtain ⟨link, driver, requests, entries, heq, -, -, hentries⟩ := linkOpened_eq c fading
  rw [heq]
  refine givenUp_of_silent (List.append_assoc _ _ _) fun e he => ?_
  rcases List.mem_append.mp he with he | he
  · obtain ⟨j, rfl⟩ := hentries e he
    rfl
  · rw [List.mem_singleton.mp he]
    rfl

theorem givenUp_failed (c : Connection) (cause : Failure) (link : Option Nat) :
    (c.failed cause).givenUp =
      c.givenUp + if (Incident.failed link c.retries).isGivingUp then 1 else 0 := by
  by_cases hretries : c.retries = 0
  · obtain ⟨driver, requests, entries, heq, -, hentries⟩ := failed_of_no_retries c cause hretries
    have hsilent : givenUp { c with history := c.history ++ entries } = c.givenUp := by
      refine givenUp_of_silent rfl fun e he => ?_
      obtain ⟨j, rfl⟩ := hentries e he
      rfl
    rw [heq, hretries, givenUp, List.countP_append]
    exact congrArg (· + 1) hsilent
  · have hnot : (Incident.failed link c.retries).isGivingUp = false := by
      cases hcount : c.retries with
      | zero => exact absurd hcount hretries
      | succ n => rfl
    rw [failed_of_retries c cause hretries, hnot]
    exact givenUp_of_silent rfl (by simp [Occurrence.isGivingUp])

/-- What is told of giving up is told by the incident in which it happens. -/
theorem Happens.givenUp_eq (h : Happens c incident c') :
    c'.givenUp = c.givenUp + if incident.isGivingUp then 1 else 0 := by
  cases h with
  | made hasked => exact givenUp_serve c _
  | cancelled hmade => rfl
  | opened hdriver hdue => exact givenUp_linkOpened c _
  | closed hdriver hlink hended =>
      exact givenUp_of_silent (c := c) rfl (by simp [Occurrence.isGivingUp])
  | refused hdriver hdue hcause => exact givenUp_failed c _ none
  | broken hdriver hlink hended => exact givenUp_failed { c with bus := none } _ _
  | connects url =>
      obtain ⟨ready, lingering, heq⟩ := connect_eq c url
      rw [heq]
      rfl
  | closes =>
      obtain ⟨ready, lingering, heq⟩ := close_eq c
      rw [heq]
      refine givenUp_of_silent rfl fun e he => ?_
      split at he
      · rw [List.mem_singleton.mp he]
        rfl
      · cases he

theorem Aside.givenUp_eq (h : Aside c c') : c'.givenUp = c.givenUp := by
  cases h with
  | begins url hwatched => exact givenUp_of_silent rfl (by simp [Occurrence.isGivingUp])
  | waits clock ready lingering => rfl
  | ends k ending =>
      obtain ⟨ready, heq⟩ := endLink_eq c k ending
      rw [heq]
      rfl
  | uses k f => rfl

theorem Course.givenUp_eq {script : List Attempt} (h : Course script log c) :
    c.givenUp = log.countP fun e => e.incident.isGivingUp := by
  induction h with
  | start => rfl
  | happens hcourse hhappens hresolved ih =>
      rw [hhappens.givenUp_eq, ih, List.countP_append]
      simp
  | aside hcourse haside ih => rw [haside.givenUp_eq, ih]
  | @asks log c hcourse ih =>
      obtain ⟨ready, heq⟩ := request_eq c
      rw [← ih, heq]
      rfl

/-- Whoever waits when the driver gives up is told so, and nobody who asked
before that waits any longer. -/
structure AnswersOnGivingUp (log : List LogEntry) (c : Connection) : Prop where
  /-- Each time the connection was said to have given up is in the log. -/
  told : c.givenUp = log.countP fun e => e.incident.isGivingUp
  answered : ∀ before e after, log = before ++ e :: after → e.incident.isGivingUp = true →
    ∀ i, Pending before i → (i, .failure (.exhausted 5)) ∈ e.resolved
  nobody : ∀ before e after, log = before ++ e :: after → e.incident.isGivingUp = true →
    ∀ i, Made before i → c.requests[i]? ≠ some .waiting

theorem Incident.due_of_isGivingUp (hgives : incident.isGivingUp = true)
    (hpending : Pending log i) : Due log incident i (.failure (.exhausted 5)) := by
  cases incident with
  | failed link retries =>
      cases retries with
      | zero => exact .exhausted hpending
      | succ n => cases hgives
  | _ => cases hgives

theorem Course.answersOnGivingUp {script : List Attempt} (h : Course script log c) :
    AnswersOnGivingUp log c := by
  have hprotocol := h.waiterProtocol
  have hanswered : ∀ before e after, log = before ++ e :: after →
      e.incident.isGivingUp = true → ∀ i, Pending before i →
        (i, .failure (.exhausted 5)) ∈ e.resolved := by
    intro before e after hsplit hgives i hpending
    exact (hprotocol.due before e after hsplit i _).mpr
      (Incident.due_of_isGivingUp hgives hpending)
  refine ⟨h.givenUp_eq, hanswered, ?_⟩
  intro before e after hsplit hgives i hmade hwaiting
  obtain ⟨-, hkept, hopen⟩ := (hprotocol.waiting i).mp hwaiting
  -- a request that waits now would have waited then, and would have been answered
  have hpending : Pending before i := by
    refine ⟨hmade, ?_, ?_⟩
    · rintro ⟨x, hx, hcancelled⟩
      exact hkept ⟨x, by simp [hsplit, hx], hcancelled⟩
    · rintro ⟨x, hx, hresolved⟩
      exact hopen ⟨x, by simp [hsplit, hx], hresolved⟩
  have hresolved := hanswered before e after hsplit hgives i hpending
  exact hopen ⟨e, by simp [hsplit], List.mem_map_of_mem hresolved⟩

/-- The steps that may do something about a request that waits: somebody
connects or asks anew, takes the request back or drops everything. -/
def Step.Concerns (i : Nat) : Step → Prop
  | .connect _ => True
  | .request => True
  | .cancel j => j = i
  | .dropController => True
  | _ => False

/-- A request waits, with no driver at work and nothing to have its turn. -/
structure LeftWaiting (history : List (Nat × Occurrence)) (i : Nat) (c : Connection) : Prop where
  waiting : c.requests[i]? = some .waiting
  driver : c.driver = none
  bus : c.bus = none
  status : c.status = .stopped
  ready : c.ready = []
  untold : c.history = history

variable {history : List (Nat × Occurrence)}

theorem settle_of_rest (hready : c.ready = []) :
    c.settle = { c with ready := [], lingering := [] } := by
  simp [settle, hready]

theorem LeftWaiting.settle (h : LeftWaiting history i c) : LeftWaiting history i c.settle := by
  rw [settle_of_rest h.ready]
  exact ⟨h.waiting, h.driver, h.bus, h.status, rfl, h.untold⟩

theorem LeftWaiting.sleep (h : LeftWaiting history i c) (duration : Nat) :
    LeftWaiting history i (c.sleep duration) := by
  have hsettled := h.settle
  have hnever : c.settle.nextDue? = none := by simp [nextDue?, phase?, hsettled.driver]
  have hpassed (target fuel : Nat) : passUntil target fuel c.settle = c.settle := by
    cases fuel with
    | zero => rfl
    | succ fuel => simp [passUntil, hnever]
  unfold Connection.sleep
  simp only [hpassed]
  exact ⟨hsettled.waiting, hsettled.driver, hsettled.bus, hsettled.status, hsettled.ready,
    hsettled.untold⟩

theorem abandonDriver_of_no_driver (hdriver : c.driver = none) : c.abandonDriver = c := by
  unfold abandonDriver
  simp only [phase?, hdriver, Option.map_none]
  rw [← hdriver]

theorem LeftWaiting.close (h : LeftWaiting history i c) : LeftWaiting history i c.close := by
  unfold Connection.close
  simp only [abandonDriver_of_no_driver h.driver, h.bus, h.status]
  exact ⟨h.waiting, h.driver, rfl, rfl, h.ready, h.untold⟩

theorem LeftWaiting.endLink (h : LeftWaiting history i c) (k : Nat) (ending : Option Failure) :
    LeftWaiting history i (c.endLink k ending) := by
  have hnone : c.watched? = none := by simp [watched?, phase?, h.driver]
  unfold Connection.endLink
  dsimp only
  split
  next hwatched =>
    change c.watched? = some k at hwatched
    rw [hnone] at hwatched
    cases hwatched
  next => exact ⟨h.waiting, h.driver, h.bus, h.status, h.ready, h.untold⟩

theorem LeftWaiting.perform (h : LeftWaiting history i c) {st : Step} (hst : ¬ st.Concerns i) :
    LeftWaiting history i (c.perform st).2 := by
  cases st with
  | connect url => exact absurd trivial hst
  | request => exact absurd trivial hst
  | dropController => exact absurd trivial hst
  | close => exact h.close
  | cancel j =>
      have hj : j ≠ i := hst
      refine ⟨?_, h.driver, h.bus, h.status, h.ready, h.untold⟩
      change (c.requests.modify j RequestState.cancel)[i]? = _
      rw [List.getElem?_modify_ne _ _ hj]
      exact h.waiting
  | closeLink k failure => exact h.endLink k failure
  | dropLink k => exact h.endLink k (some .closed)
  | subscribe k channel => exact ⟨h.waiting, h.driver, h.bus, h.status, h.ready, h.untold⟩
  | dispatch k frame => exact ⟨h.waiting, h.driver, h.bus, h.status, h.ready, h.untold⟩
  | next k id => exact ⟨h.waiting, h.driver, h.bus, h.status, h.ready, h.untold⟩
  | sleep duration => exact h.sleep duration
  | settle => exact h.settle

theorem LeftWaiting.run {steps : List (Bool × Step)} (h : LeftWaiting history i c)
    (hsteps : ∀ entry ∈ steps, ¬ entry.2.Concerns i) : LeftWaiting history i (c.run steps) := by
  induction steps generalizing c with
  | nil => exact h
  | cons entry steps ih =>
      obtain ⟨queued, st⟩ := entry
      have hperformed := h.perform (hsteps (queued, st) List.mem_cons_self)
      refine ih ?_ fun entry hentry => hsteps entry (List.mem_cons_of_mem _ hentry)
      cases queued with
      | true => exact hperformed
      | false => exact hperformed.settle

theorem leftWaiting_close (hrest : c.AtRest) (hwaiting : c.requests[i]? = some .waiting) :
    LeftWaiting c.close.history i c.close := by
  have hrequests : c.abandonDriver.requests = c.requests := by
    obtain ⟨ready, lingering, heq⟩ := abandonDriver_eq c
    rw [heq]
  have hready : c.abandonDriver.ready = [] := by
    have hnone : c.ready = [] := hrest
    unfold abandonDriver
    split <;> simp [hnone]
  obtain ⟨ready, lingering, heq⟩ := close_eq c
  refine ⟨?_, ?_, ?_, ?_, ?_, rfl⟩
  · rw [requests_close, hrequests]
    exact hwaiting
  · rw [heq]
  · rw [heq]
  · rw [heq]
  · rw [ready_close, hready]

theorem answers_close (c : Connection) : c.close.answers = c.answers :=
  congrArg Desk.answers (desk_close c)

/-- Giving up answers the request that waits, in every run.  Closing answers
nobody: a request that waits when the connection is closed goes on waiting, as
long as nobody connects or asks anew, takes it back or drops the connection. -/
theorem giving_up_answers_and_closing_does_not (script : List Attempt) :
    (∀ steps : List (Bool × Step), (∀ entry ∈ steps, entry.2 ≠ .dropController) →
      ∃ log, Course script log (run { script } steps) ∧
        AnswersOnGivingUp log (run { script } steps)) ∧
    ∀ (steps later : List (Bool × Step)) (queued : Bool) (i : Nat),
      let c := run { script } steps
      let c' := c.run ((queued, .close) :: later)
      c.AtRest → c.requests[i]? = some .waiting → (∀ entry ∈ later, ¬ entry.2.Concerns i) →
        c'.AtRest ∧ c'.driver = none ∧ c'.requests[i]? = some .waiting ∧
          c'.answers = c.answers := by
  constructor
  · intro steps hsteps
    obtain ⟨log, hcourse⟩ := course_run script hsteps
    exact ⟨log, hcourse, hcourse.answersOnGivingUp⟩
  · intro steps later queued i c c' hrest hwaiting hlater
    have hclosed : LeftWaiting c.close.history i (c.step queued .close).2 := by
      have hleft := leftWaiting_close hrest hwaiting
      cases queued with
      | true => exact hleft
      | false => exact hleft.settle
    have hleft : LeftWaiting c.close.history i c' := hclosed.run hlater
    have hanswers : c'.answers = c.answers := by
      rw [← answers_close c, answers, hleft.untold, answers]
    exact ⟨hleft.ready, hleft.driver, hleft.waiting, hanswers⟩

/-- A request that waits while attempt after attempt is refused, and one that
waits for an attempt that never ends. -/
theorem giving_up_answers_and_closing_does_not_past_hanging_attempt :
    let refused : List (Bool × Step) :=
      [(false, .request), (false, .connect "ws://a"), (false, .sleep 9000)]
    let hanging : List (Bool × Step) := [(false, .connect "ws://a"), (false, .request)]
    let closed := (run { script := [{ opening := .hangs }] } hanging).run
      [(false, .close), (false, .sleep 60000), (false, .cancel 7)]
    (∃ log, AnswersOnGivingUp log (run {} refused) ∧ (run {} refused).givenUp = 1 ∧
      log.flatMap LogEntry.resolved = [(0, .failure (.exhausted 5))]) ∧
    closed.driver = none ∧ closed.requests[0]? = some .waiting ∧ closed.answers = [] := by
  intro refused hanging closed
  constructor
  · obtain ⟨log, hcourse, hanswers⟩ :=
      (giving_up_answers_and_closing_does_not []).1 refused (by simp [refused])
    exact ⟨log, hanswers, by decide, hcourse.waiterProtocol.answers.symm.trans (by decide)⟩
  · have hrest : (run { script := [{ opening := .hangs }] } hanging).AtRest := by decide
    obtain ⟨-, hdriver, hwaiting, hanswers⟩ :=
      (giving_up_answers_and_closing_does_not [{ opening := .hangs }]).2 hanging
        [(false, .sleep 60000), (false, .cancel 7)] false 0 hrest rfl (by simp [Step.Concerns])
    exact ⟨hdriver, hwaiting, hanswers⟩

/-- An attempt is in progress and a request waits when the connection is closed.
Nothing is left that could answer the request, and it is told nothing. -/
theorem closing_leaves_request_waiting :
    let c := run { script := [{ opening := .hangs }] }
      [(false, .connect "ws://a"), (false, .request)]
    let closed := (c.step false .close).2
    c.driver = some { url := "ws://a", phase := .opening .hangs 0 } ∧
      c.requests = [.waiting] ∧ closed.AtRest ∧ closed.driver = none ∧ closed.bus = none ∧
      closed.requests = [.waiting] ∧ ¬ ∃ e, (0, Answer.failure e) ∈ closed.answers := by
  intro c closed
  have hanswers : closed.answers = [] := rfl
  refine ⟨rfl, rfl, rfl, rfl, rfl, rfl, ?_⟩
  rw [hanswers]
  rintro ⟨e, he⟩
  cases he

end DevMachine.Connection

import DevMachine.Proofs.Connection.Incidents

/-!
# What is changed and what is left alone

Each operation on a connection is an update of some of its fields.  The
equations below name those fields and the entries that are added to the
history; whatever else an invariant speaks of is left alone.  Moves and turns
leave alone what is to have its turn, so a connection that has settled is at
rest.
-/

namespace DevMachine.Connection

open Channel (Bus Failure)

variable (c : Connection)

theorem answer_eq (i : Nat) (a : Answer) :
    ∃ requests entries, c.answer i a = { c with requests, history := c.history ++ entries } ∧
      ∀ e ∈ entries, e = (c.clock, .answer i a) := by
  unfold answer
  split
  · exact ⟨_, [(c.clock, .answer i a)], rfl, by simp⟩
  · exact ⟨c.requests, [], by simp, by simp⟩

theorem answerWaiter_eq (a : Answer) :
    ∃ requests entries, c.answerWaiter a =
        { c with waiter := none, requests, history := c.history ++ entries } ∧
      ∀ e ∈ entries, ∃ i, e = (c.clock, .answer i a) := by
  unfold answerWaiter
  split
  next request hwaiter =>
    obtain ⟨requests, entries, heq, hentries⟩ := answer_eq { c with waiter := none } request a
    exact ⟨requests, entries, heq, fun e he => ⟨request, hentries e he⟩⟩
  next hwaiter =>
    refine ⟨c.requests, [], ?_, by simp⟩
    rw [List.append_nil, ← hwaiter]

theorem serve_of_bus {i k : Nat} (hbus : c.bus = some k) :
    ∃ requests entries, c.serve i = { c with requests, history := c.history ++ entries } ∧
      ∀ e ∈ entries, e = (c.clock, .answer i (.bus k)) := by
  unfold serve
  split
  · simp only [hbus]
    obtain ⟨requests, entries, heq, hentries⟩ :=
      answer_eq { c with requests := c.requests.set i .waiting } i (.bus k)
    refine ⟨requests, entries, ?_, hentries⟩
    rw [← hbus]
    exact heq
  · exact ⟨c.requests, [], by simp, by simp⟩

theorem serve_of_no_bus {i : Nat} (hbus : c.bus = none) :
    ∃ waiter requests entries, c.serve i =
        { c with waiter, requests, history := c.history ++ entries } ∧
      ∀ e ∈ entries, ∃ j, e = (c.clock, .answer j (.failure .superseded)) := by
  unfold serve
  split
  · simp only [hbus]
    obtain ⟨requests, entries, heq, hentries⟩ :=
      answerWaiter_eq { c with requests := c.requests.set i .waiting } (.failure .superseded)
    refine ⟨some i, requests, entries, ?_, hentries⟩
    rw [← hbus]
    exact congrArg (fun d : Connection => { d with waiter := some i }) heq
  · exact ⟨c.waiter, c.requests, [], by simp, by simp⟩

theorem serve_eq (i : Nat) :
    ∃ waiter requests entries, c.serve i =
      { c with waiter, requests, history := c.history ++ entries } := by
  rcases Option.eq_none_or_eq_some c.bus with hbus | ⟨k, hbus⟩
  · obtain ⟨waiter, requests, entries, heq, -⟩ := serve_of_no_bus c (i := i) hbus
    exact ⟨waiter, requests, entries, heq⟩
  · obtain ⟨requests, entries, heq, -⟩ := serve_of_bus c (i := i) hbus
    exact ⟨c.waiter, requests, entries, heq⟩

theorem linkOpened_eq (fading : Option Fading) :
    ∃ link driver requests entries, c.linkOpened fading =
        { c with
          links := c.links ++ [link], status := .started, bus := some c.links.length,
          waiter := none, driver, requests,
          history := c.history ++ entries ++ [(c.clock, .notice .started)] } ∧
      driver = c.driver.map (fun d => { d with phase := .linked c.links.length }) ∧
      link.bus = {} ∧ ∀ e ∈ entries, ∃ i, e = (c.clock, .answer i (.bus c.links.length)) := by
  unfold linkOpened
  dsimp only
  obtain ⟨requests, entries, heq, hentries⟩ := answerWaiter_eq
    { c with
      links := c.links ++ [{ fadesAt := fading.map fun f => (c.clock + f.after, f.failure) }]
      status := .started
      bus := some c.links.length } (.bus c.links.length)
  rw [heq]
  exact ⟨_, _, requests, entries, rfl, rfl, rfl, hentries⟩

theorem failed_of_no_retries (cause : Failure) (hretries : c.retries = 0) :
    ∃ driver requests entries, c.failed cause =
        { c with
          status := .stopped, bus := none, waiter := none, driver, requests,
          history := c.history ++ entries ++ [(c.clock, .notice (.stoppedOnError cause))] } ∧
      driver = c.driver.map (fun d => { d with phase := .finished }) ∧
      ∀ e ∈ entries, ∃ i, e = (c.clock, .answer i (.failure (.exhausted retryBudget))) := by
  unfold failed
  rw [if_pos hretries]
  dsimp only
  obtain ⟨requests, entries, heq, hentries⟩ := answerWaiter_eq
    { c with status := .stopped, bus := none } (.failure (.exhausted retryBudget))
  rw [heq]
  exact ⟨_, requests, entries, rfl, rfl, hentries⟩

theorem failed_of_retries (cause : Failure) (hretries : c.retries ≠ 0) :
    c.failed cause =
      { c with
        retries := c.retries - 1
        driver := c.driver.map fun d => { d with phase := .pausing (c.clock + retryDelay) }
        history := c.history ++ [(c.clock, .notice (.reconnecting (c.retries - 1)))] } := by
  unfold failed
  rw [if_neg hretries]
  rfl

theorem failed_eq (cause : Failure) :
    ∃ status retries bus waiter driver requests entries, c.failed cause =
        { c with
          status, retries, bus, waiter, driver, requests, history := c.history ++ entries } ∧
      (bus = c.bus ∨ bus = none) := by
  by_cases hretries : c.retries = 0
  · obtain ⟨driver, requests, entries, heq, -⟩ := failed_of_no_retries c cause hretries
    rw [heq, List.append_assoc]
    exact ⟨_, _, _, _, _, _, _, rfl, .inr rfl⟩
  · exact ⟨c.status, c.retries - 1, c.bus, c.waiter, _, c.requests, _,
      failed_of_retries c cause hretries, .inl rfl⟩

theorem wake_eq (w : Wake) : ∃ ready, c.wake w = { c with ready } := by
  unfold wake
  split
  · exact ⟨c.ready, rfl⟩
  · exact ⟨_, rfl⟩

theorem request_eq :
    ∃ ready, c.request.2 = { c with requests := c.requests ++ [.asked], ready } :=
  wake_eq c.addRequest _

theorem endLink_eq (k : Nat) (ending : Option Failure) :
    ∃ ready, c.endLink k ending =
      { c with links := c.links.modify k (Link.endedBy ending), ready } := by
  unfold endLink
  dsimp only
  split
  · exact wake_eq _ _
  · exact ⟨c.ready, rfl⟩

theorem abandonDriver_eq :
    ∃ ready lingering, c.abandonDriver = { c with driver := none, ready, lingering } := by
  unfold abandonDriver
  split <;> exact ⟨_, _, rfl⟩

theorem connect_eq (url : String) :
    ∃ ready lingering, c.connect url =
      { c with
        retries := retryBudget, status := .stopped, bus := none, driver := some { url },
        ready, lingering } := by
  obtain ⟨ready, lingering, habandoned⟩ := abandonDriver_eq c
  unfold connect
  rw [habandoned]
  obtain ⟨ready', hwake⟩ := wake_eq
    { c with
      retries := retryBudget, status := .stopped, bus := none, driver := some { url },
      ready, lingering } .driver
  exact ⟨ready', lingering, hwake⟩

/-- The link whose bus is handed out, if any, loses its subscribers. -/
def clearedLinks : List Link :=
  match c.bus with
  | some k => c.links.modify k fun l => { l with bus := l.bus.clear }
  | none => c.links

theorem close_eq :
    ∃ ready lingering, c.close =
      { c with
        status := .stopped, bus := none, driver := none, links := c.clearedLinks,
        history := c.history ++ if c.status = .started then [(c.clock, .notice .stopped)] else [],
        ready, lingering } := by
  obtain ⟨ready, lingering, habandoned⟩ := abandonDriver_eq c
  refine ⟨ready, lingering, ?_⟩
  unfold close clearedLinks
  rw [habandoned]
  dsimp only
  cases c.bus with
  | none => split <;> simp [record]
  | some k => split <;> simp [record, updateBus]

theorem cancelAll_eq (indices : List Nat) :
    ∃ requests, indices.foldl cancel c = { c with requests } := by
  induction indices generalizing c with
  | nil => exact ⟨c.requests, rfl⟩
  | cons i indices ih => exact ih (c.cancel i)

theorem dropController_eq :
    ∃ requests ready lingering, c.dropController =
      { c with requests, waiter := none, driver := none, dropped := true, ready, lingering } := by
  unfold dropController
  obtain ⟨requests, hcancelled⟩ := cancelAll_eq c (List.range c.requests.length)
  obtain ⟨ready, lingering, habandoned⟩ := abandonDriver_eq { c with requests }
  rw [hcancelled]
  dsimp only
  rw [habandoned]
  exact ⟨requests, ready, lingering, rfl⟩

variable {c c' : Connection}

/-- Nothing is to have its turn. -/
def AtRest (c : Connection) : Prop := c.ready = []

instance (c : Connection) : Decidable c.AtRest := inferInstanceAs (Decidable (c.ready = []))

theorem ready_serve (c : Connection) (i : Nat) : (c.serve i).ready = c.ready := by
  obtain ⟨waiter, requests, entries, heq⟩ := serve_eq c i
  rw [heq]

theorem ready_failed (c : Connection) (cause : Failure) : (c.failed cause).ready = c.ready := by
  obtain ⟨status, retries, bus, waiter, driver, requests, entries, heq, -⟩ := failed_eq c cause
  rw [heq]

theorem ready_move (hmove : c.move? = some c') : c'.ready = c.ready := by
  rcases move_cases hmove with ⟨incident, hkept, hhappens⟩ | ⟨url, phase, -, -, rfl⟩
  · cases hhappens with
    | made hasked => exact ready_serve c _
    | cancelled hmade => rfl
    | opened hdriver hdue =>
        obtain ⟨link, driver, requests, entries, heq, -⟩ := linkOpened_eq c _
        rw [heq]
    | closed hdriver hlink hended => rfl
    | refused hdriver hdue hcause => exact ready_failed c _
    | broken hdriver hlink hended => exact ready_failed { c with bus := none } _
    | connects url => exact absurd rfl hkept
    | closes => exact absurd rfl hkept
  · rfl

theorem ready_moves (fuel : Nat) (c : Connection) : (moves fuel c).ready = c.ready := by
  induction fuel generalizing c with
  | zero => rfl
  | succ fuel ih =>
      simp only [moves]
      cases hmove : c.move? with
      | none => rfl
      | some c' => exact (ih c').trans (ready_move hmove)

theorem ready_turns (wakes : List Wake) (c : Connection) :
    (wakes.foldl turn c).ready = c.ready := by
  induction wakes generalizing c with
  | nil => rfl
  | cons w wakes ih =>
      cases w with
      | driver => exact (ih c.drive).trans (ready_moves c.rank c)
      | request i => exact (ih (c.serve i)).trans (ready_serve c i)

theorem ready_passUntil (target fuel : Nat) (c : Connection) :
    (passUntil target fuel c).ready = c.ready := by
  induction fuel generalizing c with
  | zero => rfl
  | succ fuel ih =>
      simp only [passUntil]
      cases hnext : c.nextDue? with
      | none => rfl
      | some t =>
          dsimp only
          split
          · exact (ih _).trans (ready_moves _ { c with clock := max c.clock t })
          · rfl

theorem atRest_settle (c : Connection) : c.settle.AtRest :=
  ready_turns c.ready { c with ready := [] }

theorem atRest_sleep (c : Connection) (duration : Nat) : (c.sleep duration).AtRest :=
  (ready_passUntil _ _ c.settle).trans (atRest_settle c)

end DevMachine.Connection

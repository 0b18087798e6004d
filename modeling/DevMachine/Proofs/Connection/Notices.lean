import DevMachine.Proofs.Connection.Effects
import DevMachine.Proofs.Connection.Stability

/-!
# Notices and the status

The driver writes the status and gives notice in the same move, and so does
closing, but connecting stops the connection without a word.  So the notices given
since the last request to connect always tell the status, and all notices together
tell it unless a connection that was announced as started is connected anew.
-/

namespace DevMachine.Connection

open Channel (Bus Failure)

def Notice.status? : Notice → Option Status
  | .started => some .started
  | .stopped | .stoppedOnError _ => some .stopped
  | .reconnecting _ => none

def Occurrence.status? : Occurrence → Option Status
  | .notice n => n.status?
  | _ => none

/-- The statuses that were announced, in order. -/
def statuses (entries : List (Nat × Occurrence)) : List Status :=
  entries.filterMap fun entry => entry.2.status?

/-- The status that was announced last.  Without a word it is stopped. -/
def announced (entries : List (Nat × Occurrence)) : Status :=
  (statuses entries).getLast?.getD .stopped

variable {c c' : Connection} {past entries : List (Nat × Occurrence)}

theorem statuses_append (more : List (Nat × Occurrence)) :
    statuses (entries ++ more) = statuses entries ++ statuses more :=
  List.filterMap_append

theorem announced_append_of_silent {more : List (Nat × Occurrence)}
    (hmore : ∀ e ∈ more, e.2.status? = none) :
    announced (entries ++ more) = announced entries := by
  have hnone : statuses more = [] := List.filterMap_eq_nil_iff.mpr hmore
  rw [announced, statuses_append, hnone, List.append_nil]
  rfl

theorem announced_append_of_told {more : List (Nat × Occurrence)} (hmore : statuses more ≠ []) :
    announced (entries ++ more) = announced more := by
  unfold announced
  rw [statuses_append, List.getLast?_append_of_ne_nil _ hmore]

theorem announced_concat {t : Nat} {o : Occurrence} {status : Status}
    (ho : o.status? = some status) : announced (entries ++ [(t, o)]) = status := by
  have hone : statuses [(t, o)] = [status] := by simp [statuses, ho]
  rw [announced_append_of_told (by simp [hone]), announced, hone]
  rfl

/-- The status is the one that was announced since some past. -/
def Announces (past : List (Nat × Occurrence)) (c : Connection) : Prop :=
  ∃ since, c.history = past ++ since ∧ c.status = announced since

theorem Announces.silent (h : Announces past c) (more : List (Nat × Occurrence))
    (hstatus : c'.status = c.status)
    (hhistory : c'.history = c.history ++ more) (hmore : ∀ e ∈ more, e.2.status? = none) :
    Announces past c' := by
  obtain ⟨since, hold, htold⟩ := h
  refine ⟨since ++ more, ?_, ?_⟩
  · rw [hhistory, hold, List.append_assoc]
  · rw [hstatus, htold, announced_append_of_silent hmore]

theorem Announces.told (h : Announces past c) (more : List (Nat × Occurrence)) {n : Notice}
    (hhistory : c'.history = c.history ++ more ++ [(c.clock, .notice n)])
    (hstatus : n.status? = some c'.status) : Announces past c' := by
  obtain ⟨since, hold, -⟩ := h
  refine ⟨since ++ more ++ [(c.clock, .notice n)], ?_, ?_⟩
  · rw [hhistory, hold]
    simp
  · exact (announced_concat (o := .notice n) hstatus).symm

theorem Announces.serve (h : Announces past c) (i : Nat) : Announces past (c.serve i) := by
  cases hbus : c.bus with
  | some k =>
      obtain ⟨requests, entries, heq, hentries⟩ := serve_of_bus c (i := i) hbus
      rw [heq]
      refine h.silent entries rfl rfl fun e he => ?_
      rw [hentries e he]
      rfl
  | none =>
      obtain ⟨waiter, requests, entries, heq, hentries⟩ := serve_of_no_bus c (i := i) hbus
      rw [heq]
      refine h.silent entries rfl rfl fun e he => ?_
      obtain ⟨j, rfl⟩ := hentries e he
      rfl

theorem Announces.failed (h : Announces past c) (cause : Failure) :
    Announces past (c.failed cause) := by
  by_cases hretries : c.retries = 0
  · obtain ⟨driver, requests, entries, heq, -⟩ := failed_of_no_retries c cause hretries
    rw [heq]
    exact h.told entries rfl rfl
  · rw [failed_of_retries c cause hretries]
    exact h.silent [_] rfl rfl (by simp [Occurrence.status?, Notice.status?])

theorem stable_announces (past : List (Nat × Occurrence)) : Stable (Announces past) where
  happens := by
    intro c c' incident hhappens hkept h
    cases hhappens with
    | made hasked => exact h.serve _
    | cancelled hmade => exact h
    | opened hdriver hdue =>
        obtain ⟨link, driver, requests, entries, heq, -⟩ := linkOpened_eq c _
        rw [heq]
        exact h.told entries rfl rfl
    | closed hdriver hlink hended =>
        exact h.told [] (n := .stopped) (by rw [List.append_nil]; rfl) rfl
    | refused hdriver hdue hcause => exact h.failed _
    | broken hdriver hlink hended => exact Announces.failed (c := { c with bus := none }) h _
    | connects url => exact absurd rfl hkept
    | closes => exact absurd rfl hkept
  begins := fun hdriver hbegins h => h.silent [_] rfl rfl (by simp [Occurrence.status?])
  waits := fun clock ready lingering h => h
  asks := by
    intro c h
    obtain ⟨ready, heq⟩ := request_eq c
    rw [heq]
    exact h
  ends := by
    intro c k ending h
    obtain ⟨ready, heq⟩ := endLink_eq c k ending
    rw [heq]
    exact h

theorem Announces.close (h : Announces past c) : Announces past c.close := by
  obtain ⟨ready, lingering, heq⟩ := close_eq c
  rw [heq]
  cases hstatus : c.status with
  | started => exact h.told [] (n := .stopped) (by simp) rfl
  | stopped => exact h.silent [] hstatus.symm (by simp) (by simp)

/-- Connecting gives no notice, so it has to find the connection stopped. -/
theorem Announces.connect (h : Announces past c) (hstopped : c.status = .stopped) (url : String) :
    Announces past (c.connect url) := by
  obtain ⟨ready, lingering, heq⟩ := connect_eq c url
  rw [heq]
  exact h.silent [] hstopped.symm (by simp) (by simp)

theorem announces_connect (c : Connection) (url : String) :
    Announces c.history (c.connect url) := by
  obtain ⟨ready, lingering, heq⟩ := connect_eq c url
  rw [heq]
  exact ⟨[], (List.append_nil _).symm, rfl⟩

theorem Announces.step (h : Announces past c) (queued : Bool) {st : Step}
    (hst : ∀ url, st = .connect url → c.status = .stopped) :
    Announces past (c.step queued st).2 := by
  apply (stable_announces past).step_of_perform queued
  refine (stable_announces past).perform_any (fun k op hc => hc) (fun hkept => ?_) h
  cases st with
  | connect url => exact h.connect (hst url rfl) url
  | close => exact h.close
  | dropController =>
      obtain ⟨requests, ready, lingering, heq⟩ := dropController_eq c
      rw [perform, heq]
      exact h
  | _ => exact (hkept trivial).elim

theorem Announces.run (h : Announces past c) {steps : List (Bool × Step)}
    (hsteps : ∀ before queued url rest, steps = before ++ (queued, .connect url) :: rest →
      (c.run before).status = .stopped) : Announces past (c.run steps) := by
  induction steps generalizing c with
  | nil => exact h
  | cons entry steps ih =>
      obtain ⟨queued, st⟩ := entry
      have hfirst : ∀ url, st = .connect url → c.status = .stopped := by
        rintro url rfl
        exact hsteps [] queued url steps rfl
      refine ih (h.step queued hfirst) ?_
      intro before queued' url rest hsplit
      exact hsteps ((queued, st) :: before) queued' url rest (by rw [hsplit]; rfl)

/-- As long as no request to connect finds the connection started, its notices
tell the status.  The notices since the last request to connect always tell it;
those before are misleading exactly if they end with word that it is started and
nothing was announced since. -/
theorem status_is_announced (script : List Attempt) :
    (∀ steps : List (Bool × Step),
      (∀ before queued url rest, steps = before ++ (queued, .connect url) :: rest →
        (run { script } before).status = .stopped) →
      (run { script } steps).status = announced (run { script } steps).history) ∧
    ∀ (before : List (Bool × Step)) (queued : Bool) (url : String) (period : List (Bool × Step)),
      (∀ entry ∈ period, ∀ url', entry.2 ≠ .connect url') →
      let c₀ := run { script } before
      let c := run (c₀.step queued (.connect url)).2 period
      ∃ since, c.history = c₀.history ++ since ∧ c.status = announced since ∧
        (c.status ≠ announced c.history ↔
          announced c₀.history = .started ∧ statuses since = []) := by
  constructor
  · intro steps hsteps
    have hstart : Announces [] { script } := ⟨[], rfl, rfl⟩
    obtain ⟨since, hhistory, hstatus⟩ := hstart.run hsteps
    rw [hhistory]
    exact hstatus
  · intro before queued url period hperiod c₀ c
    have hconnected : Announces c₀.history (c₀.step queued (.connect url)).2 :=
      (stable_announces _).step_of_perform queued (announces_connect c₀ url)
    have hnone : ∀ before' queued' url' rest, period = before' ++ (queued', .connect url') :: rest →
        (run (c₀.step queued (.connect url)).2 before').status = .stopped := by
      rintro before' queued' url' rest rfl
      exact absurd rfl (hperiod (queued', .connect url') (by simp) url')
    obtain ⟨since, hhistory, hstatus⟩ := hconnected.run hnone
    refine ⟨since, hhistory, hstatus, ?_⟩
    rw [hhistory, hstatus]
    by_cases hsince : statuses since = []
    · have hsilent : ∀ e ∈ since, e.2.status? = none := List.filterMap_eq_nil_iff.mp hsince
      have hstopped : announced since = .stopped := by
        rw [announced, hsince]
        rfl
      rw [announced_append_of_silent hsilent, hstopped]
      cases announced c₀.history <;> simp [hsince]
    · rw [announced_append_of_told hsince]
      simp [hsince]

/-- A connection that was closed before it is connected anew, and one that was
not but is started again after a failed attempt. -/
theorem status_is_announced_past_failed_attempt :
    let script : List Attempt := [{ opening := .opens none }, { opening := .fails .closed },
      { opening := .opens none }]
    let steps : List (Bool × Step) := [(false, .connect "ws://a"), (false, .close),
      (false, .connect "ws://b"), (false, .sleep 2000)]
    let before : List (Bool × Step) := [(false, .connect "ws://a")]
    let period : List (Bool × Step) := [(false, .sleep 2000)]
    let c := run { script } steps
    let c₀ := run { script } before
    let c₁ := run (c₀.step false (.connect "ws://b")).2 period
    c.status = .started ∧ c.status = announced c.history ∧ c₀.status = .started ∧
      ∃ since, c₁.history = c₀.history ++ since ∧ c₁.status = announced since ∧
        (c₁.status ≠ announced c₁.history ↔
          announced c₀.history = .started ∧ statuses since = []) := by
  intro script steps before period c c₀ c₁
  obtain ⟨hall, hsince⟩ := status_is_announced script
  have hstopped : ∀ before queued url rest, steps = before ++ (queued, .connect url) :: rest →
      (run { script } before).status = .stopped := by
    intro before queued url rest hsplit
    rcases before with _ | ⟨x, _ | ⟨y, _ | ⟨z, _ | ⟨w, before⟩⟩⟩⟩
    · rfl
    · simp [steps] at hsplit
    · simp only [steps, List.cons_append, List.nil_append, List.cons.injEq] at hsplit
      rw [← hsplit.1, ← hsplit.2.1]
      decide
    · simp [steps] at hsplit
    · simp [steps] at hsplit
  have hperiod : ∀ entry ∈ period, ∀ url, entry.2 ≠ .connect url := by simp [period]
  exact ⟨by decide, hall steps hstopped, by decide,
    hsince before false "ws://b" period hperiod⟩

/-- The connection to `ws://a` is given up for one that does not open, and the
last notice is still that it has started. -/
theorem connecting_anew_is_not_announced :
    let script : List Attempt := [{ opening := .opens none }, { opening := .hangs }]
    let c := run { script } [(false, .connect "ws://a"), (false, .connect "ws://b")]
    c.AtRest ∧ ¬ (c.status = .started ↔ announced c.history = .started) := by
  decide

end DevMachine.Connection

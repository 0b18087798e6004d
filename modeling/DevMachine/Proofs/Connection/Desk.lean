import DevMachine.Proofs.Connection.Incidents

/-!
# The desk after an incident

An incident answers one request at most.  The request it makes or cancels
changes its state, and every other one is left as it was.
-/

namespace DevMachine.Connection

variable {d : Desk} {incident : Incident}

namespace Desk

@[simp] theorem bus_answerWaiter (d : Desk) (a : Answer) : (d.answerWaiter a).bus = d.bus := by
  unfold answerWaiter
  split <;> rfl

@[simp] theorem watched_answerWaiter (d : Desk) (a : Answer) :
    (d.answerWaiter a).watched = d.watched := by
  unfold answerWaiter
  split <;> rfl

@[simp] theorem waiter_answerWaiter (d : Desk) (a : Answer) :
    (d.answerWaiter a).waiter = none := by
  unfold answerWaiter
  split <;> rfl

theorem request_answerWaiter (d : Desk) (a : Answer) (j : Nat) :
    (d.answerWaiter a).requests[j]? =
      if d.pending? = some j then some .answered else d.requests[j]? := by
  unfold answerWaiter
  cases hpending : d.pending? with
  | none => simp
  | some i =>
      have hlt := (List.getElem?_eq_some_iff.mp (pending?_eq_some_iff.mp hpending).2).1
      by_cases hij : i = j
      · subst hij
        simp [answer, hlt]
      · simp [answer, hij]

theorem resolves_made_of_bus {i k : Nat} (hbus : d.bus = some k) :
    d.resolves (.made i) = [(i, .bus k)] := by
  simp [resolves, hbus]

theorem resolves_made_of_no_bus {i : Nat} (hbus : d.bus = none) :
    d.resolves (.made i) =
      owed { d with requests := d.requests.set i .waiting } (.failure .superseded) := by
  simp [resolves, hbus]

theorem after_made_of_bus {i k : Nat} (hbus : d.bus = some k) :
    d.after (.made i) = answer { d with requests := d.requests.set i .waiting } i (.bus k) := by
  simp [after, serve, hbus]

theorem after_made_of_no_bus {i : Nat} (hbus : d.bus = none) :
    d.after (.made i) =
      { answerWaiter { d with requests := d.requests.set i .waiting } (.failure .superseded) with
        waiter := some i } := by
  simp [after, serve, hbus]

end Desk

theorem Desk.length_resolves_le (d : Desk) (incident : Incident) :
    (d.resolves incident).length ≤ 1 := by
  have howed (d : Desk) (a : Answer) : (d.owed a).length ≤ 1 := by
    unfold owed
    cases d.pending? <;> simp
  cases incident with
  | made i =>
      cases hbus : d.bus with
      | some k => simp [resolves_made_of_bus hbus]
      | none =>
          rw [resolves_made_of_no_bus hbus]
          exact howed _ _
  | opened k => exact howed d _
  | failed link retries =>
      by_cases hzero : retries = 0
      · rw [resolves, if_pos hzero]
        exact howed d _
      · simp [resolves, hzero]
  | _ => simp [resolves]

/-- The state of a request after an incident. -/
def Incident.changed (j : Nat) (before : Option RequestState) : Incident → Option RequestState
  | .made i => if i = j then some .waiting else before
  | .cancelled i => if i = j then before.map RequestState.cancel else before
  | _ => before

theorem Desk.request_after (hadmits : d.Admits incident) (j : Nat) :
    (d.after incident).requests[j]? =
      if j ∈ (d.resolves incident).map Prod.fst then some .answered
      else incident.changed j d.requests[j]? := by
  have howed (d : Desk) (a : Answer) : j ∈ (d.owed a).map Prod.fst ↔ d.pending? = some j := by
    simp [Desk.mem_owed_iff]
  cases incident with
  | made i =>
      have hlt := (List.getElem?_eq_some_iff.mp hadmits).1
      cases hbus : d.bus with
      | some k =>
          rw [Desk.after_made_of_bus hbus, Desk.resolves_made_of_bus hbus]
          by_cases hij : i = j
          · subst hij
            simp [Desk.answer, hlt]
          · simp [Desk.answer, Incident.changed, hij, Ne.symm hij]
      | none =>
          rw [Desk.after_made_of_no_bus hbus, Desk.resolves_made_of_no_bus hbus]
          simp only [howed, Desk.request_answerWaiter]
          by_cases hij : i = j
          · subst hij
            simp [Incident.changed, hlt]
          · simp [Incident.changed, hij]
  | opened k =>
      simp only [Desk.resolves, howed]
      exact Desk.request_answerWaiter { d with bus := some k } _ j
  | failed link retries =>
      by_cases hzero : retries = 0
      · simp only [Desk.resolves, Desk.after, hzero, if_true, howed]
        exact Desk.request_answerWaiter { d with bus := none } _ j
      · simp [Desk.resolves, Desk.after, hzero, Incident.changed]
  | cancelled i =>
      by_cases hij : i = j
      · simp [Desk.resolves, Desk.after, Incident.changed, hij]
      · simp [Desk.resolves, Desk.after, Incident.changed, hij]
  | closed k => simp [Desk.resolves, Desk.after, Incident.changed]
  | abandoned => simp [Desk.resolves, Desk.after, Incident.changed]

/-- A request waits after an incident if it was made while there was no bus, or
if it waited before and was not resolved. -/
theorem Desk.waiting_after (hadmits : d.Admits incident) {j : Nat}
    (hwaits : (d.after incident).requests[j]? = some .waiting) :
    (incident = .made j ∧ d.bus = none) ∨
      (d.requests[j]? = some .waiting ∧ j ∉ (d.resolves incident).map Prod.fst) := by
  rw [Desk.request_after hadmits] at hwaits
  split at hwaits
  next => cases hwaits
  next hmem =>
    cases incident with
    | made i =>
        by_cases hij : i = j
        · subst hij
          cases hbus : d.bus with
          | some k => simp [Desk.resolves_made_of_bus hbus] at hmem
          | none => exact .inl ⟨rfl, rfl⟩
        · rw [Incident.changed, if_neg hij] at hwaits
          exact .inr ⟨hwaits, hmem⟩
    | cancelled i =>
        by_cases hij : i = j
        · rw [Incident.changed, if_pos hij, Option.map_eq_some_iff] at hwaits
          obtain ⟨state, -, hstate⟩ := hwaits
          cases state <;> cases hstate
        · rw [Incident.changed, if_neg hij] at hwaits
          exact .inr ⟨hwaits, hmem⟩
    | _ => exact .inr ⟨hwaits, hmem⟩

theorem Desk.made_after (hadmits : d.Admits incident) {j : Nat} {state : RequestState}
    (hj : d.requests[j]? = some state) (hmade : state ≠ .asked) :
    ∃ state', (d.after incident).requests[j]? = some state' ∧ state' ≠ RequestState.asked := by
  rw [Desk.request_after hadmits, hj]
  split
  · exact ⟨_, rfl, by simp⟩
  · cases incident with
    | made i =>
        rw [Incident.changed]
        split
        · exact ⟨_, rfl, by simp⟩
        · exact ⟨state, rfl, hmade⟩
    | cancelled i =>
        rw [Incident.changed]
        split
        · refine ⟨_, rfl, ?_⟩
          cases state <;> simp [RequestState.cancel]
        · exact ⟨state, rfl, hmade⟩
    | _ => exact ⟨state, rfl, hmade⟩

theorem Desk.waiter_after {j : Nat} (hj : (d.after incident).waiter = some j) :
    incident = .made j ∨ d.waiter = some j := by
  cases incident with
  | made i =>
      cases hbus : d.bus with
      | some k =>
          rw [after_made_of_bus hbus] at hj
          exact .inr hj
      | none =>
          rw [after_made_of_no_bus hbus, Option.some.injEq] at hj
          exact .inl (congrArg Incident.made hj)
  | opened k =>
      have hnone : (d.after (.opened k)).waiter = none := waiter_answerWaiter _ _
      rw [hnone] at hj
      cases hj
  | failed link retries =>
      by_cases hzero : retries = 0
      · have hnone : (d.after (.failed link retries)).waiter = none := by
          rw [after, if_pos hzero]
          exact waiter_answerWaiter _ _
        rw [hnone] at hj
        cases hj
      · rw [after, if_neg hzero] at hj
        exact .inr hj
  | _ => exact .inr hj

/-- A request is asked for after an incident only if it was before and did not
get its turn. -/
theorem Desk.asked_after (hadmits : d.Admits incident) {j : Nat}
    (hasked : (d.after incident).requests[j]? = some .asked) :
    d.requests[j]? = some .asked ∧ incident ≠ .made j := by
  rw [Desk.request_after hadmits] at hasked
  split at hasked
  · cases hasked
  · cases incident with
    | made i =>
        rw [Incident.changed] at hasked
        split at hasked
        next => cases hasked
        next hij => exact ⟨hasked, fun heq => hij (Incident.made.inj heq)⟩
    | cancelled i =>
        rw [Incident.changed] at hasked
        split at hasked
        next =>
          obtain ⟨state, -, hstate⟩ := Option.map_eq_some_iff.mp hasked
          cases state <;> cases hstate
        next => exact ⟨hasked, nofun⟩
    | _ => exact ⟨hasked, nofun⟩

end DevMachine.Connection

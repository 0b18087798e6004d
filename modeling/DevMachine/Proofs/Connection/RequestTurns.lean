import DevMachine.Proofs.Connection.Desk

/-!
# Every request gets its turn

A request that was asked for is among what is to have its turn when the
connection settles, and in its turn it is made.  So after a connection has
settled no request is merely asked for: it was made or it was cancelled.
-/

namespace DevMachine.Connection

open Channel (Failure)

variable {c c' : Connection} {j : Nat}

theorem Occurs.asked (h : Occurs c c') (hasked : c'.requests[j]? = some .asked) :
    c.requests[j]? = some .asked := by
  change c'.desk.requests[j]? = _ at hasked
  rcases h with ⟨incident, h⟩ | h
  · rw [h.desk_eq.2] at hasked
    exact (Desk.asked_after h.desk_eq.1 hasked).1
  · rw [h.desk_eq] at hasked
    exact hasked

theorem asked_moves (fuel : Nat) (c : Connection)
    (hasked : (moves fuel c).requests[j]? = some .asked) : c.requests[j]? = some .asked := by
  induction fuel generalizing c with
  | zero => exact hasked
  | succ fuel ih =>
      simp only [moves] at hasked
      cases hmove : c.move? with
      | none => simpa only [hmove] using hasked
      | some c' =>
          simp only [hmove] at hasked
          exact (occurs_move hmove).asked (ih c' hasked)

theorem asked_serve {i : Nat} (hasked : (c.serve i).requests[j]? = some .asked) :
    c.requests[j]? = some .asked ∧ i ≠ j := by
  by_cases hi : c.requests[i]? = some .asked
  · have hmade : Happens c (.made i) (c.serve i) := .made hi
    obtain ⟨hadmits, hdesk⟩ := hmade.desk_eq
    change (c.serve i).desk.requests[j]? = _ at hasked
    rw [hdesk] at hasked
    obtain ⟨hj, hne⟩ := Desk.asked_after hadmits hasked
    exact ⟨hj, fun heq => hne (congrArg Incident.made heq)⟩
  · rw [serve_of_not_asked hi] at hasked
    refine ⟨hasked, ?_⟩
    rintro rfl
    exact hi hasked

theorem asked_turns (wakes : List Wake) (c : Connection)
    (hasked : (wakes.foldl turn c).requests[j]? = some .asked) :
    c.requests[j]? = some .asked ∧ .request j ∉ wakes := by
  induction wakes generalizing c with
  | nil => exact ⟨hasked, List.not_mem_nil⟩
  | cons w wakes ih =>
      -- the turns after the first one did not ask for the request either
      obtain ⟨hturned, hrest⟩ := ih (c.turn w) hasked
      rw [List.mem_cons, not_or]
      cases w with
      | driver => exact ⟨asked_moves c.rank c hturned, nofun, hrest⟩
      | request i =>
          obtain ⟨hj, hne⟩ := asked_serve hturned
          exact ⟨hj, fun heq => hne (Wake.request.inj heq).symm, hrest⟩

/-- A request that was asked for is to have its turn. -/
def Attended (c : Connection) : Prop :=
  ∀ j : Nat, c.requests[j]? = some .asked → .request j ∈ c.ready

def Served (c : Connection) : Prop := ∀ j : Nat, c.requests[j]? ≠ some .asked

theorem Served.attended (h : c.Served) : c.Attended := fun j hasked => absurd hasked (h j)

theorem Attended.settle (h : c.Attended) : c.settle.Served := by
  intro j hasked
  obtain ⟨hj, hready⟩ := asked_turns c.ready { c with ready := [] } hasked
  exact hready (h j hj)

theorem Attended.of_same (h : c.Attended) (hrequests : c'.requests = c.requests)
    (hready : ∀ i, Wake.request i ∈ c.ready → Wake.request i ∈ c'.ready) : c'.Attended := by
  intro j hasked
  rw [hrequests] at hasked
  exact hready j (h j hasked)

theorem requests_wake (c : Connection) (w : Wake) : (c.wake w).requests = c.requests := by
  unfold wake
  split <;> rfl

theorem Attended.wake (h : c.Attended) (w : Wake) : (c.wake w).Attended :=
  h.of_same (requests_wake c w) fun _ hready => (mem_ready_wake c).mpr (.inl hready)

theorem asked_passUntil (target fuel : Nat) (c : Connection)
    (hasked : (passUntil target fuel c).requests[j]? = some .asked) :
    c.requests[j]? = some .asked := by
  induction fuel generalizing c with
  | zero => exact hasked
  | succ fuel ih =>
      simp only [passUntil] at hasked
      cases hnext : c.nextDue? with
      | none => simpa only [hnext] using hasked
      | some t =>
          simp only [hnext] at hasked
          split at hasked
          · exact asked_moves _ { c with clock := max c.clock t } (ih _ hasked)
          · exact hasked

theorem Attended.sleep (h : c.Attended) (duration : Nat) : (c.sleep duration).Served :=
  fun j hasked => h.settle j (asked_passUntil _ _ c.settle hasked)

theorem Attended.abandonDriver (h : c.Attended) : c.abandonDriver.Attended := by
  unfold Connection.abandonDriver
  split
  · exact h
  · exact h
  · exact h.of_same rfl fun i hready => List.mem_filter.mpr ⟨hready, by simp⟩

theorem requests_close (c : Connection) : c.close.requests = c.abandonDriver.requests := by
  unfold close
  dsimp only
  split <;> cases c.abandonDriver.bus <;> rfl

theorem ready_close (c : Connection) : c.close.ready = c.abandonDriver.ready := by
  unfold close
  dsimp only
  split <;> cases c.abandonDriver.bus <;> rfl

theorem Attended.close (h : c.Attended) : c.close.Attended := by
  refine h.abandonDriver.of_same (requests_close c) fun i hready => ?_
  rw [ready_close]
  exact hready

theorem Attended.request (h : c.Attended) : c.request.2.Attended := by
  intro j hasked
  change (c.addRequest.wake (.request c.requests.length)).requests[j]? = _ at hasked
  rw [requests_wake] at hasked
  refine (mem_ready_wake c.addRequest).mpr ?_
  rcases Nat.lt_trichotomy j c.requests.length with hj | rfl | hj
  · refine .inl (h j ?_)
    rwa [addRequest, List.getElem?_append_left hj] at hasked
  · exact .inr rfl
  · have hnone : c.addRequest.requests[j]? = none := by simp [addRequest]; omega
    rw [hnone] at hasked
    cases hasked

theorem Attended.cancel (h : c.Attended) (i : Nat) : (c.cancel i).Attended := by
  intro j hasked
  refine h j ?_
  by_cases hi : i < c.requests.length
  · have hcancelled : Happens c (.cancelled i) (c.cancel i) := .cancelled hi
    exact Occurs.asked (.inl ⟨_, hcancelled⟩) hasked
  · rwa [Connection.cancel, List.modify_eq_self (by omega)] at hasked

theorem Attended.endLink (h : c.Attended) (k : Nat) (ending : Option Failure) :
    (c.endLink k ending).Attended := by
  have hended : Attended { c with
      links := c.links.modify k fun l => { l with farEnd := l.farEnd.or (some ending) } } := h
  unfold Connection.endLink
  dsimp only
  split
  · exact hended.wake .driver
  · exact hended

theorem Attended.perform (h : c.Attended) {st : Step} (hst : st ≠ .dropController) :
    (c.perform st).2.Attended := by
  cases st with
  | connect url =>
      have hnew : Attended { c.abandonDriver with
          retries := retryBudget, status := .stopped, bus := none, driver := some { url } } :=
        h.abandonDriver
      exact hnew.wake .driver
  | close => exact h.close
  | request => exact h.request
  | cancel i => exact h.cancel i
  | closeLink k failure => exact h.endLink k failure
  | dropLink k => exact h.endLink k (some .closed)
  | subscribe k channel => exact h
  | dispatch k frame => exact h
  | next k id => exact h
  | dropController => exact absurd rfl hst
  | sleep duration => exact (h.sleep duration).attended
  | settle => exact h.settle.attended

theorem attended_run {steps : List (Bool × Step)}
    (hsteps : ∀ entry ∈ steps, entry.2 ≠ .dropController) (h : c.Attended) :
    (c.run steps).Attended := by
  induction steps generalizing c with
  | nil => exact h
  | cons entry steps ih =>
      obtain ⟨queued, st⟩ := entry
      have hperformed := h.perform (hsteps _ List.mem_cons_self)
      have hstep : (c.step queued st).2.Attended := by
        cases queued with
        | true => exact hperformed
        | false => exact hperformed.settle.attended
      exact ih (fun entry hentry => hsteps entry (List.mem_cons_of_mem _ hentry)) hstep

theorem served_run (script : List Attempt) {steps : List (Bool × Step)}
    (hsteps : ∀ entry ∈ steps, entry.2 ≠ .dropController) :
    (run { script } steps).settle.Served := by
  have hnone : Attended { script } := by
    intro j hasked
    cases hasked
  exact (attended_run hsteps hnone).settle

end DevMachine.Connection

import DevMachine.Proofs.Connection.Settling

/-!
# Steps and runs

Whatever the steps, a driver that is not to have its turn has to wait.  Steps
other than connecting, closing and giving the connection up leave the driver
in charge, so a run of them changes its situation in the listed ways only.
-/

namespace DevMachine.Connection

open Channel (Bus Failure)

/-- The driver stays in charge in this step. -/
def Step.Continues : Step → Prop
  | .connect _ | .close | .dropController => False
  | _ => True

variable (c : Connection)

@[simp] theorem situation_wake (w : Wake) : (c.wake w).situation = c.situation := by
  unfold wake
  split <;> rfl

@[simp] theorem situation_cancel (i : Nat) : (c.cancel i).situation = c.situation := rfl

@[simp] theorem situation_request : c.request.2.situation = c.situation := by
  simp only [request, situation_wake]
  rfl

theorem map_bare_modify (links : List Link) (k : Nat) (f f' : Link → Link)
    (hbare : ∀ l, (f l).bare = f' l.bare) :
    (links.modify k f).map Link.bare = (links.map Link.bare).modify k f' := by
  have hcomp : Link.bare ∘ f = f' ∘ Link.bare := funext hbare
  apply List.ext_getElem?
  intro j
  by_cases hj : k = j <;> simp [hj, hcomp]

@[simp] theorem situation_updateBus (k : Nat) (f : Bus → Bus) :
    (c.updateBus k f).situation = c.situation := by
  have hlinks := map_bare_modify c.links k (fun l => { l with bus := f l.bus }) id
    fun l => rfl
  rw [List.modify_id] at hlinks
  exact congrArg (fun links => { c.situation with links }) hlinks

theorem mem_ready_wake {w v : Wake} : v ∈ (c.wake w).ready ↔ v ∈ c.ready ∨ v = w := by
  unfold wake
  split
  next hmem =>
    have hmem : w ∈ c.ready := by simpa using hmem
    constructor
    · exact .inl
    · rintro (h | rfl) <;> assumption
  next => simp

theorem situation_endLink (k : Nat) (ending : Option Failure) :
    (c.endLink k ending).situation = { c.situation with
      links := c.situation.links.modify k (Link.endedBy ending) } := by
  have hlinks := map_bare_modify c.links k (Link.endedBy ending) (Link.endedBy ending)
    fun l => rfl
  unfold endLink
  dsimp only
  split
  · rw [situation_wake]
    exact congrArg (fun links => { c.situation with links }) hlinks
  · exact congrArg (fun links => { c.situation with links }) hlinks

theorem endLink_leads (k : Nat) (ending : Option Failure) :
    c.situation.Leads (c.endLink k ending).situation := by
  rw [situation_endLink]
  exact .single (.farEnd k ending)

variable {c}

theorem DriverWaits.endLink (h : c.DriverWaits) (k : Nat) (ending : Option Failure) :
    (c.endLink k ending).DriverWaits := by
  intro hready
  rw [situation_endLink]
  by_cases hwatched : c.watched? = some k
  · rw [Connection.endLink, if_pos (by exact hwatched), mem_ready_wake] at hready
    exact absurd (.inr rfl) hready
  · have hready' : Wake.driver ∉ c.ready := by
      intro hmem
      apply hready
      unfold Connection.endLink
      dsimp only
      split
      · exact (mem_ready_wake _).mpr (.inl hmem)
      · exact hmem
    apply (h hready').farEnd
    intro hphase
    apply hwatched
    have hphase : c.phase? = some (.linked k) := hphase
    simp [watched?, hphase]

/-- A part of a step that leaves the situation alone and takes no turn away
leaves the driver waiting. -/
theorem DriverWaits.of_situation {c' : Connection} (h : c.DriverWaits)
    (hsituation : c'.situation = c.situation) (hready : ∀ w ∈ c.ready, w ∈ c'.ready) :
    c'.DriverWaits := by
  intro hmem
  rw [hsituation]
  exact h fun h' => hmem (hready _ h')

theorem driverWaits_of_driver_eq_none (h : c.driver = none) : c.DriverWaits :=
  fun _ => Situation.quiet_of_driver_eq_none h

theorem driver_abandonDriver (c : Connection) : c.abandonDriver.driver = none := by
  unfold abandonDriver
  split <;> rfl

theorem driver_close (c : Connection) : c.close.driver = none := by
  have hlost := driver_abandonDriver c
  unfold close
  dsimp only
  cases c.abandonDriver.bus <;> split <;> simpa [record, updateBus] using hlost

theorem perform_waits (h : c.DriverWaits) (st : Step) : (c.perform st).2.DriverWaits := by
  cases st with
  | connect url =>
      intro hready
      exact absurd ((mem_ready_wake _).mpr (.inr rfl)) hready
  | close => exact driverWaits_of_driver_eq_none (driver_close c)
  | dropController =>
      apply driverWaits_of_driver_eq_none
      simp [perform, dropController, driver_abandonDriver]
  | request =>
      apply h.of_situation (situation_request c)
      intro w hw
      exact (mem_ready_wake _).mpr (.inl hw)
  | cancel i => exact h.of_situation (situation_cancel c i) fun _ => id
  | closeLink k failure => exact h.endLink k failure
  | dropLink k => exact h.endLink k (some .closed)
  | subscribe k channel => exact h.of_situation (situation_updateBus c k _) fun _ => id
  | dispatch k frame => exact h.of_situation (situation_updateBus c k _) fun _ => id
  | next k id => exact h.of_situation (situation_updateBus c k _) fun _ hw => hw
  | sleep duration => exact fun _ => (sleep_leads h duration).2
  | settle => exact fun _ => settle_quiet h

theorem perform_leads (h : c.DriverWaits) {st : Step} (hst : st.Continues) :
    c.situation.Leads (c.perform st).2.situation := by
  cases st with
  | connect url => exact hst.elim
  | close => exact hst.elim
  | dropController => exact hst.elim
  | request =>
      change c.situation.Leads c.request.2.situation
      rw [situation_request]
      exact .refl
  | cancel i => exact .refl
  | closeLink k failure => exact endLink_leads c k failure
  | dropLink k => exact endLink_leads c k (some .closed)
  | subscribe k channel =>
      change c.situation.Leads (c.updateBus k _).situation
      rw [situation_updateBus]
      exact .refl
  | dispatch k frame =>
      change c.situation.Leads (c.updateBus k _).situation
      rw [situation_updateBus]
      exact .refl
  | next k id =>
      change c.situation.Leads (c.updateBus k _).situation
      rw [situation_updateBus]
      exact .refl
  | sleep duration => exact (sleep_leads h duration).1
  | settle => exact settle_leads c

theorem step_waits (h : c.DriverWaits) (queued : Bool) (st : Step) :
    (c.step queued st).2.DriverWaits := by
  have hperform := perform_waits h st
  cases queued with
  | true => exact hperform
  | false => exact fun _ => settle_quiet hperform

theorem step_leads (h : c.DriverWaits) (queued : Bool) {st : Step} (hst : st.Continues) :
    c.situation.Leads (c.step queued st).2.situation := by
  have hperform := perform_leads h hst
  cases queued with
  | true => exact hperform
  | false => exact hperform.trans (settle_leads _)

theorem run_waits (h : c.DriverWaits) (steps : List (Bool × Step)) :
    (c.run steps).DriverWaits := by
  induction steps generalizing c with
  | nil => exact h
  | cons entry steps ih => exact ih (step_waits h entry.1 entry.2)

theorem run_leads (h : c.DriverWaits) {steps : List (Bool × Step)}
    (hsteps : ∀ entry ∈ steps, entry.2.Continues) :
    c.situation.Leads (c.run steps).situation := by
  induction steps generalizing c with
  | nil => exact .refl
  | cons entry steps ih =>
      have hfirst := step_leads h entry.1 (hsteps entry (by simp))
      exact hfirst.trans (ih (step_waits h entry.1 entry.2)
        fun other hother => hsteps other (by simp [hother]))

theorem driverWaits_initial (script : List Attempt) :
    DriverWaits { script } :=
  driverWaits_of_driver_eq_none rfl

end DevMachine.Connection

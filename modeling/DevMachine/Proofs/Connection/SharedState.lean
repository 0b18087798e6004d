import DevMachine.Proofs.Connection.Effects
import DevMachine.Proofs.Connection.WaiterProtocol

/-!
# The state of a connection at rest

The bus that is handed out, the status, the waiting place and the retries are
written by different parties, none of which writes all four.  That they fit together
rests on the bus being that of the link which the driver watches: whatever takes the
watch away takes the bus away as well.
-/

namespace DevMachine.Connection

open Channel (Bus Failure)

variable {c c' : Connection}

structure Coherent (c : Connection) : Prop where
  started : ∀ k, c.bus = some k → c.status = .started
  unclaimed : ∀ k, c.bus = some k → c.waiter = none
  latest : ∀ k, c.bus = some k → k + 1 = c.links.length
  watched : ∀ k, c.bus = some k → c.watched? = some k
  budget : c.retries ≤ retryBudget

theorem Coherent.of_no_bus (hbus : c.bus = none) (hbudget : c.retries ≤ retryBudget) :
    Coherent c := by
  constructor <;> simp [hbus, hbudget]

theorem Coherent.bus_eq_none (h : Coherent c) (hwatched : c.watched? = none) : c.bus = none := by
  cases hbus : c.bus with
  | none => rfl
  | some k =>
      have hk := h.watched k hbus
      rw [hwatched] at hk
      cases hk

theorem Coherent.of_same (h : Coherent c) (hbus : c'.bus = c.bus) (hstatus : c'.status = c.status)
    (hwaiter : c'.waiter = c.waiter) (hlinks : c'.links.length = c.links.length)
    (hwatched : c'.watched? = c.watched?) (hretries : c'.retries = c.retries) : Coherent c' := by
  constructor
  · rw [hbus, hstatus]
    exact h.started
  · rw [hbus, hwaiter]
    exact h.unclaimed
  · rw [hbus, hlinks]
    exact h.latest
  · rw [hbus, hwatched]
    exact h.watched
  · rw [hretries]
    exact h.budget

theorem Coherent.serve (h : Coherent c) (i : Nat) : Coherent (c.serve i) := by
  cases hbus : c.bus with
  | some k =>
      obtain ⟨requests, entries, heq, -⟩ := serve_of_bus c (i := i) hbus
      rw [heq]
      exact h.of_same rfl rfl rfl rfl rfl rfl
  | none =>
      obtain ⟨waiter, requests, entries, heq, -⟩ := serve_of_no_bus c (i := i) hbus
      rw [heq]
      exact .of_no_bus hbus h.budget

theorem Coherent.linkOpened (h : Coherent c) {url : String} {phase : Phase}
    (hdriver : c.driver = some { url, phase }) (fading : Option Fading) :
    Coherent (c.linkOpened fading) := by
  obtain ⟨link, driver, requests, entries, heq, hlinked, -⟩ := linkOpened_eq c fading
  have hwatched : (c.linkOpened fading).watched? = some c.links.length := by
    rw [heq, hlinked]
    simp [watched?, phase?, hdriver]
  have hbus : (c.linkOpened fading).bus = some c.links.length := by rw [heq]
  constructor
  · intro k hk
    rw [heq]
  · intro k hk
    rw [heq]
  · intro k hk
    rw [hbus, Option.some.injEq] at hk
    rw [heq, ← hk]
    simp
  · intro k hk
    rw [hwatched, ← hk, hbus]
  · rw [heq]
    exact h.budget

theorem Coherent.failed (h : Coherent c) (hbus : c.bus = none) (cause : Failure) :
    Coherent (c.failed cause) := by
  by_cases hretries : c.retries = 0
  · obtain ⟨driver, requests, entries, heq, -⟩ := failed_of_no_retries c cause hretries
    rw [heq]
    exact .of_no_bus rfl h.budget
  · rw [failed_of_retries c cause hretries]
    exact .of_no_bus hbus (Nat.le_trans (Nat.sub_le _ _) h.budget)

theorem stable_coherent : Stable Coherent where
  happens := by
    intro c c' incident hhappens hkept h
    cases hhappens with
    | made hasked => exact h.serve _
    | cancelled hmade => exact h.of_same rfl rfl rfl rfl rfl rfl
    | opened hdriver hdue => exact h.linkOpened hdriver _
    | closed hdriver hlink hended => exact .of_no_bus rfl h.budget
    | refused hdriver hdue hcause =>
        have hwatched : c.watched? = none := by simp [watched?, phase?, hdriver]
        exact h.failed (h.bus_eq_none hwatched) _
    | broken hdriver hlink hended =>
        exact Coherent.failed (c := { c with bus := none }) (.of_no_bus rfl h.budget) rfl _
    | connects url => exact absurd rfl hkept
    | closes => exact absurd rfl hkept
  begins := by
    intro c url phase hdriver hbegins h
    have hbus := h.bus_eq_none (watched?_of_begins hdriver hbegins)
    exact .of_no_bus hbus h.budget
  waits := fun clock ready lingering h => h.of_same rfl rfl rfl rfl rfl rfl
  asks := by
    intro c h
    obtain ⟨ready, heq⟩ := request_eq c
    rw [heq]
    exact h.of_same rfl rfl rfl rfl rfl rfl
  ends := by
    intro c k ending h
    obtain ⟨ready, heq⟩ := endLink_eq c k ending
    rw [heq]
    exact h.of_same rfl rfl rfl (List.length_modify _ _ _) rfl rfl

theorem coherent_run (script : List Attempt) {steps : List (Bool × Step)}
    (hsteps : ∀ entry ∈ steps, entry.2 ≠ .dropController) : Coherent (run { script } steps) := by
  have hstart : Coherent { script } := .of_no_bus rfl (Nat.le_refl _)
  refine stable_coherent.run ?_ ?_ hstart
  · intro c k op h
    exact h.of_same rfl rfl rfl (List.length_modify _ _ _) rfl rfl
  · rintro ⟨queued, st⟩ hentry hst c h
    cases st with
    | connect url =>
        obtain ⟨ready, lingering, heq⟩ := connect_eq c url
        rw [perform, heq]
        exact .of_no_bus rfl (Nat.le_refl _)
    | close =>
        obtain ⟨ready, lingering, heq⟩ := close_eq c
        rw [perform, heq]
        exact .of_no_bus rfl h.budget
    | dropController => exact absurd rfl (hsteps _ hentry)
    | _ => exact (hst trivial).elim

/-- The driver watches a link, the latest one, which has not ended. -/
def IsUp (c : Connection) (k : Nat) : Prop :=
  c.watched? = some k ∧ k + 1 = c.links.length ∧ ∃ l, c.links[k]? = some l ∧ l.ended? c.clock = none

/-- A driver that has to wait watches a link that has not ended. -/
theorem ended?_of_quiet (hquiet : c.situation.Quiet) {k : Nat} (hwatched : c.watched? = some k)
    {l : Link} (hlink : c.links[k]? = some l) : l.ended? c.clock = none := by
  obtain ⟨url, hdriver⟩ := (watched?_eq_some_iff c).mp hwatched
  have hsituation : c.situation.driver = some { url, phase := .linked k } := hdriver
  have hbare : c.situation.links[k]? = some l.bare := by
    rw [situation_links_getElem?, hlink]
    rfl
  cases hended : l.ended? c.clock with
  | none => rfl
  | some ending =>
      cases ending with
      | none => exact absurd (.closes hsituation hbare hended) (hquiet _)
      | some cause => exact absurd (.fails hsituation ⟨l.bare, hbare, hended⟩) (hquiet _)

theorem Coherent.isUp (h : Coherent c) (hquiet : c.situation.Quiet) {k : Nat}
    (hbus : c.bus = some k) : c.IsUp k := by
  have hlatest := h.latest k hbus
  have hwatched := h.watched k hbus
  have hlink : c.links[k]? = some c.links[k] := List.getElem?_eq_getElem (by omega)
  exact ⟨hwatched, hlatest, _, hlink, ended?_of_quiet hquiet hwatched hlink⟩

/-- A request that is made at rest is answered by the bus that is handed out,
if there is one, and by no other. -/
theorem answers_of_request (hrest : c.AtRest) :
    ∃ given, (c.step false .request).2.answers = c.answers ++ given ∧
      ∀ i k, (i, .bus k) ∈ given ↔ i = c.requests.length ∧ c.bus = some k := by
  let asked : Connection := { c.addRequest with ready := [] }
  have hwake : c.request.2 = { c.addRequest with ready := [.request c.requests.length] } := by
    have hready : c.addRequest.ready = [] := hrest
    simp [request, wake, hready]
  have hsettled : (c.step false .request).2.answers = (asked.serve c.requests.length).answers := by
    change c.request.2.settle.answers = _
    rw [hwake]
    rfl
  have hmade : Happens asked (.made c.requests.length) (asked.serve c.requests.length) :=
    .made (by simp [asked, addRequest])
  have hanswers := congrArg Desk.answers hmade.desk_eq.2
  rw [Desk.answers_after] at hanswers
  refine ⟨_, hsettled.trans hanswers, ?_⟩
  intro i k
  cases hbus : c.bus with
  | some j =>
      have hdesk : asked.desk.bus = some j := hbus
      rw [Desk.resolves_made_of_bus hdesk]
      simp [eq_comm]
  | none =>
      have hdesk : asked.desk.bus = none := hbus
      rw [Desk.resolves_made_of_no_bus hdesk, Desk.mem_owed_iff]
      simp

/-- What fits together in a connection at rest. -/
structure Consistent (c : Connection) : Prop where
  started : ∀ k, c.bus = some k → c.status = .started
  unclaimed : ∀ k, c.bus = some k → c.waiter = none
  up : ∀ k, c.bus = some k → c.IsUp k
  stopped : c.status = .stopped → c.bus = none
  budget : c.retries ≤ 5
  /-- With an open link no request is pending, nor is one still to be made. -/
  answered : ∀ k, c.bus = some k → ∀ i : Nat,
    c.requests[i]? ≠ some .asked ∧ c.requests[i]? ≠ some .waiting
  /-- A request that is made now gets the bus at once exactly if it is held. -/
  prompt : ∃ given, (c.step false .request).2.answers = c.answers ++ given ∧
    ∀ i k, (i, .bus k) ∈ given ↔ i = c.requests.length ∧ c.bus = some k

/-- Whatever run has led to it, a connection at rest is consistent. -/
theorem consistent_at_rest (script : List Attempt) (steps : List (Bool × Step))
    (hsteps : ∀ entry ∈ steps, entry.2 ≠ .dropController)
    (hrest : (run { script } steps).AtRest) : Consistent (run { script } steps) := by
  have hcoherent := coherent_run script hsteps
  have hquiet : (run { script } steps).situation.Quiet := by
    apply run_waits (driverWaits_initial script) steps
    rw [hrest]
    exact List.not_mem_nil
  refine ⟨hcoherent.started, hcoherent.unclaimed, fun k => hcoherent.isUp hquiet, ?_,
    hcoherent.budget, ?_, answers_of_request hrest⟩
  · intro hstopped
    cases hbus : (run { script } steps).bus with
    | none => rfl
    | some k =>
        have hstarted := hcoherent.started k hbus
        rw [hstopped] at hstarted
        cases hstarted
  · intro k hbus i
    constructor
    · intro hasked
      have hattended : Attended { script } := fun j hj => by cases hj
      have hready := attended_run hsteps hattended i hasked
      rw [hrest] at hready
      exact List.not_mem_nil hready
    · intro hwaiting
      obtain ⟨log, hcourse⟩ := course_run script hsteps
      have hnone : (run { script } steps).bus = none := (course_keeps hcourse).busy i hwaiting
      rw [hbus] at hnone
      cases hnone

/-- The first link broke, and a request waited for the second one, which is up
after the retry. -/
theorem consistent_at_rest_past_broken_link :
    let script : List Attempt := [{ opening := .opens none },
      { opening := .opens none, delay := 7 }]
    let steps : List (Bool × Step) := [(true, .request), (false, .connect "ws://a"),
      (false, .dropLink 0), (false, .request), (false, .sleep 2000), (true, .closeLink 0 none)]
    let c := run { script } steps
    (∀ entry ∈ steps, entry.2 ≠ .dropController) ∧ c.AtRest ∧ c.bus = some 1 ∧ c.retries = 4 ∧
      Consistent c := by
  intro script steps c
  have hsteps : ∀ entry ∈ steps, entry.2 ≠ .dropController := by simp [steps]
  have hrest : c.AtRest := by decide
  exact ⟨hsteps, hrest, by decide, by decide, consistent_at_rest script steps hsteps hrest⟩

end DevMachine.Connection

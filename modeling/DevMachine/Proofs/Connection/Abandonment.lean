import DevMachine.Proofs.Connection.Desk
import DevMachine.Proofs.Connection.OldLinks
import DevMachine.Proofs.Connection.RequestTurns
import DevMachine.Proofs.Connection.RetryGrammar

/-!
# Drivers that are given up

Closing and connecting anew give the driver up, whatever it is doing.  After
closing nothing happens until somebody connects, except that requests supersede
each other.  After connecting anew all that is told is the account of the new
driver, and every bus that is handed out is that of a link of its own.
-/

namespace DevMachine.Connection

open Channel (Bus Failure)

variable {c₀ c₁ c c' : Connection} {n : Nat}

/-- The request had its turn or was cancelled. -/
def IsMade (c : Connection) (i : Nat) : Prop :=
  ∃ state, c.requests[i]? = some state ∧ state ≠ .asked

theorem IsMade.happens {i : Nat} {incident : Incident} (h : c.IsMade i)
    (hhappens : Happens c incident c') : c'.IsMade i := by
  obtain ⟨state, hstate, hmade⟩ := h
  obtain ⟨hadmits, hdesk⟩ := hhappens.desk_eq
  have hafter := Desk.made_after hadmits (j := i) hstate hmade
  rwa [← hdesk] at hafter

theorem isMade_serve {i : Nat} (hasked : c.requests[i]? = some .asked) : (c.serve i).IsMade i := by
  have hhappens : Happens c (.made i) (c.serve i) := .made hasked
  obtain ⟨hadmits, hdesk⟩ := hhappens.desk_eq
  have hafter := Desk.request_after hadmits i
  rw [← hdesk, Incident.changed, if_pos rfl] at hafter
  split at hafter
  · exact ⟨_, hafter, by simp⟩
  · exact ⟨_, hafter, by simp⟩

theorem IsMade.request {i : Nat} (h : c.IsMade i) : c.request.2.IsMade i := by
  obtain ⟨ready, heq⟩ := request_eq c
  obtain ⟨state, hstate, hmade⟩ := h
  have hi := (List.getElem?_eq_some_iff.mp hstate).1
  rw [heq]
  exact ⟨state, by simpa [List.getElem?_append_left hi] using hstate, hmade⟩

/-- No driver is at work, and none has been since `c₁`. -/
structure Still (c₁ c : Connection) : Prop where
  driver : c.driver = none
  status : c.status = .stopped
  bus : c.bus = none
  retries : c.retries = c₁.retries
  script : c.script = c₁.script
  links : c.links.length = c₁.links.length
  /-- No notice was given and no attempt begun. -/
  told : c.told = c₁.told

/-- Nothing has happened since `c₁`, except that requests made since then have
superseded others, each of them one at most. -/
structure Idle (c₁ c : Connection) : Prop extends Still c₁ c where
  answers : ∃ superseded newer : List Nat,
    c.answers = c₁.answers ++ superseded.map (·, .failure .superseded) ∧
      superseded.length ≤ newer.length ∧ newer.Nodup ∧ ∀ i ∈ newer, ¬ c₁.IsMade i ∧ c.IsMade i
  waiter : c.waiter = c₁.waiter ∨ ∃ i, c.waiter = some i ∧ ¬ c₁.IsMade i
  made : ∀ i, c₁.IsMade i → c.IsMade i

theorem Still.serve (h : Still c₁ c) (i : Nat) : Still c₁ (c.serve i) := by
  have htold : (c.serve i).told = c₁.told :=
    (congrArg Situation.told (situation_serve c i)).trans h.told
  obtain ⟨waiter, requests, entries, heq⟩ := serve_eq c i
  rw [heq] at htold ⊢
  exact ⟨h.driver, h.status, h.bus, h.retries, h.script, h.links, htold⟩

theorem Idle.serve (h : Idle c₁ c) {i : Nat} (hasked : c.requests[i]? = some .asked) :
    Idle c₁ (c.serve i) := by
  have hhappens : Happens c (.made i) (c.serve i) := .made hasked
  have hdesk := hhappens.desk_eq.2
  have hmade : ∀ j, c.IsMade j → (c.serve i).IsMade j := fun j hj => hj.happens hhappens
  have hunmade : ¬ c.IsMade i := by
    rintro ⟨state, hstate, hmade⟩
    rw [hasked] at hstate
    cases hstate
    exact hmade rfl
  have hnew : ¬ c₁.IsMade i := fun hold => hunmade (h.made i hold)
  obtain ⟨superseded, newer, hgiven, hlength, hnodup, hnewer⟩ := h.answers
  refine ⟨h.toStill.serve i, ?_, ?_, fun j hj => hmade j (h.made j hj)⟩
  · have hanswers := congrArg Desk.answers hdesk
    rw [Desk.answers_after, Desk.resolves_made_of_no_bus h.bus, Desk.owed] at hanswers
    generalize Desk.pending? _ = pending? at hanswers
    -- whoever waited is superseded, and the request itself pays for it
    refine ⟨superseded ++ pending?.toList, newer ++ [i], ?_, ?_, ?_, ?_⟩
    · rw [List.map_append, ← List.append_assoc, ← hgiven]
      refine hanswers.trans ?_
      cases pending? <;> rfl
    · cases pending? <;> simp <;> omega
    · refine List.nodup_append.mpr ⟨hnodup, by simp, ?_⟩
      rintro j hj j' hj' rfl
      rw [List.mem_singleton.mp hj'] at hj
      exact hunmade (hnewer i hj).2
    · intro j hj
      rw [List.mem_append, List.mem_singleton] at hj
      rcases hj with hj | rfl
      · exact ⟨(hnewer j hj).1, hmade j (hnewer j hj).2⟩
      · exact ⟨hnew, isMade_serve hasked⟩
  · have hwaiter := congrArg Desk.waiter hdesk
    rw [Desk.after_made_of_no_bus h.bus] at hwaiter
    exact .inr ⟨i, hwaiter, hnew⟩

/-- Idle connections stay so as long as what was made stays made. -/
theorem Idle.of_still (h : Idle c₁ c) (hstill : Still c₁ c') (hanswers : c'.answers = c.answers)
    (hwaiter : c'.waiter = c.waiter) (hmade : ∀ i, c.IsMade i → c'.IsMade i) : Idle c₁ c' := by
  refine ⟨hstill, ?_, ?_, fun i hi => hmade i (h.made i hi)⟩
  · obtain ⟨superseded, newer, hgiven, hlength, hnodup, hnewer⟩ := h.answers
    refine ⟨superseded, newer, hanswers.trans hgiven, hlength, hnodup, ?_⟩
    exact fun i hi => ⟨(hnewer i hi).1, hmade i (hnewer i hi).2⟩
  · rw [hwaiter]
    exact h.waiter

theorem stable_idle (c₁ : Connection) : Stable (Idle c₁) where
  happens := by
    intro c c' incident hhappens hkept h
    cases hhappens with
    | made hasked => exact h.serve hasked
    | cancelled hmade =>
        refine h.of_still ?_ rfl rfl fun i hi => hi.happens (.cancelled hmade)
        exact ⟨h.driver, h.status, h.bus, h.retries, h.script, h.links, h.told⟩
    | connects url => exact absurd rfl hkept
    | closes => exact absurd rfl hkept
    | opened hdriver _ | closed hdriver _ _ | refused hdriver _ _ | broken hdriver _ _ =>
        rw [h.driver] at hdriver
        cases hdriver
  begins := by
    intro c url phase hdriver hbegins h
    rw [h.driver] at hdriver
    cases hdriver
  waits := by
    intro c clock ready lingering h
    refine h.of_still ?_ rfl rfl fun i hi => hi
    exact ⟨h.driver, h.status, h.bus, h.retries, h.script, h.links, h.told⟩
  asks := by
    intro c h
    have hmade : ∀ i, c.IsMade i → c.request.2.IsMade i := fun i hi => hi.request
    obtain ⟨ready, heq⟩ := request_eq c
    rw [heq] at hmade ⊢
    refine h.of_still ?_ rfl rfl hmade
    exact ⟨h.driver, h.status, h.bus, h.retries, h.script, h.links, h.told⟩
  ends := by
    intro c k ending h
    obtain ⟨ready, heq⟩ := endLink_eq c k ending
    rw [heq]
    refine h.of_still ?_ rfl rfl fun i hi => hi
    exact ⟨h.driver, h.status, h.bus, h.retries, h.script, by simpa using h.links, h.told⟩

theorem Idle.call (h : Idle c₁ c) (k : Nat) (op : Bus.Operation) : Idle c₁ (c.call k op) := by
  refine h.of_still ?_ rfl rfl fun i hi => hi
  have hlinks : (c.call k op).links.length = c₁.links.length := by
    simpa [Connection.call, updateBus] using h.links
  exact ⟨h.driver, h.status, h.bus, h.retries, h.script, hlinks, h.told⟩

theorem idle_close (c : Connection) : Idle c.close c.close := by
  have hstill : Still c.close c.close := by
    obtain ⟨ready, lingering, heq⟩ := close_eq c
    rw [heq]
    exact ⟨rfl, rfl, rfl, rfl, rfl, rfl, rfl⟩
  exact ⟨hstill, ⟨[], [], by simp⟩, .inl rfl, fun i hi => hi⟩

theorem Idle.close (h : Idle c₁ c) : Idle c₁ c.close := by
  obtain ⟨ready, lingering, heq⟩ := close_eq c
  have hlinks : c.clearedLinks = c.links := by
    rw [clearedLinks, h.bus]
  have hstopped : c.status ≠ .started := by
    rw [h.status]
    simp
  rw [if_neg hstopped, List.append_nil, hlinks] at heq
  rw [heq]
  refine h.of_still ?_ rfl rfl fun i hi => hi
  exact ⟨rfl, rfl, rfl, h.retries, h.script, h.links, h.told⟩

theorem Idle.run (h : Idle c₁ c) {steps : List (Bool × Step)}
    (hsteps : ∀ entry ∈ steps, entry.2 = .close ∨ entry.2.Continues) : Idle c₁ (c.run steps) := by
  refine (stable_idle c₁).run (fun k op hc => hc.call k op) ?_ h
  intro entry hentry hst c hc
  rcases hsteps entry hentry with hclose | hcontinues
  · rw [hclose]
    exact hc.close
  · exact absurd hcontinues hst

/-! ## After connecting anew -/

/-- An answer that owes nothing to the links below number `n`: the bus of a later
one, the give-up once no retries are left, or a newer request. -/
inductive NewAnswer (n : Nat) (c : Connection) : Answer → Prop
  | bus {k : Nat} (hk : n ≤ k) : NewAnswer n c (.bus k)
  | exhausted (hretries : c.retries = 0) : NewAnswer n c (.failure (.exhausted retryBudget))
  | superseded : NewAnswer n c (.failure .superseded)

/-- What has happened since somebody connected was the new driver's doing. -/
structure Renewed (c₀ : Connection) (url : String) (c : Connection) : Prop where
  /-- Attempts, notices and the use of retries are those of its rounds. -/
  rounds : ∃ rounds, RoundsSince c₀ url rounds c
  /-- The link that is watched and the one whose bus is handed out are new. -/
  fresh : Fresh c₀.links.length c
  answers : ∃ given, c.answers = c₀.answers ++ given ∧
    ∀ entry ∈ given, NewAnswer c₀.links.length c entry.2

theorem NewAnswer.of_retries {a : Answer} (h : NewAnswer n c a)
    (hretries : c.retries = 0 → c'.retries = 0) : NewAnswer n c' a := by
  cases h with
  | bus hk => exact .bus hk
  | exhausted hspent => exact .exhausted (hretries hspent)
  | superseded => exact .superseded

theorem retries_failed_of_none (cause : Failure) (hretries : c.retries = 0) :
    (c.failed cause).retries = 0 := by
  obtain ⟨driver, requests, entries, heq, -⟩ := failed_of_no_retries c cause hretries
  rw [heq]
  exact hretries

theorem Happens.retries_eq_zero {incident : Incident} (h : Happens c incident c')
    (hkept : incident ≠ .abandoned) (hretries : c.retries = 0) : c'.retries = 0 := by
  cases h with
  | made hasked =>
      obtain ⟨waiter, requests, entries, heq⟩ := serve_eq c _
      rw [heq]
      exact hretries
  | cancelled hmade => exact hretries
  | opened hdriver hdue =>
      obtain ⟨link, driver, requests, entries, heq, -⟩ := linkOpened_eq c _
      rw [heq]
      exact hretries
  | closed hdriver hlink hended => exact hretries
  | refused hdriver hdue hcause => exact retries_failed_of_none _ hretries
  | broken hdriver hlink hended =>
      exact retries_failed_of_none (c := { c with bus := none }) _ hretries
  | connects url => exact absurd rfl hkept
  | closes => exact absurd rfl hkept

theorem newAnswer_of_resolves {incident : Incident} (hfresh : Fresh n c)
    (hhappens : Happens c incident c') {i : Nat} {a : Answer}
    (hresolved : (i, a) ∈ c.desk.resolves incident) : NewAnswer n c' a := by
  have hspent : ∀ link, incident = .failed link c.retries → NewAnswer n c' a := by
    rintro link rfl
    rw [Desk.resolves] at hresolved
    split at hresolved
    next hretries =>
      rw [(Desk.mem_owed_iff.mp hresolved).2]
      exact .exhausted (hhappens.retries_eq_zero (by simp) hretries)
    next => cases hresolved
  cases hhappens with
  | made hasked =>
      cases hbus : c.bus with
      | some k =>
          rw [Desk.resolves_made_of_bus hbus] at hresolved
          cases List.mem_singleton.mp hresolved
          exact .bus (hfresh.bus k hbus)
      | none =>
          rw [Desk.resolves_made_of_no_bus hbus, Desk.mem_owed_iff] at hresolved
          rw [hresolved.2]
          exact .superseded
  | opened hdriver hdue =>
      rw [Desk.resolves, Desk.mem_owed_iff] at hresolved
      rw [hresolved.2]
      exact .bus hfresh.length
  | refused hdriver hdue hcause => exact hspent _ rfl
  | broken hdriver hlink hended => exact hspent _ rfl
  | _ => cases hresolved

def NewAnswers (n : Nat) (c₁ c : Connection) : Prop :=
  Fresh n c ∧ ∃ given, c.answers = c₁.answers ++ given ∧ ∀ entry ∈ given, NewAnswer n c entry.2

theorem NewAnswers.of_same (h : NewAnswers n c₁ c) (hfresh : Fresh n c')
    (hanswers : c'.answers = c.answers) (hretries : c'.retries = c.retries) :
    NewAnswers n c₁ c' := by
  obtain ⟨-, given, hgiven, hnew⟩ := h
  refine ⟨hfresh, given, hanswers.trans hgiven, fun entry hentry => ?_⟩
  exact (hnew entry hentry).of_retries hretries.trans

theorem stable_newAnswers (n : Nat) (c₁ : Connection) : Stable (NewAnswers n c₁) where
  happens := by
    rintro c c' incident hhappens hkept ⟨hfresh, given, hgiven, hnew⟩
    refine ⟨(stable_fresh n).happens hhappens hkept hfresh, given ++ c.desk.resolves incident,
      ?_, ?_⟩
    · have hanswers := congrArg Desk.answers hhappens.desk_eq.2
      rw [Desk.answers_after] at hanswers
      rw [← List.append_assoc, ← hgiven]
      exact hanswers
    · intro entry hentry
      rcases List.mem_append.mp hentry with hold | hresolved
      · exact (hnew entry hold).of_retries (hhappens.retries_eq_zero hkept)
      · exact newAnswer_of_resolves hfresh hhappens hresolved
  begins := by
    intro c url phase hdriver hbegins h
    have hdesk := desk_beginAttempt (watched?_of_begins hdriver hbegins) url
    exact h.of_same ((stable_fresh n).begins hdriver hbegins h.1)
      (congrArg Desk.answers hdesk) rfl
  waits := fun clock ready lingering h =>
    h.of_same ((stable_fresh n).waits clock ready lingering h.1) rfl rfl
  asks := by
    intro c h
    refine h.of_same ((stable_fresh n).asks h.1) (congrArg Desk.answers (desk_request c)) ?_
    exact congrArg Situation.retries (situation_request c)
  ends := by
    intro c k ending h
    refine h.of_same ((stable_fresh n).ends k ending h.1)
      (congrArg Desk.answers (Aside.ends k ending).desk_eq) ?_
    exact congrArg Situation.retries (situation_endLink c k ending)

/-- As long as the driver that was set to work is not given up. -/
theorem renewed_run (hwaits : c₀.DriverWaits) (queued : Bool) (url : String)
    {period : List (Bool × Step)} (hperiod : ∀ entry ∈ period, entry.2.Continues) :
    Renewed c₀ url (run (c₀.step queued (.connect url)).2 period) := by
  have hstart : (c₀.connect url).situation.Leads (c₀.step queued (.connect url)).2.situation := by
    cases queued with
    | true => exact .refl
    | false => exact settle_leads _
  have hstep := step_waits hwaits queued (.connect url)
  obtain ⟨done, current, hstory⟩ :=
    (story_initial c₀ url).leads (hstart.trans (run_leads hstep hperiod))
  have hconnected : NewAnswers c₀.links.length c₀ (c₀.connect url) := by
    refine ⟨fresh_connect (Nat.le_refl _) url, [], ?_, by simp⟩
    rw [List.append_nil]
    exact congrArg Desk.answers (desk_connect c₀ url)
  have hanswering := stable_newAnswers c₀.links.length c₀
  have hstepped : NewAnswers c₀.links.length c₀ (c₀.step queued (.connect url)).2 :=
    hanswering.step_of_perform queued hconnected
  obtain ⟨hfresh, hanswers⟩ :=
    hanswering.run (fun k op h => h.of_same (h.1.call k op) rfl rfl)
      (fun entry hentry hst => absurd (hperiod entry hentry) hst) hstepped
  exact ⟨⟨_, hstory.roundsSince (run_waits hstep period)⟩, hfresh, hanswers⟩

/-! ## As if there had been no driver -/

/-- The same connection without its driver: nobody watches a link, and the links
that were opened neither fade nor end. -/
def withoutDriver (c : Connection) : Connection :=
  { c with
    driver := none
    lingering := []
    ready := c.ready.filter (· ≠ .driver)
    links := c.links.map fun l => { bus := l.bus } }

/-- The driver has its turn only if it is at work. -/
def TurnsAtWork (c : Connection) : Prop :=
  Wake.driver ∈ c.ready → ∃ phase, c.phase? = some phase ∧ phase ≠ .finished

theorem TurnsAtWork.of_same (h : c.TurnsAtWork) (hphase : c'.phase? = c.phase?)
    (hready : Wake.driver ∈ c'.ready → Wake.driver ∈ c.ready) : c'.TurnsAtWork := by
  intro hturn
  rw [hphase]
  exact h (hready hturn)

theorem turnsAtWork_of_atRest (h : c.AtRest) : c.TurnsAtWork := by
  intro hturn
  rw [h] at hturn
  cases hturn

theorem TurnsAtWork.ready_abandonDriver (h : c.TurnsAtWork) :
    c.abandonDriver.ready = c.ready.filter (· ≠ .driver) := by
  have hkept (hphase : ∀ phase, c.phase? = some phase → phase = .finished) :
      c.ready = c.ready.filter (· ≠ .driver) := by
    refine (List.filter_eq_self.mpr fun w hw => ?_).symm
    rw [decide_eq_true_iff]
    rintro rfl
    obtain ⟨phase, hphase', hwork⟩ := h hw
    exact hwork (hphase phase hphase')
  unfold abandonDriver
  split
  next hnone => exact hkept (by simp [hnone])
  next hfinished => exact hkept (by simp [hfinished])
  next => rfl

theorem TurnsAtWork.not_mem_ready (h : c.TurnsAtWork) : Wake.driver ∉ c.abandonDriver.ready := by
  simp [h.ready_abandonDriver]

theorem TurnsAtWork.endLink (h : c.TurnsAtWork) (k : Nat) (ending : Option Failure) :
    (c.endLink k ending).TurnsAtWork := by
  intro hturn
  have hphase : (c.endLink k ending).phase? = c.phase? := by
    obtain ⟨ready, heq⟩ := endLink_eq c k ending
    rw [heq]
    rfl
  rw [hphase]
  by_cases hwatched : c.watched? = some k
  · obtain ⟨url, hdriver⟩ := (watched?_eq_some_iff c).mp hwatched
    exact ⟨.linked k, by simp [phase?, hdriver], by simp⟩
  · rw [Connection.endLink, if_neg (by exact hwatched)] at hturn
    exact h hturn

theorem TurnsAtWork.perform (h : c.TurnsAtWork) (st : Step) : (c.perform st).2.TurnsAtWork := by
  cases hcall : st.call? with
  | some call =>
      obtain ⟨k, op⟩ := call
      rw [perform_of_call? hcall]
      exact h
  | none =>
      cases st with
      | connect url =>
          obtain ⟨ready, lingering, heq⟩ := connect_eq c url
          rw [Connection.perform, heq]
          exact fun _ => ⟨.fresh, rfl, by simp⟩
      | close =>
          intro hturn
          rw [Connection.perform, ready_close] at hturn
          exact absurd hturn h.not_mem_ready
      | request =>
          have hphase : c.request.2.phase? = c.phase? := by
            obtain ⟨ready, heq⟩ := request_eq c
            rw [heq]
            rfl
          refine h.of_same hphase fun hturn => ?_
          rcases (mem_ready_wake _).mp hturn with hturn | hturn
          · exact hturn
          · cases hturn
      | cancel i => exact h
      | closeLink k failure => exact h.endLink k failure
      | dropLink k => exact h.endLink k (some .closed)
      | dropController =>
          obtain ⟨requests, hcancelled⟩ := cancelAll_eq c (List.range c.requests.length)
          have hkept : TurnsAtWork { c with requests } := h
          intro hturn
          rw [← hcancelled] at hkept
          exact absurd hturn hkept.not_mem_ready
      | sleep duration => exact turnsAtWork_of_atRest (atRest_sleep c duration)
      | settle => exact turnsAtWork_of_atRest (atRest_settle c)
      | _ => cases hcall

theorem turnsAtWork_run (h : c.TurnsAtWork) (steps : List (Bool × Step)) :
    (c.run steps).TurnsAtWork := by
  induction steps generalizing c with
  | nil => exact h
  | cons entry steps ih =>
      obtain ⟨queued, st⟩ := entry
      cases queued with
      | true => exact ih (h.perform st)
      | false => exact ih (turnsAtWork_of_atRest (atRest_settle _))

theorem TurnsAtWork.alike_withoutDriver (h : c.TurnsAtWork) :
    Alike c.links.length c.abandonDriver c.withoutDriver.abandonDriver := by
  have hready := h.ready_abandonDriver
  obtain ⟨ready, lingering, heq⟩ := abandonDriver_eq c
  rw [heq] at hready ⊢
  have hstripped : c.withoutDriver.abandonDriver =
      { c with
        driver := none, ready, lingering := []
        links := c.links.map fun l => { bus := l.bus } } := by
    have hready : ready = c.ready.filter (· ≠ .driver) := hready
    rw [hready]
    rfl
  rw [hstripped]
  refine .intro _ [] (by simp) ?_
  intro k hk
  simp [hk]

theorem alike_run_withoutDriver (h : c.TurnsAtWork) (queued : Bool) {st : Step}
    (hst : st = .close ∨ ∃ url, st = .connect url) (after : List (Bool × Step)) :
    Alike c.links.length (run (c.step queued st).2 after)
      (run (c.withoutDriver.step queued st).2 after) := by
  have hlost := h.alike_withoutDriver
  have hperformed : Alike c.links.length (c.perform st).2 (c.withoutDriver.perform st).2 ∧
      Fresh c.links.length (c.perform st).2 := by
    rcases hst with rfl | ⟨url, rfl⟩
    · exact ⟨hlost.close, fresh_close (Nat.le_refl _)⟩
    · exact ⟨hlost.connect url, fresh_connect (Nat.le_refl _) url⟩
  obtain ⟨halike, hfresh⟩ := hperformed
  have hstepped := halike.step_of_perform hfresh queued
  exact hstepped.run ((stable_fresh _).step_of_perform queued hfresh) after

/-- Whatever run has led to it and whatever the driver is doing.  Once somebody
has closed nothing happens until somebody connects, except that requests
supersede each other.  Once somebody has connected to a url all that happens is
the new driver's doing, as long as that one is not given up either.  And from
either on everything goes on as if there had not been a driver before. -/
theorem abandoned_driver_has_no_effect (script : List Attempt) (before : List (Bool × Step)) :
    let c₀ := run { script } before
    (∀ queued period, (∀ entry ∈ period, entry.2 = .close ∨ entry.2.Continues) →
      Idle c₀.close (run (c₀.step queued .close).2 period)) ∧
    (∀ queued url period, (∀ entry ∈ period, entry.2.Continues) →
      Renewed c₀ url (run (c₀.step queued (.connect url)).2 period)) ∧
    ∀ queued st after, (st = .close ∨ ∃ url, st = .connect url) →
      Alike c₀.links.length (run (c₀.step queued st).2 after)
        (run (c₀.withoutDriver.step queued st).2 after) := by
  intro c₀
  have hturns : c₀.TurnsAtWork := turnsAtWork_run (fun hturn => by cases hturn) before
  have hwaits : c₀.DriverWaits := run_waits (driverWaits_initial script) before
  refine ⟨?_, ?_, ?_⟩
  · intro queued period hperiod
    have hclosed : Idle c₀.close (c₀.step queued .close).2 :=
      (stable_idle _).step_of_perform queued (idle_close c₀)
    exact hclosed.run hperiod
  · exact fun queued url period hperiod => renewed_run hwaits queued url hperiod
  · exact fun queued st after hst => alike_run_withoutDriver hturns queued hst after

/-- The driver that is given up watches a link that fades later on. -/
theorem abandoned_driver_has_no_effect_past_fading_link :
    let script : List Attempt := [
      { opening := .opens (some { after := 50, failure := some .closed }) },
      { opening := .opens none, delay := 70 }]
    let after : List (Bool × Step) := [(false, .request), (false, .sleep 60), (false, .request),
      (false, .sleep 60)]
    let c₀ := run { script } [(false, .connect "ws://a")]
    let idle := run (c₀.step false .close).2 after
    let renewed := run (c₀.step false (.connect "ws://b")).2 after
    (∀ entry ∈ after, entry.2.Continues) ∧ c₀.watched? = some 0 ∧
      idle.history = [(0, .attempt "ws://a"), (0, .notice .started), (0, .notice .stopped),
        (60, .answer 0 (.failure .superseded))] ∧ Idle c₀.close idle ∧
      renewed.history = [(0, .attempt "ws://a"), (0, .notice .started), (0, .attempt "ws://b"),
        (60, .answer 0 (.failure .superseded)), (70, .answer 1 (.bus 1)),
        (70, .notice .started)] ∧ Renewed c₀ "ws://b" renewed ∧
      Alike c₀.links.length renewed
        (run (c₀.withoutDriver.step false (.connect "ws://b")).2 after) := by
  intro script after c₀ idle renewed
  have hafter : ∀ entry ∈ after, entry.2.Continues := by simp [after, Step.Continues]
  obtain ⟨hidle, hrenewed, halike⟩ :=
    abandoned_driver_has_no_effect script [(false, .connect "ws://a")]
  exact ⟨hafter, by decide, by decide,
    hidle false after fun entry hentry => .inr (hafter entry hentry),
    by decide, hrenewed false "ws://b" after hafter,
    halike false (.connect "ws://b") after (.inr ⟨"ws://b", rfl⟩)⟩

end DevMachine.Connection

import DevMachine.Proofs.Connection.Effects
import DevMachine.Proofs.Connection.Stability

/-!
# Old links

The links of drivers that were given up are old.  Nobody watches them any more,
so a connection goes on as it would if they never faded and never ended: two
connections that differ in the ends of old links only, and in who lingers at
them, do the same in every step.
-/

namespace DevMachine.Connection

open Channel (Bus Failure)

variable {n : Nat} {c c' d : Connection}

/-- The links below number `n` are old. -/
structure Fresh (n : Nat) (c : Connection) : Prop where
  length : n ≤ c.links.length
  watched : ∀ k, c.watched? = some k → n ≤ k
  bus : ∀ k, c.bus = some k → n ≤ k

theorem Fresh.of_idle (hlength : n ≤ c.links.length) (hwatched : c.watched? = none)
    (hbus : c.bus = none) : Fresh n c :=
  ⟨hlength, by simp [hwatched], by simp [hbus]⟩

theorem Fresh.serve (h : Fresh n c) (i : Nat) : Fresh n (c.serve i) := by
  obtain ⟨waiter, requests, entries, heq⟩ := serve_eq c i
  rw [heq]
  exact ⟨h.length, h.watched, h.bus⟩

theorem Fresh.linkOpened (h : Fresh n c) (fading : Option Fading) :
    Fresh n (c.linkOpened fading) := by
  obtain ⟨link, driver, requests, entries, heq, hdriver, -⟩ := linkOpened_eq c fading
  have hlength := h.length
  rw [heq]
  refine ⟨by simp; omega, ?_, ?_⟩
  · intro k hk
    obtain ⟨url, hlinked⟩ := (watched?_eq_some_iff _).mp hk
    rw [hdriver, Option.map_eq_some_iff] at hlinked
    obtain ⟨driver, -, hphase⟩ := hlinked
    cases hphase
    exact hlength
  · intro k hk
    cases hk
    exact hlength

theorem Fresh.failed (h : Fresh n c) (cause : Failure) : Fresh n (c.failed cause) := by
  have hwatched : (c.failed cause).watched? = none := by
    change (c.failed cause).desk.watched = none
    rw [desk_failed, Desk.after]
    split <;> rfl
  obtain ⟨status, retries, bus, waiter, driver, requests, entries, heq, hbus⟩ := failed_eq c cause
  refine ⟨?_, by simp [hwatched], ?_⟩
  · rw [heq]
    exact h.length
  · rw [heq]
    rcases hbus with rfl | rfl
    · exact h.bus
    · simp

theorem stable_fresh (n : Nat) : Stable (Fresh n) where
  happens := by
    intro c c' incident hhappens hkept h
    cases hhappens with
    | made hasked => exact h.serve _
    | cancelled hmade => exact ⟨h.length, h.watched, h.bus⟩
    | opened hdriver hdue => exact h.linkOpened _
    | closed hdriver hlink hended =>
        exact .of_idle h.length (congrArg Desk.watched (desk_linkClosed c 0)) rfl
    | refused hdriver hdue hcause => exact h.failed _
    | broken hdriver hlink hended =>
        have hlost : Fresh n { c with bus := none } := ⟨h.length, h.watched, by simp⟩
        exact hlost.failed _
    | connects url => exact absurd rfl hkept
    | closes => exact absurd rfl hkept
  begins := by
    intro c url phase hdriver hbegins h
    have hwatched := watched?_of_begins hdriver hbegins
    have hdesk := desk_beginAttempt hwatched url
    exact ⟨h.length, by simp [show (c.beginAttempt url).watched? = none from
      (congrArg Desk.watched hdesk).trans hwatched], h.bus⟩
  waits := fun clock ready lingering h => ⟨h.length, h.watched, h.bus⟩
  asks := by
    intro c h
    obtain ⟨ready, heq⟩ := request_eq c
    rw [heq]
    exact ⟨h.length, h.watched, h.bus⟩
  ends := by
    intro c k ending h
    obtain ⟨ready, heq⟩ := endLink_eq c k ending
    rw [heq]
    exact ⟨by simpa using h.length, h.watched, h.bus⟩

theorem Fresh.call (h : Fresh n c) (k : Nat) (op : Bus.Operation) : Fresh n (c.call k op) :=
  ⟨by simpa [Connection.call, updateBus] using h.length, h.watched, h.bus⟩

theorem fresh_close (hlength : n ≤ c.links.length) : Fresh n c.close := by
  obtain ⟨ready, lingering, heq⟩ := close_eq c
  rw [heq]
  refine .of_idle ?_ rfl rfl
  unfold clearedLinks
  cases c.bus with
  | none => exact hlength
  | some k => simpa using hlength

theorem fresh_connect (hlength : n ≤ c.links.length) (url : String) : Fresh n (c.connect url) := by
  obtain ⟨ready, lingering, heq⟩ := connect_eq c url
  rw [heq]
  exact .of_idle hlength rfl rfl

theorem fresh_dropController (h : Fresh n c) : Fresh n c.dropController := by
  obtain ⟨requests, ready, lingering, heq⟩ := dropController_eq c
  rw [heq]
  exact ⟨h.length, by simp [watched?, phase?], h.bus⟩

theorem Fresh.perform (h : Fresh n c) (st : Step) : Fresh n (c.perform st).2 := by
  refine (stable_fresh n).perform_any (fun k op hc => hc.call k op) (fun hst => ?_) h
  cases st with
  | connect url => exact fresh_connect h.length url
  | close => exact fresh_close h.length
  | dropController => exact fresh_dropController h
  | _ => exact (hst trivial).elim

theorem Fresh.step (h : Fresh n c) (queued : Bool) (st : Step) : Fresh n (c.step queued st).2 :=
  (stable_fresh n).step_of_perform queued (h.perform st)

/-! ## Connections that differ in old links -/

/-- The same connection but for the ends of links below number `n`, and for
those who linger. -/
inductive Alike (n : Nat) (c : Connection) : Connection → Prop
  | intro (links : List Link) (lingering : List (Option Nat))
      (hbuses : links.map Link.bus = c.links.map Link.bus)
      (hrecent : ∀ k, n ≤ k → links[k]? = c.links[k]?) : Alike n c { c with links, lingering }

section Frames

variable (c) (links : List Link) (lingering : List (Option Nat))

theorem answer_with (i : Nat) (a : Answer) :
    answer { c with links, lingering } i a = { c.answer i a with links, lingering } := by
  unfold answer
  dsimp only
  split <;> rfl

theorem answerWaiter_with (a : Answer) :
    answerWaiter { c with links, lingering } a = { c.answerWaiter a with links, lingering } := by
  unfold answerWaiter
  dsimp only
  split
  · exact answer_with { c with waiter := none } links lingering _ a
  · rfl

theorem serve_with (i : Nat) :
    serve { c with links, lingering } i = { c.serve i with links, lingering } := by
  unfold serve
  dsimp only
  split
  · split
    · exact answer_with { c with requests := c.requests.set i .waiting } links lingering i _
    · rw [answerWaiter_with { c with requests := c.requests.set i .waiting } links lingering]
  · rfl

theorem failed_with (cause : Failure) :
    failed { c with links, lingering } cause = { c.failed cause with links, lingering } := by
  unfold failed
  dsimp only
  split
  · rw [answerWaiter_with { c with status := .stopped, bus := none } links lingering]
    rfl
  · rfl

end Frames

namespace Alike

theorem driver_eq (h : Alike n c d) : d.driver = c.driver := by
  cases h
  rfl

theorem clock_eq (h : Alike n c d) : d.clock = c.clock := by
  cases h
  rfl

theorem ready_eq (h : Alike n c d) : d.ready = c.ready := by
  cases h
  rfl

theorem status_eq (h : Alike n c d) : d.status = c.status := by
  cases h
  rfl

theorem requests_eq (h : Alike n c d) : d.requests = c.requests := by
  cases h
  rfl

theorem bus_eq (h : Alike n c d) : d.bus = c.bus := by
  cases h
  rfl

theorem rank_eq (h : Alike n c d) : d.rank = c.rank := by
  cases h
  rfl

theorem watched?_eq (h : Alike n c d) : d.watched? = c.watched? := by
  cases h
  rfl

theorem recent (h : Alike n c d) {k : Nat} (hk : n ≤ k) : d.links[k]? = c.links[k]? := by
  cases h with
  | intro links lingering hbuses hrecent => exact hrecent k hk

/-- What looks neither at the links nor at those who linger keeps connections alike. -/
theorem update (h : Alike n c d) (f : Connection → Connection)
    (hframe : ∀ links lingering, ∃ lingering',
      f { c with links, lingering } = { f c with links, lingering := lingering' })
    (hlinks : (f c).links = c.links) : Alike n (f c) (f d) := by
  cases h with
  | intro links lingering hbuses hrecent =>
      obtain ⟨lingering', heq⟩ := hframe links lingering
      rw [heq]
      rw [← hlinks] at hbuses hrecent
      exact .intro links lingering' hbuses hrecent

theorem record (h : Alike n c d) (o : Occurrence) : Alike n (c.record o) (d.record o) :=
  h.update (·.record o) (fun _ lingering => ⟨lingering, rfl⟩) rfl

theorem atTime (h : Alike n c d) (clock : Nat) : Alike n { c with clock } { d with clock } :=
  h.update (fun c => { c with clock }) (fun _ lingering => ⟨lingering, rfl⟩) rfl

theorem withReady (h : Alike n c d) (ready : List Wake) :
    Alike n { c with ready } { d with ready } :=
  h.update (fun c => { c with ready }) (fun _ lingering => ⟨lingering, rfl⟩) rfl

theorem stop (h : Alike n c d) :
    Alike n { c with status := .stopped, bus := none } { d with status := .stopped, bus := none } :=
  h.update (fun c => { c with status := .stopped, bus := none })
    (fun _ lingering => ⟨lingering, rfl⟩) rfl

theorem modify (h : Alike n c d) (k : Nat) {f : Link → Link} {g : Bus → Bus}
    (hf : ∀ l, (f l).bus = g l.bus) :
    Alike n { c with links := c.links.modify k f } { d with links := d.links.modify k f } := by
  cases h with
  | intro links lingering hbuses hrecent =>
      have hmodify (links : List Link) :
          (links.modify k f).map Link.bus = (links.map Link.bus).modify k g := by
        apply List.ext_getElem?
        intro j
        have hcomp : Link.bus ∘ f = g ∘ Link.bus := funext hf
        by_cases hk : k = j <;> simp [hk, hcomp]
      refine .intro (links.modify k f) lingering ?_ ?_
      · rw [hmodify, hbuses, hmodify]
      · intro j hj
        by_cases hk : k = j <;> simp [hk, hrecent j hj]

theorem serve (h : Alike n c d) (i : Nat) : Alike n (c.serve i) (d.serve i) := by
  refine h.update (·.serve i)
    (fun links lingering => ⟨lingering, serve_with c links lingering i⟩) ?_
  obtain ⟨waiter, requests, entries, heq⟩ := serve_eq c i
  rw [heq]

theorem answerWaiter (h : Alike n c d) (a : Answer) :
    Alike n (c.answerWaiter a) (d.answerWaiter a) := by
  refine h.update (·.answerWaiter a)
    (fun links lingering => ⟨lingering, answerWaiter_with c links lingering a⟩) ?_
  obtain ⟨requests, entries, heq, -⟩ := answerWaiter_eq c a
  rw [heq]

theorem failed (h : Alike n c d) (cause : Failure) : Alike n (c.failed cause) (d.failed cause) := by
  refine h.update (·.failed cause)
    (fun links lingering => ⟨lingering, failed_with c links lingering cause⟩) ?_
  obtain ⟨status, retries, bus, waiter, driver, requests, entries, heq, -⟩ := failed_eq c cause
  rw [heq]

theorem linkOpened (h : Alike n c d) (fading : Option Fading) :
    Alike n (c.linkOpened fading) (d.linkOpened fading) := by
  cases h with
  | intro links lingering hbuses hrecent =>
      have hlength : links.length = c.links.length := by
        simpa using congrArg List.length hbuses
      let link : Link := { fadesAt := fading.map fun f => (c.clock + f.after, f.failure) }
      have hgrown : Alike n
          { c with links := c.links ++ [link], status := .started, bus := some c.links.length }
          { c with
            links := links ++ [link], lingering, status := .started
            bus := some c.links.length } := by
        refine .intro (links ++ [link]) lingering (by simp [hbuses]) ?_
        intro k hk
        simp only [List.getElem?_append, hlength, hrecent k hk]
      unfold Connection.linkOpened
      dsimp only
      rw [hlength]
      have htold := (hgrown.answerWaiter (.bus c.links.length)).record (.notice .started)
      exact htold.update (·.setPhase (.linked c.links.length))
        (fun _ lingering => ⟨lingering, rfl⟩) rfl

theorem beginAttempt (h : Alike n c d) (url : String) :
    Alike n (c.beginAttempt url) (d.beginAttempt url) :=
  h.update (·.beginAttempt url) (fun _ lingering => ⟨lingering, rfl⟩) rfl

theorem linkClosed (h : Alike n c d) : Alike n c.linkClosed d.linkClosed :=
  h.update Connection.linkClosed (fun _ lingering => ⟨lingering, rfl⟩) rfl

theorem linkBroken (h : Alike n c d) (cause : Failure) :
    Alike n (Connection.failed { c with bus := none } cause)
      (Connection.failed { d with bus := none } cause) := by
  have hlost : Alike n { c with bus := none } { d with bus := none } :=
    h.update (fun c => { c with bus := none }) (fun _ lingering => ⟨lingering, rfl⟩) rfl
  exact hlost.failed cause

/-- The driver watches no old link, so it makes the same move. -/
theorem move? (h : Alike n c d) (hfresh : Fresh n c) :
    Option.Rel (Alike n) c.move? d.move? := by
  unfold Connection.move?
  cases hdriver : c.driver with
  | none =>
      simp only [h.driver_eq, hdriver]
      exact .none
  | some driver =>
      obtain ⟨url, phase⟩ := driver
      simp only [h.driver_eq, h.clock_eq, hdriver, Option.bind_eq_bind, Option.bind_some]
      cases phase with
      | fresh => exact .some (h.beginAttempt url)
      | opening opening due =>
          dsimp only
          split
          · cases opening with
            | opens fading => exact .some (h.linkOpened fading)
            | fails cause => exact .some (h.failed cause)
            | refused => exact .some (h.failed _)
            | hangs => exact .none
          · exact .none
      | linked k =>
          have hk : n ≤ k := hfresh.watched k ((watched?_eq_some_iff c).mpr ⟨url, hdriver⟩)
          simp only [h.recent hk]
          cases hlink : c.links[k]? with
          | none => exact .none
          | some l =>
              simp only [Option.bind_some]
              cases hended : l.ended? c.clock with
              | none => exact .none
              | some ending =>
                  cases ending with
                  | none => exact .some h.linkClosed
                  | some cause =>
                      have hfailed := h.linkBroken cause
                      simp only [h.driver_eq, h.clock_eq, hdriver] at hfailed
                      exact .some hfailed
      | pausing due =>
          dsimp only
          split
          · exact .some (h.beginAttempt url)
          · exact .none
      | finished => exact .none

theorem moves (h : Alike n c d) (hfresh : Fresh n c) (fuel : Nat) :
    Alike n (moves fuel c) (moves fuel d) := by
  induction fuel generalizing c d with
  | zero => exact h
  | succ fuel ih =>
      have hmove := h.move? hfresh
      simp only [Connection.moves]
      generalize hc : c.move? = next, d.move? = next' at hmove
      cases hmove with
      | none => exact h
      | some hmoved => exact ih hmoved ((stable_fresh n).move hc hfresh)

theorem drive (h : Alike n c d) (hfresh : Fresh n c) : Alike n c.drive d.drive := by
  unfold Connection.drive
  rw [h.rank_eq]
  exact h.moves hfresh c.rank

theorem nextDue?_eq (h : Alike n c d) (hfresh : Fresh n c) : d.nextDue? = c.nextDue? := by
  unfold nextDue? phase?
  rw [h.driver_eq]
  cases hdriver : c.driver with
  | none => rfl
  | some driver =>
      obtain ⟨url, phase⟩ := driver
      cases phase with
      | linked k =>
          have hk : n ≤ k := hfresh.watched k ((watched?_eq_some_iff c).mpr ⟨url, hdriver⟩)
          simp [h.recent hk]
      | opening opening due => cases opening <;> rfl
      | _ => rfl

theorem turns (h : Alike n c d) (hfresh : Fresh n c) (wakes : List Wake) :
    Alike n (wakes.foldl turn c) (wakes.foldl turn d) := by
  induction wakes generalizing c d with
  | nil => exact h
  | cons w wakes ih =>
      cases w with
      | driver => exact ih (h.drive hfresh) ((stable_fresh n).drive hfresh)
      | request i => exact ih (h.serve i) (hfresh.serve i)

theorem settle (h : Alike n c d) (hfresh : Fresh n c) : Alike n c.settle d.settle := by
  have hrested : Fresh n { c with ready := [] } :=
    (stable_fresh n).waits c.clock [] c.lingering hfresh
  have hturned := (h.withReady []).turns hrested c.ready
  unfold Connection.settle
  rw [h.ready_eq]
  exact hturned.update (fun c => { c with lingering := [] }) (fun _ _ => ⟨[], rfl⟩) rfl

theorem passUntil (h : Alike n c d) (hfresh : Fresh n c) (target fuel : Nat) :
    Alike n (passUntil target fuel c) (passUntil target fuel d) := by
  induction fuel generalizing c d with
  | zero => exact h
  | succ fuel ih =>
      simp only [Connection.passUntil, h.nextDue?_eq hfresh, h.clock_eq]
      cases hnext : c.nextDue? with
      | none => exact h
      | some t =>
          dsimp only
          split
          · have hwaited := (stable_fresh n).waits (max c.clock t) c.ready c.lingering hfresh
            exact ih ((h.atTime (max c.clock t)).drive hwaited) ((stable_fresh n).drive hwaited)
          · exact h

theorem sleep (h : Alike n c d) (hfresh : Fresh n c) (duration : Nat) :
    Alike n (c.sleep duration) (d.sleep duration) := by
  have hsettled := h.settle hfresh
  have hpassed := hsettled.passUntil ((stable_fresh n).settle hfresh)
    (c.settle.clock + duration) (c.settle.rank + 1)
  unfold Connection.sleep
  dsimp only
  rw [hsettled.clock_eq, hsettled.rank_eq]
  exact hpassed.atTime _

theorem wake (h : Alike n c d) (w : Wake) : Alike n (c.wake w) (d.wake w) := by
  unfold Connection.wake
  rw [h.ready_eq]
  split
  · exact h
  · exact h.withReady _

theorem request (h : Alike n c d) : Alike n c.request.2 d.request.2 := by
  have hadded : Alike n c.addRequest d.addRequest :=
    h.update addRequest (fun _ lingering => ⟨lingering, rfl⟩) rfl
  unfold Connection.request
  rw [h.requests_eq]
  exact hadded.wake (.request c.requests.length)

theorem cancel (h : Alike n c d) (i : Nat) : Alike n (c.cancel i) (d.cancel i) :=
  h.update (·.cancel i) (fun _ lingering => ⟨lingering, rfl⟩) rfl

theorem cancelAll (h : Alike n c d) (indices : List Nat) :
    Alike n (indices.foldl Connection.cancel c) (indices.foldl Connection.cancel d) := by
  induction indices generalizing c d with
  | nil => exact h
  | cons i indices ih => exact ih (h.cancel i)

theorem updateBus (h : Alike n c d) (k : Nat) (f : Bus → Bus) :
    Alike n (c.updateBus k f) (d.updateBus k f) :=
  h.modify k (g := f) fun _ => rfl

theorem endLink (h : Alike n c d) (k : Nat) (ending : Option Failure) :
    Alike n (c.endLink k ending) (d.endLink k ending) := by
  have hended := h.modify k (f := Link.endedBy ending) (g := id) fun _ => rfl
  unfold Connection.endLink
  dsimp only
  by_cases hwatched : c.watched? = some k
  · have hwatched' : d.watched? = some k := h.watched?_eq.trans hwatched
    rw [if_pos (by exact hwatched), if_pos (by exact hwatched')]
    exact hended.wake .driver
  · have hwatched' : d.watched? ≠ some k := by rwa [h.watched?_eq]
    rw [if_neg (by exact hwatched), if_neg (by exact hwatched')]
    exact hended

theorem abandonDriver (h : Alike n c d) : Alike n c.abandonDriver d.abandonDriver := by
  refine h.update Connection.abandonDriver (fun links lingering => ?_) ?_
  · have hphase : phase? { c with links, lingering } = c.phase? := rfl
    unfold Connection.abandonDriver
    rw [hphase]
    cases c.phase? with
    | none => exact ⟨lingering, rfl⟩
    | some phase => cases phase <;> exact ⟨_, rfl⟩
  · obtain ⟨ready, lingering, heq⟩ := abandonDriver_eq c
    rw [heq]

theorem connect (h : Alike n c.abandonDriver d.abandonDriver) (url : String) :
    Alike n (c.connect url) (d.connect url) := by
  have hset := h.update (fun c => { c with
    retries := retryBudget, status := .stopped, bus := none, driver := some { url } })
    (fun _ lingering => ⟨lingering, rfl⟩) rfl
  exact hset.wake .driver

theorem close (h : Alike n c.abandonDriver d.abandonDriver) : Alike n c.close d.close := by
  unfold Connection.close
  generalize c.abandonDriver = c₀, d.abandonDriver = d₀ at h
  dsimp only
  rw [h.bus_eq, h.status_eq]
  cases c₀.bus with
  | none =>
      split
      · exact h.stop.record _
      · exact h.stop
  | some k =>
      have hcleared := h.updateBus k Bus.clear
      split
      · exact hcleared.stop.record _
      · exact hcleared.stop

theorem dropController (h : Alike n c d) : Alike n c.dropController d.dropController := by
  have hlost := (h.cancelAll (List.range c.requests.length)).abandonDriver
  unfold Connection.dropController
  rw [h.requests_eq]
  exact hlost.update (fun c => { c with waiter := none, dropped := true })
    (fun _ lingering => ⟨lingering, rfl⟩) rfl

theorem perform (h : Alike n c d) (hfresh : Fresh n c) (st : Step) :
    Alike n (c.perform st).2 (d.perform st).2 := by
  cases hcall : st.call? with
  | some call =>
      obtain ⟨k, op⟩ := call
      rw [perform_of_call? hcall, perform_of_call? hcall]
      exact h.updateBus k _
  | none =>
      cases st with
      | connect url => exact h.abandonDriver.connect url
      | close => exact h.abandonDriver.close
      | request => exact h.request
      | cancel i => exact h.cancel i
      | closeLink k failure => exact h.endLink k failure
      | dropLink k => exact h.endLink k (some .closed)
      | dropController => exact h.dropController
      | sleep duration => exact h.sleep hfresh duration
      | settle => exact h.settle hfresh
      | _ => cases hcall

theorem step_of_perform {st : Step} (h : Alike n (c.perform st).2 (d.perform st).2)
    (hfresh : Fresh n (c.perform st).2) (queued : Bool) :
    Alike n (c.step queued st).2 (d.step queued st).2 := by
  cases queued with
  | true => exact h
  | false => exact h.settle hfresh

theorem step (h : Alike n c d) (hfresh : Fresh n c) (queued : Bool) (st : Step) :
    Alike n (c.step queued st).2 (d.step queued st).2 :=
  (h.perform hfresh st).step_of_perform (hfresh.perform st) queued

theorem run (h : Alike n c d) (hfresh : Fresh n c) (steps : List (Bool × Step)) :
    Alike n (c.run steps) (d.run steps) := by
  induction steps generalizing c d with
  | nil => exact h
  | cons entry steps ih =>
      obtain ⟨queued, st⟩ := entry
      exact ih (h.step hfresh queued st) (hfresh.step queued st)

end Alike

end DevMachine.Connection

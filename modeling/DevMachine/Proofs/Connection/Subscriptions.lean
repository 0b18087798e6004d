import DevMachine.Proofs.Channel.Routing
import DevMachine.Proofs.Connection.SharedState

/-!
# Subscriptions of a link that is given up

Closing takes the bus of the open link back and ends its subscriptions, so what
they have not read is followed by the end.  Connecting anew takes the bus back
only.  Once it is taken back a bus changes by nothing but calls on itself: no
later step of the connection ends the subscriptions that connecting left behind.
-/

namespace DevMachine.Connection

open Channel (Bus Failure)
open Channel.Bus (Operation lifetime routed readingOf)

variable {c c' : Connection} {k : Nat} {b : Bus}

/-- The call that a step makes on the bus of one link. -/
def Step.callOn? (k : Nat) (st : Step) : Option Operation :=
  match st.call? with
  | some (j, op) => if j = k then some op else none
  | none => none

def calls (k : Nat) (steps : List (Bool × Step)) : List Operation :=
  steps.filterMap fun entry => entry.2.callOn? k

theorem busOf_eq (hlink : (c.links[k]?).map Link.bus = some b) : c.busOf k = b := by
  unfold busOf
  rw [hlink]
  rfl

/-- The bus of a link that is not handed out. -/
structure LeftAlone (k : Nat) (b : Bus) (c : Connection) : Prop where
  bus : (c.links[k]?).map Link.bus = some b
  unheld : c.bus ≠ some k

theorem LeftAlone.lt_length (h : LeftAlone k b c) : k < c.links.length := by
  have hlink := h.bus
  rw [Option.map_eq_some_iff] at hlink
  obtain ⟨l, hl, -⟩ := hlink
  exact (List.getElem?_eq_some_iff.mp hl).1

theorem LeftAlone.of_same (h : LeftAlone k b c) (hlinks : c'.links = c.links)
    (hbus : c'.bus = c.bus ∨ c'.bus = none) : LeftAlone k b c' := by
  constructor
  · rw [hlinks]
    exact h.bus
  · rcases hbus with hbus | hbus
    · rw [hbus]
      exact h.unheld
    · simp [hbus]

theorem LeftAlone.serve (h : LeftAlone k b c) (i : Nat) : LeftAlone k b (c.serve i) := by
  obtain ⟨waiter, requests, entries, heq⟩ := serve_eq c i
  rw [heq]
  exact h.of_same rfl (.inl rfl)

theorem LeftAlone.linkOpened (h : LeftAlone k b c) (fading : Option Fading) :
    LeftAlone k b (c.linkOpened fading) := by
  obtain ⟨link, driver, requests, entries, heq, -⟩ := linkOpened_eq c fading
  have hk := h.lt_length
  rw [heq]
  constructor
  · simpa [List.getElem?_append_left hk] using h.bus
  · simp only [ne_eq, Option.some.injEq]
    omega

theorem LeftAlone.failed (h : LeftAlone k b c) (cause : Failure) :
    LeftAlone k b (c.failed cause) := by
  obtain ⟨status, retries, bus, waiter, driver, requests, entries, heq, hbus⟩ := failed_eq c cause
  rw [heq]
  exact h.of_same rfl hbus

theorem stable_leftAlone (k : Nat) (b : Bus) : Stable (LeftAlone k b) where
  happens := by
    intro c c' incident hhappens hkept h
    cases hhappens with
    | made hasked => exact h.serve _
    | cancelled hmade => exact h.of_same rfl (.inl rfl)
    | opened hdriver hdue => exact h.linkOpened _
    | closed hdriver hlink hended => exact h.of_same rfl (.inr rfl)
    | refused hdriver hdue hcause => exact h.failed _
    | broken hdriver hlink hended =>
        have hlost : LeftAlone k b { c with bus := none } := h.of_same rfl (.inr rfl)
        exact hlost.failed _
    | connects url => exact absurd rfl hkept
    | closes => exact absurd rfl hkept
  begins := fun hdriver hbegins h => h.of_same rfl (.inl rfl)
  waits := fun clock ready lingering h => h.of_same rfl (.inl rfl)
  asks := by
    intro c h
    obtain ⟨ready, heq⟩ := request_eq c
    rw [heq]
    exact h.of_same rfl (.inl rfl)
  ends := by
    intro c j ending h
    obtain ⟨ready, heq⟩ := endLink_eq c j ending
    rw [heq]
    refine ⟨?_, h.unheld⟩
    have hcomp : Link.bus ∘ Link.endedBy ending = Link.bus := rfl
    by_cases hj : j = k
    · simpa [hj, hcomp] using h.bus
    · simpa [hj] using h.bus

theorem LeftAlone.call_self (h : LeftAlone k b c) (op : Operation) :
    LeftAlone k (b.perform op) (c.call k op) := by
  refine ⟨?_, h.unheld⟩
  have hlink := h.bus
  rw [Option.map_eq_some_iff] at hlink
  obtain ⟨l, hl, rfl⟩ := hlink
  simp [call, updateBus, hl]

theorem LeftAlone.call_ne (h : LeftAlone k b c) {j : Nat} (hj : j ≠ k) (op : Operation) :
    LeftAlone k b (c.call j op) := by
  refine ⟨?_, h.unheld⟩
  simpa [call, updateBus, hj] using h.bus

theorem LeftAlone.close (h : LeftAlone k b c) : LeftAlone k b c.close := by
  obtain ⟨ready, lingering, heq⟩ := close_eq c
  rw [heq]
  refine ⟨?_, by simp⟩
  have hunheld := h.unheld
  unfold clearedLinks
  cases hbus : c.bus with
  | none => exact h.bus
  | some j =>
      have hj : j ≠ k := by simpa [hbus] using hunheld
      simpa [hj] using h.bus

theorem LeftAlone.perform (h : LeftAlone k b c) (st : Step) :
    LeftAlone k (b.run (st.callOn? k).toList) (c.perform st).2 := by
  cases hcall : st.call? with
  | some call =>
      obtain ⟨j, op⟩ := call
      rw [perform_of_call? hcall]
      by_cases hj : j = k
      · subst hj
        simpa [Step.callOn?, hcall, Bus.run] using h.call_self op
      · simpa [Step.callOn?, hcall, hj, Bus.run] using h.call_ne hj op
  | none =>
      have hnone : st.callOn? k = none := by simp [Step.callOn?, hcall]
      rw [hnone]
      cases st with
      | connect url =>
          obtain ⟨ready, lingering, heq⟩ := connect_eq c url
          rw [Connection.perform, heq]
          exact h.of_same rfl (.inr rfl)
      | close => exact h.close
      | dropController =>
          obtain ⟨requests, ready, lingering, heq⟩ := dropController_eq c
          rw [Connection.perform, heq]
          exact h.of_same rfl (.inl rfl)
      | _ => exact (stable_leftAlone k b).perform trivial hcall h

/-- A bus that is not handed out changes by the calls on it only. -/
theorem LeftAlone.run (h : LeftAlone k b c) (steps : List (Bool × Step)) :
    LeftAlone k (b.run (calls k steps)) (c.run steps) := by
  induction steps generalizing c b with
  | nil => exact h
  | cons entry steps ih =>
      obtain ⟨queued, st⟩ := entry
      have hstep : LeftAlone k (b.run (st.callOn? k).toList) (c.step queued st).2 :=
        (stable_leftAlone k _).step_of_perform queued (h.perform st)
      have hrest := ih hstep
      have hcalls : calls k ((queued, st) :: steps) = (st.callOn? k).toList ++ calls k steps := by
        cases hcall : st.callOn? k <;> simp [calls, hcall]
      rw [hcalls, Bus.run, List.foldl_append]
      exact hrest

theorem leftAlone_close (hbus : c.bus = some k) (hlink : (c.links[k]?).map Link.bus = some b) :
    LeftAlone k b.clear c.close := by
  obtain ⟨ready, lingering, heq⟩ := close_eq c
  rw [heq]
  refine ⟨?_, by simp⟩
  rw [Option.map_eq_some_iff] at hlink
  obtain ⟨l, hl, rfl⟩ := hlink
  simp [clearedLinks, hbus, hl]

theorem leftAlone_connect (hlink : (c.links[k]?).map Link.bus = some b) (url : String) :
    LeftAlone k b (c.connect url) := by
  obtain ⟨ready, lingering, heq⟩ := connect_eq c url
  rw [heq]
  exact ⟨hlink, by simp⟩

def BusesWellFormed (c : Connection) : Prop :=
  ∀ (k : Nat) (l : Link), c.links[k]? = some l → l.bus.WellFormed

theorem BusesWellFormed.modify (h : c.BusesWellFormed) {j : Nat} {f : Link → Link}
    (hlinks : c'.links = c.links.modify j f)
    (hf : ∀ l : Link, l.bus.WellFormed → (f l).bus.WellFormed) : c'.BusesWellFormed := by
  intro k l hl
  rw [hlinks, List.getElem?_modify, Option.map_eq_map, Option.map_eq_some_iff] at hl
  obtain ⟨l', hl', rfl⟩ := hl
  split
  · exact hf l' (h k l' hl')
  · exact h k l' hl'

theorem BusesWellFormed.serve (h : c.BusesWellFormed) (i : Nat) :
    (c.serve i).BusesWellFormed := by
  obtain ⟨waiter, requests, entries, heq⟩ := serve_eq c i
  rw [heq]
  exact h

theorem BusesWellFormed.linkOpened (h : c.BusesWellFormed) (fading : Option Fading) :
    (c.linkOpened fading).BusesWellFormed := by
  obtain ⟨link, driver, requests, entries, heq, -, hnew, -⟩ := linkOpened_eq c fading
  rw [heq]
  intro k l hl
  rcases List.mem_append.mp (List.mem_of_getElem? hl) with hold | hlast
  · obtain ⟨j, hj⟩ := List.mem_iff_getElem?.mp hold
    exact h j l hj
  · rw [List.mem_singleton.mp hlast, hnew]
    exact Bus.wellFormed_initial 0

theorem BusesWellFormed.failed (h : c.BusesWellFormed) (cause : Failure) :
    (c.failed cause).BusesWellFormed := by
  obtain ⟨status, retries, bus, waiter, driver, requests, entries, heq, -⟩ := failed_eq c cause
  rw [heq]
  exact h

theorem stable_busesWellFormed : Stable BusesWellFormed where
  happens := by
    intro c c' incident hhappens hkept h
    cases hhappens with
    | made hasked => exact h.serve _
    | cancelled hmade => exact h
    | opened hdriver hdue => exact h.linkOpened _
    | closed hdriver hlink hended => exact h
    | refused hdriver hdue hcause => exact h.failed _
    | broken hdriver hlink hended =>
        exact BusesWellFormed.failed (c := { c with bus := none }) h _
    | connects url => exact absurd rfl hkept
    | closes => exact absurd rfl hkept
  begins := fun hdriver hbegins h => h
  waits := fun clock ready lingering h => h
  asks := by
    intro c h
    obtain ⟨ready, heq⟩ := request_eq c
    rw [heq]
    exact h
  ends := by
    intro c j ending h
    obtain ⟨ready, heq⟩ := endLink_eq c j ending
    rw [heq]
    exact h.modify rfl fun l hl => hl

theorem busesWellFormed_run (script : List Attempt) (steps : List (Bool × Step)) :
    (run { script } steps).BusesWellFormed := by
  have hstart : BusesWellFormed { script } := by
    intro k l hl
    cases hl
  refine stable_busesWellFormed.run ?_ ?_ hstart
  · intro c j op h
    exact h.modify rfl fun l hl => hl.perform op
  · rintro ⟨queued, st⟩ - hst c h
    cases st with
    | connect url =>
        obtain ⟨ready, lingering, heq⟩ := connect_eq c url
        rw [perform, heq]
        exact h
    | close =>
        obtain ⟨ready, lingering, heq⟩ := close_eq c
        rw [perform, heq]
        cases hbus : c.bus with
        | none => simpa [BusesWellFormed, clearedLinks, hbus] using h
        | some j =>
            refine h.modify (j := j) (f := fun l => { l with bus := l.bus.clear }) ?_ ?_
            · simp [clearedLinks, hbus]
            · exact fun l _ => Bus.wellFormed_clear l.bus
    | dropController =>
        obtain ⟨requests, ready, lingering, heq⟩ := dropController_eq c
        rw [perform, heq]
        exact h
    | _ => exact (hst trivial).elim

/-- Closing a connection with an open link leaves its bus without owners.  From
then on each subscription yields what it has not read and then the end, whatever
happens on the bus.  Connecting anew leaves the bus as it was: whatever steps
follow, a subscription lives on until a call on the bus itself ends it. -/
theorem closing_ends_subscriptions (script : List Attempt) (before : List (Bool × Step))
    (hbefore : ∀ entry ∈ before, entry.2 ≠ .dropController) (k : Nat)
    (hopen : (run { script } before).bus = some k) :
    let c := run { script } before
    let b := c.busOf k
    let cleared := c.close.busOf k
    cleared.owners = [] ∧
    (∀ after, (run c.close after).busOf k = cleared.run (calls k after)) ∧
    (∀ channel id items ops, b.Holds channel id items → .drop id ∉ ops →
      let read := cleared.yields id ops
      read <+: items ∧
        (cleared.run ops).reading id = readingOf true (items.drop read.length)) ∧
    ∀ url, (∀ after, (run (c.connect url) after).busOf k = b.run (calls k after)) ∧
      ∀ channel id items ops, b.Holds channel id items → b.owns id = true → .drop id ∉ ops →
        let life := lifetime channel id b.isOpen ops
        let read := b.yields id ops
        read <+: items ++ routed channel life ∧
          (b.run ops).reading id =
            readingOf life.2.isSome ((items ++ routed channel life).drop read.length) := by
  intro c b cleared
  have hcoherent : Coherent c := coherent_run script hbefore
  have hlatest := hcoherent.latest k hopen
  have hlink : c.links[k]? = some c.links[k] := List.getElem?_eq_getElem (by omega)
  have hb : b = c.links[k].bus := busOf_eq (by rw [hlink]; rfl)
  have hbus : (c.links[k]?).map Link.bus = some b := by
    rw [hb, hlink]
    rfl
  have hclosed := leftAlone_close hopen hbus
  have hcleared : cleared = b.clear := busOf_eq hclosed.bus
  rw [hcleared]
  refine ⟨rfl, ?_, ?_, ?_⟩
  · exact fun after => busOf_eq (hclosed.run after).bus
  · intro channel id items ops hheld hkept read
    have hheld' : b.clear.Holds channel id items := hheld
    obtain ⟨rest, hrest, hread, hover⟩ :=
      hheld'.run_of_not_owns (Bus.wellFormed_clear b) rfl hkept
    change read ++ rest = items at hread
    refine ⟨⟨rest, hread⟩, ?_⟩
    rw [hrest.reading_eq, hover, ← hread, List.drop_left]
    rfl
  · intro url
    refine ⟨fun after => busOf_eq ((leftAlone_connect hbus url).run after).bus, ?_⟩
    intro channel id items ops hheld howns hkept life read
    have hwellFormed : b.WellFormed := by
      have hall : c.BusesWellFormed := busesWellFormed_run script before
      rw [hb]
      exact hall k _ hlink
    obtain ⟨rest, hrest, hread, hover⟩ := hheld.run hwellFormed howns hkept
    change read ++ rest = items ++ routed channel life at hread
    refine ⟨⟨rest, hread⟩, ?_⟩
    rw [hrest.reading_eq, hover, ← hread, List.drop_left]
    congr 1
    exact Option.not_isNone _

/-- A subscription with one unread event when its link is closed. -/
theorem closing_ends_subscriptions_past_unread_event :
    let script : List Attempt := [{ opening := .opens none }]
    let before : List (Bool × Step) := [(false, .connect "ws://a"), (false, .subscribe 0 "out"),
      (false, .dispatch 0 (.event "out" .null))]
    let after : List (Bool × Step) := [(false, .next 0 0), (false, .subscribe 0 "out"),
      (false, .dispatch 0 (.event "out" .null))]
    let c := run { script } before
    (∀ entry ∈ before, entry.2 ≠ .dropController) ∧ c.bus = some 0 ∧
      (c.busOf 0).reading 0 = .item (.ok .null) ∧ (c.close.busOf 0).owners = [] ∧
      ((run c.close after).busOf 0).reading 0 = .ended := by
  intro script before after c
  have hbefore : ∀ entry ∈ before, entry.2 ≠ .dropController := by simp [before]
  have hopen : c.bus = some 0 := by decide
  have hheld : (c.busOf 0).Holds "out" 0 [.ok .null] := rfl
  have hkept : .drop 0 ∉ calls 0 after := by simp [after, calls, Step.callOn?, Step.call?]
  obtain ⟨howners, hrun, hread, -⟩ := closing_ends_subscriptions script before hbefore 0 hopen
  obtain ⟨-, hreading⟩ := hread "out" 0 [.ok .null] (calls 0 after) hheld hkept
  have hone : ((c.close.busOf 0).yields 0 (calls 0 after)).length = 1 := by decide
  refine ⟨hbefore, hopen, rfl, howners, ?_⟩
  rw [hrun, hreading, hone]
  rfl

/-- A link is given up for another one, and the subscription made on its bus is
still registered and waits. -/
theorem connecting_anew_leaves_subscriptions_waiting :
    let script : List Attempt := [{ opening := .opens none }, { opening := .opens none }]
    let c := run { script } [(false, .connect "ws://a"), (false, .subscribe 0 "out")]
    let c' := run c [(false, .connect "ws://b")]
    c.bus = some 0 ∧ c'.AtRest ∧ c'.bus = some 1 ∧ (c'.busOf 0).owners = [("out", 0)] ∧
      (c'.busOf 0).reading 0 = .waiting := by
  refine ⟨by decide, by decide, by decide, by decide, rfl⟩

end DevMachine.Connection

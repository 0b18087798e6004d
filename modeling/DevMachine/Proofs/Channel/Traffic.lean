import DevMachine.Channel.Pump
import DevMachine.Proofs.Channel.Queues

/-!
# Traffic over a link

A link is a bus with the pump of its socket.  Things arrive, the bus is called and
the pump takes one branch after the other, in any order.  While the link lives, a
branch handles the arrival or writes the frame that has waited longest, or it ends
the link; what the pump has done over a whole run is the sum of that.
-/

namespace DevMachine.Channel

def Arrival.frame? : Arrival → Option Frame
  | .text t => Frame.parse t
  | _ => none

def Arrival.end? : Arrival → Option LinkEnd
  | .close => some .graceful
  | .failure message => some (.failed (.protocol message))
  | _ => none

/-- How a branch ends the link, if the write that it stands for fails. -/
def Branch.end? : Branch → Option LinkEnd
  | .outbound writeFailure | .heartbeat writeFailure =>
    writeFailure.map fun message => .failed (.protocol message)
  | .inbound => none

def LinkEnd.operations : LinkEnd → List Bus.Operation
  | .graceful => [.clear, .closeOutbound]
  | .failed cause => [.failAll cause, .closeOutbound]

/-- The last item of a subscription that ends with its link. -/
def LinkEnd.farewell? : LinkEnd → Option Item
  | .graceful => none
  | .failed cause => some (.error cause)

def Frame.isHeartbeat : Frame → Bool
  | .heartbeat _ => true
  | _ => false

def Bus.Operation.dispatched? : Bus.Operation → Option Frame
  | .dispatch frame => some frame
  | _ => none

theorem LinkEnd.over_run (ending : LinkEnd) (b : Bus) : (b.run ending.operations).Over := by
  cases ending with
  | graceful => exact ⟨rfl, rfl⟩
  | failed cause => exact ⟨rfl, rfl⟩

structure Link where
  bus : Bus
  pump : Pump := {}

namespace Link

/-- Something arrives on the socket, somebody calls the bus, or the pump takes a
branch. -/
inductive Event
  | arrival (arrival : Arrival)
  | call (op : Bus.Operation)
  | branch (branch : Branch)

def opened (stamp : Int64) : Link := { bus := { stamp } }

def step (l : Link) : Event → Link
  | .arrival arrival => { l with pump := { l.pump with arrivals := l.pump.arrivals ++ [arrival] } }
  | .call op => { l with bus := l.bus.perform op }
  | .branch branch =>
    let (bus, pump) := l.pump.step l.bus branch
    { bus, pump }

def run (l : Link) (events : List Event) : Link := events.foldl step l

/-- What is seen of each event of a run, taken together. -/
def along {α : Type} (seen : Link → Event → List α) (l : Link) : List Event → List α
  | [] => []
  | e :: events => seen l e ++ (l.step e).along seen events

/-- A link lives until its pump has ended. -/
def live (l : Link) : Bool := l.pump.ending.isNone

/-- The frames of the bus that the pump has not taken yet. -/
def waiting (l : Link) : List Frame := l.bus.outbound.drop l.pump.taken

/-- Whether there is something for a branch to do. -/
def ready (l : Link) : Branch → Bool
  | .outbound _ => !l.waiting.isEmpty
  | .heartbeat _ => true
  | .inbound => !l.pump.arrivals.isEmpty

def arrived : Event → Option Arrival
  | .arrival arrival => some arrival
  | _ => none

/-- The arrival that an event has the pump handle: the one that has waited longest. -/
def handled (l : Link) : Event → List Arrival
  | .branch .inbound => if l.live then l.pump.arrivals.take 1 else []
  | _ => []

def queued (l : Link) : Event → List Frame
  | .call op => l.bus.queued op
  | _ => []

/-- What an event has the pump write: the frame of the bus that has waited longest, or a
heartbeat. -/
def written (l : Link) : Event → List Frame
  | .branch (.outbound none) => if l.live then l.waiting.take 1 else []
  | .branch (.heartbeat none) => if l.live then [.heartbeat l.bus.stamp] else []
  | _ => []

/-- The frames of the bus among what is written. -/
def carried (l : Link) (e : Event) : List Frame :=
  match e with
  | .branch (.outbound _) => l.written e
  | _ => []

/-- How an event ends the link: by the arrival that is handled, or by a write that fails. -/
def ending? (l : Link) : Event → Option LinkEnd
  | .branch branch =>
    if l.live && l.ready branch then
      branch.end?.or ((l.handled (.branch branch)).findSome? Arrival.end?)
    else none
  | _ => none

def endings (l : Link) (e : Event) : List LinkEnd := (l.ending? e).toList

def called : Event → List Bus.Operation
  | .call op => [op]
  | _ => []

/-- What an event does to the bus.  The pump dispatches the frames of what it
handles, and ends the bus with the link. -/
def operations (l : Link) (e : Event) : List Bus.Operation :=
  called e ++ ((l.handled e).filterMap Arrival.frame?).map .dispatch ++
    (l.endings e).flatMap LinkEnd.operations

def dispatched (l : Link) : Event → List Frame
  | .branch branch => (l.operations (.branch branch)).filterMap Bus.Operation.dispatched?
  | _ => []

theorem live_iff {l : Link} : l.live = true ↔ l.pump.ending = none := Option.isNone_iff_eq_none

/-! ## One event -/

/-- The event has the pump handle and write this, ends the link like this and leaves it like
this. -/
inductive Takes (l : Link) : Event → List Arrival → List Frame → Option LinkEnd → Link → Prop
  | arrives (arrival : Arrival) :
      l.Takes (.arrival arrival) [] [] none
        { l with pump := { l.pump with arrivals := l.pump.arrivals ++ [arrival] } }
  | calls (op : Bus.Operation) : l.Takes (.call op) [] [] none { l with bus := l.bus.perform op }
  | rests (branch : Branch) (hidle : (l.live && l.ready branch) = false) :
      l.Takes (.branch branch) [] [] none l
  | carries {frame : Frame} {rest : List Frame} (hlive : l.live = true)
      (hwaiting : l.waiting = frame :: rest) :
      l.Takes (.branch (.outbound none)) [] [frame] none
        { l with pump := { l.pump with
          taken := l.pump.taken + 1
          written := l.pump.written ++ [frame] } }
  | loses {frame : Frame} {rest : List Frame} (message : String) (hlive : l.live = true)
      (hwaiting : l.waiting = frame :: rest) :
      l.Takes (.branch (.outbound (some message))) [] [] (some (.failed (.protocol message)))
        { bus := l.bus.run (LinkEnd.failed (.protocol message)).operations
          pump := { l.pump with
            taken := l.pump.taken + 1
            ending := some (.failed (.protocol message)) } }
  | beats (hlive : l.live = true) :
      l.Takes (.branch (.heartbeat none)) [] [.heartbeat l.bus.stamp] none
        { l with pump := { l.pump with
          written := l.pump.written ++ [.heartbeat l.bus.stamp] } }
  | misses (message : String) (hlive : l.live = true) :
      l.Takes (.branch (.heartbeat (some message))) [] [] (some (.failed (.protocol message)))
        { bus := l.bus.run (LinkEnd.failed (.protocol message)).operations
          pump := { l.pump with ending := some (.failed (.protocol message)) } }
  | hears {arrival : Arrival} {rest : List Arrival} (hlive : l.live = true)
      (harrivals : l.pump.arrivals = arrival :: rest) (hgoes : arrival.end? = none) :
      l.Takes (.branch .inbound) [arrival] [] none
        { bus := l.bus.run (arrival.frame?.toList.map .dispatch)
          pump := { l.pump with arrivals := rest } }
  | leaves {arrival : Arrival} {rest : List Arrival} {ending : LinkEnd}
      (hlive : l.live = true) (harrivals : l.pump.arrivals = arrival :: rest)
      (hends : arrival.end? = some ending) :
      l.Takes (.branch .inbound) [arrival] [] (some ending)
        { bus := l.bus.run ending.operations
          pump := { l.pump with
            arrivals := rest
            ending := some ending } }

theorem Takes.of_seen {l l' : Link} {e : Event} {arrivals : List Arrival} {frames : List Frame}
    {ending : Option LinkEnd} (h : l.Takes e arrivals frames ending l')
    (hhandled : l.handled e = arrivals) (hwritten : l.written e = frames)
    (hending : l.ending? e = ending) :
    l.Takes e (l.handled e) (l.written e) (l.ending? e) l' := by
  rw [hhandled, hwritten, hending]
  exact h

/-- A branch that is not ready and one after the end do nothing. -/
theorem seen_of_idle {l : Link} {branch : Branch} (hidle : (l.live && l.ready branch) = false) :
    l.handled (.branch branch) = [] ∧ l.written (.branch branch) = [] ∧
      l.ending? (.branch branch) = none := by
  refine ⟨?_, ?_, by rw [ending?, if_neg (by simp [hidle])]⟩
  · cases branch with
    | inbound => cases hlive : l.live <;> simp_all [handled, ready]
    | _ => rfl
  · cases branch with
    | outbound writeFailure =>
        cases writeFailure <;> cases hlive : l.live <;> simp_all [written, ready]
    | heartbeat writeFailure =>
        cases writeFailure <;> cases hlive : l.live <;> simp_all [written, ready]
    | inbound => rfl

theorem takes_of_idle {l : Link} {branch : Branch} (hidle : (l.live && l.ready branch) = false) :
    l.Takes (.branch branch) (l.handled (.branch branch)) (l.written (.branch branch))
      (l.ending? (.branch branch)) l := by
  obtain ⟨hhandled, hwritten, hending⟩ := seen_of_idle hidle
  exact (Takes.rests branch hidle).of_seen hhandled hwritten hending

theorem handle_of_goes {arrival : Arrival} (hgoes : arrival.end? = none) (b : Bus) (p : Pump) :
    Pump.handle b p arrival = (b.run (arrival.frame?.toList.map .dispatch), p) := by
  cases arrival with
  | text t =>
      cases hframe : Frame.parse t <;>
        simp [Pump.handle, Arrival.frame?, hframe, Bus.run, Bus.perform]
  | other => rfl
  | close => cases hgoes
  | failure message => cases hgoes

theorem handle_of_ends {arrival : Arrival} {ending : LinkEnd} (hends : arrival.end? = some ending)
    (b : Bus) (p : Pump) :
    Pump.handle b p arrival = (b.run ending.operations, { p with ending := some ending }) := by
  cases arrival with
  | text t => cases hends
  | other => cases hends
  | close =>
      cases hends
      rfl
  | failure message =>
      cases hends
      rfl

theorem takes_branch (l : Link) (branch : Branch) :
    l.Takes (.branch branch) (l.handled (.branch branch)) (l.written (.branch branch))
      (l.ending? (.branch branch)) (l.step (.branch branch)) := by
  by_cases hlive : l.live = true
  · have hover : ¬l.pump.ending.isSome = true := by simp [live_iff.mp hlive]
    simp only [step, Pump.step, if_neg hover]
    cases branch with
    | outbound writeFailure =>
        have hnext : l.bus.outbound[l.pump.taken]? = l.waiting.head? := List.head?_drop.symm
        rw [hnext]
        cases hwaiting : l.waiting with
        | nil => exact takes_of_idle (by simp [ready, hwaiting])
        | cons frame rest =>
            cases writeFailure with
            | none =>
                exact (Takes.carries hlive hwaiting).of_seen rfl
                  (by simp [written, hlive, hwaiting])
                  (by simp [ending?, Branch.end?, handled])
            | some message =>
                exact (Takes.loses message hlive hwaiting).of_seen rfl rfl
                  (by simp [ending?, Branch.end?, ready, hlive, hwaiting])
    | heartbeat writeFailure =>
        cases writeFailure with
        | none =>
            exact (Takes.beats hlive).of_seen rfl (by simp [written, hlive])
              (by simp [ending?, Branch.end?, handled])
        | some message =>
            exact (Takes.misses message hlive).of_seen rfl rfl
              (by simp [ending?, Branch.end?, ready, hlive])
    | inbound =>
        cases harrivals : l.pump.arrivals with
        | nil => exact takes_of_idle (by simp [ready, harrivals])
        | cons arrival rest =>
            have hhandled : l.handled (.branch .inbound) = [arrival] := by
              simp [handled, hlive, harrivals]
            have hending : l.ending? (.branch .inbound) = arrival.end? := by
              simp [ending?, Branch.end?, ready, hlive, harrivals, hhandled]
            cases hends : arrival.end? with
            | none =>
                simp only [handle_of_goes hends]
                exact (Takes.hears hlive harrivals hends).of_seen hhandled rfl
                  (hending.trans hends)
            | some ending =>
                simp only [handle_of_ends hends]
                exact (Takes.leaves hlive harrivals hends).of_seen hhandled rfl
                  (hending.trans hends)
  · have hover : l.pump.ending.isSome = true :=
      Option.isSome_iff_ne_none.mpr fun hending => hlive (live_iff.mpr hending)
    have hstep : l.step (.branch branch) = l := by simp only [step, Pump.step, if_pos hover]
    rw [hstep]
    exact takes_of_idle (by simp [hlive])

/-- What an event does follows from what has come before it. -/
theorem takes_step (l : Link) (e : Event) :
    l.Takes e (l.handled e) (l.written e) (l.ending? e) (l.step e) := by
  cases e with
  | arrival arrival => exact .arrives arrival
  | call op => exact .calls op
  | branch branch => exact l.takes_branch branch

theorem filterMap_frame? (arrival : Arrival) :
    [arrival].filterMap Arrival.frame? = arrival.frame?.toList := by
  cases hframe : arrival.frame? <;> simp [hframe]

theorem frame?_eq_none_of_end? {arrival : Arrival} {ending : LinkEnd}
    (hends : arrival.end? = some ending) : arrival.frame? = none := by
  cases arrival with
  | text t => cases hends
  | _ => rfl

theorem bus_step (l : Link) (e : Event) : (l.step e).bus = l.bus.run (l.operations e) := by
  have htakes := l.takes_step e
  simp only [operations, endings]
  generalize l.handled e = arrivals, l.written e = frames, l.ending? e = ending,
    l.step e = l' at htakes ⊢
  cases htakes with
  | loses => simp [called]
  | misses => simp [called]
  | hears => simp [called, filterMap_frame?]
  | leaves hlive harrivals hends => simp [called, frame?_eq_none_of_end? hends]
  | _ => rfl

theorem arrivals_step (l : Link) (e : Event) :
    l.pump.arrivals ++ (arrived e).toList = l.handled e ++ (l.step e).pump.arrivals := by
  have htakes := l.takes_step e
  generalize l.handled e = arrivals, l.written e = frames, l.ending? e = ending,
    l.step e = l' at htakes ⊢
  cases htakes with
  | arrives => rfl
  | hears hlive harrivals => simp [arrived, harrivals]
  | leaves hlive harrivals => simp [arrived, harrivals]
  | _ => simp [arrived]

theorem written_step (l : Link) (e : Event) :
    (l.step e).pump.written = l.pump.written ++ l.written e := by
  have htakes := l.takes_step e
  generalize l.handled e = arrivals, l.written e = frames, l.ending? e = ending,
    l.step e = l' at htakes ⊢
  cases htakes with
  | carries => rfl
  | beats => rfl
  | _ => exact (List.append_nil _).symm

/-- A link ends through its events, and only once. -/
theorem ending_step (l : Link) (e : Event) :
    (l.step e).pump.ending.toList = l.pump.ending.toList ++ l.endings e := by
  have htakes := l.takes_step e
  unfold endings
  generalize l.handled e = arrivals, l.written e = frames, l.ending? e = ending,
    l.step e = l' at htakes ⊢
  cases htakes with
  | loses message hlive => simp [live_iff.mp hlive]
  | misses message hlive => simp [live_iff.mp hlive]
  | leaves hlive => simp [live_iff.mp hlive]
  | _ => exact (List.append_nil _).symm

theorem live_step (l : Link) (e : Event) :
    (l.step e).live = (l.live && (l.ending? e).isNone) := by
  have hempty (l : Link) : l.live = l.pump.ending.toList.isEmpty := by
    unfold live
    cases l.pump.ending <;> rfl
  rw [hempty, ending_step, endings]
  cases hlive : l.pump.ending <;> cases l.ending? e <;> simp [live, hlive]

/-- The pump handles what does not end the link, or one arrival that does. -/
theorem handled_cases (l : Link) (e : Event) :
    (∀ arrival ∈ l.handled e, arrival.end? = none) ∨
      ∃ arrival ending, l.handled e = [arrival] ∧ arrival.end? = some ending ∧
        (l.step e).live = false := by
  have htakes := l.takes_step e
  generalize l.handled e = arrivals, l.written e = frames, l.ending? e = ending,
    l.step e = l' at htakes ⊢
  cases htakes with
  | hears hlive harrivals hgoes => exact .inl (by simpa using hgoes)
  | leaves hlive harrivals hends => exact .inr ⟨_, _, rfl, hends, rfl⟩
  | _ => exact .inl (by simp)

theorem ending_step_of_live {l : Link} (hlive : l.live = true) (e : Event) :
    (l.step e).pump.ending = l.ending? e := by
  have hending := l.ending_step e
  rw [live_iff.mp hlive, endings] at hending
  cases hstep : (l.step e).pump.ending <;> cases hends : l.ending? e <;> simp_all

/-- A link ends with an arrival that ends it, or with a write that fails. -/
theorem ending_step_eq_some_iff {l : Link} (hlive : l.live = true) {e : Event}
    {ending : LinkEnd} :
    (l.step e).pump.ending = some ending ↔
      (∃ arrival, e = .branch .inbound ∧ l.pump.arrivals.head? = some arrival ∧
        arrival.end? = some ending) ∨
      ∃ branch, e = .branch branch ∧ l.ready branch = true ∧ branch.end? = some ending := by
  have htakes := l.takes_step e
  rw [ending_step_of_live hlive]
  generalize l.handled e = arrivals, l.written e = frames, l.ending? e = ending',
    l.step e = l' at htakes
  cases htakes with
  | rests branch hidle =>
      rw [hlive, Bool.true_and] at hidle
      cases branch with
      | inbound => simp_all [ready, Branch.end?]
      | _ => simp_all
  | loses message _ hwaiting => simp [Branch.end?, ready, hwaiting]
  | misses => simp [Branch.end?, ready]
  | hears _ harrivals hgoes => simp [Branch.end?, harrivals, hgoes]
  | leaves _ harrivals hends => simp [Branch.end?, harrivals, hends]
  | _ => simp [Branch.end?]

theorem bus_of_ending? {l : Link} {e : Event} {ending : LinkEnd}
    (hends : l.ending? e = some ending) : (l.step e).bus = l.bus.run ending.operations := by
  have htakes := l.takes_step e
  rw [hends] at htakes
  generalize l.handled e = arrivals, l.written e = frames, l.step e = l' at htakes ⊢
  cases htakes <;> rfl

/-- Nothing goes on after the end. -/
theorem step_of_ended {l : Link} (hover : l.live = false) (e : Event) :
    (l.step e).live = false ∧ l.handled e = [] := by
  have htakes := l.takes_step e
  generalize l.handled e = arrivals, l.written e = frames, l.ending? e = ending,
    l.step e = l' at htakes ⊢
  cases htakes with
  | arrives => exact ⟨hover, rfl⟩
  | calls => exact ⟨hover, rfl⟩
  | rests => exact ⟨hover, rfl⟩
  | _ => simp_all

theorem works_of_ready {l : Link} {branch : Branch} (hlive : l.live = true)
    (hready : l.ready branch = true) :
    (∃ arrival, l.pump.arrivals = arrival :: (l.step (.branch branch)).pump.arrivals) ∨
      (∃ frame, (l.step (.branch branch)).pump.written = l.pump.written ++ [frame]) ∨
      (l.step (.branch branch)).live = false := by
  have htakes := l.takes_step (.branch branch)
  generalize l.handled _ = arrivals, l.written _ = frames, l.ending? _ = ending,
    l.step _ = l' at htakes ⊢
  cases htakes with
  | rests branch hidle => simp [hlive, hready] at hidle
  | carries => exact .inr (.inl ⟨_, rfl⟩)
  | beats => exact .inr (.inl ⟨_, rfl⟩)
  | hears _ harrivals => exact .inl ⟨_, harrivals⟩
  | leaves => exact .inr (.inr rfl)
  | loses => exact .inr (.inr rfl)
  | misses => exact .inr (.inr rfl)

/-! ## All events -/

variable {α : Type}

theorem along_cons (seen : Link → Event → List α) (l : Link) (e : Event) (events : List Event) :
    l.along seen (e :: events) = seen l e ++ (l.step e).along seen events := rfl

theorem bus_run (l : Link) (events : List Event) :
    (l.run events).bus = l.bus.run (l.along operations events) := by
  induction events generalizing l with
  | nil => rfl
  | cons e events ih =>
      rw [along_cons, Bus.run_append, ← bus_step]
      exact ih (l.step e)

theorem arrivals_run (l : Link) (events : List Event) :
    l.pump.arrivals ++ events.filterMap arrived =
      l.along handled events ++ (l.run events).pump.arrivals := by
  induction events generalizing l with
  | nil => simp [along, run]
  | cons e events ih =>
      have hcons : (e :: events).filterMap arrived =
          (arrived e).toList ++ events.filterMap arrived := by
        cases harrived : arrived e <;> simp [harrived]
      rw [hcons, ← List.append_assoc, arrivals_step, along_cons, List.append_assoc,
        List.append_assoc, ih (l.step e)]
      rfl

theorem along_of_ended {l : Link} (hover : l.live = false) {seen : Link → Event → List α}
    (hseen : ∀ (l : Link) (e : Event), l.live = false → seen l e = []) (events : List Event) :
    l.along seen events = [] := by
  induction events generalizing l with
  | nil => rfl
  | cons e events ih =>
      rw [along_cons, hseen l e hover, ih (step_of_ended hover e).1, List.append_nil]

theorem live_of_run {l : Link} {events : List Event} (hlive : (l.run events).live = true) :
    l.live = true := by
  induction events generalizing l with
  | nil => exact hlive
  | cons e events ih =>
      rw [← Bool.not_eq_false]
      intro hover
      have hstep : (l.step e).live = true := ih hlive
      simp [(step_of_ended hover e).1] at hstep

theorem filterMap_dispatched? (frames : List Frame) :
    (frames.map Bus.Operation.dispatch).filterMap Bus.Operation.dispatched? = frames := by
  rw [List.filterMap_map]
  exact List.filterMap_some

theorem dispatched_eq (l : Link) (e : Event) :
    l.dispatched e = (l.handled e).filterMap Arrival.frame? := by
  cases e with
  | arrival arrival => rfl
  | call op => rfl
  | branch branch =>
      have hend (ending : LinkEnd) :
          ending.operations.filterMap Bus.Operation.dispatched? = [] := by
        cases ending <;> rfl
      simp only [dispatched, operations, endings, List.filterMap_append, filterMap_dispatched?]
      cases l.ending? (.branch branch) <;> simp [called, hend]

theorem dispatched_run (l : Link) (events : List Event) :
    l.along dispatched events =
      ((l.along handled events).takeWhile (·.end?.isNone)).filterMap Arrival.frame? := by
  induction events generalizing l with
  | nil => rfl
  | cons e events ih =>
      rw [along_cons, along_cons, dispatched_eq]
      rcases l.handled_cases e with hgoes | ⟨arrival, ending, hhandled, hends, hover⟩
      · have hall : ∀ arrival ∈ l.handled e, arrival.end?.isNone := fun arrival harrival => by
          simp [hgoes arrival harrival]
        rw [List.takeWhile_append_of_pos hall, List.filterMap_append, ih]
      · have hnothing : (l.step e).along handled events = [] :=
          along_of_ended hover (fun l e h => (step_of_ended h e).2) events
        rw [ih, hnothing, hhandled]
        simp [hends, frame?_eq_none_of_end? hends]

theorem queued_of_mem_operations {l : Link} {branch : Branch} {op : Bus.Operation}
    (hop : op ∈ l.operations (.branch branch)) (b : Bus) : b.queued op = [] := by
  have hend {ending : LinkEnd} (hop : op ∈ ending.operations) : b.queued op = [] := by
    cases ending with
    | graceful =>
        obtain rfl | rfl := by simpa [LinkEnd.operations] using hop
        · simp [Bus.queued]
        · simp [Bus.queued]
    | failed cause =>
        obtain rfl | rfl := by simpa [LinkEnd.operations] using hop
        · simp [Bus.queued]
        · simp [Bus.queued]
  rcases List.mem_append.mp hop with hdispatched | hended
  · obtain ⟨frame, -, rfl⟩ := List.mem_map.mp hdispatched
    simp [Bus.queued]
  · obtain ⟨ending, -, hop⟩ := List.mem_flatMap.mp hended
    exact hend hop

theorem outbound_step (l : Link) (e : Event) :
    (l.step e).bus.outbound = l.bus.outbound ++ l.queued e := by
  cases e with
  | arrival arrival => exact (List.append_nil _).symm
  | call op => exact Bus.outbound_perform l.bus op
  | branch branch =>
      rw [bus_step, Bus.outbound_run_of_queued fun op hop => queued_of_mem_operations hop]
      exact (List.append_nil _).symm

/-- The pump takes the frame that has waited longest, or none.  A frame that it takes and does
not carry is the last one. -/
theorem carried_cases (l : Link) (e : Event) :
    (l.step e).pump.taken = l.pump.taken ∧ l.carried e = [] ∨
      ∃ frame rest, l.waiting = frame :: rest ∧ (l.step e).pump.taken = l.pump.taken + 1 ∧
        (l.carried e = [frame] ∧ (l.step e).live = true ∨
          l.carried e = [] ∧ (l.step e).live = false) := by
  have htakes := l.takes_step e
  unfold carried
  generalize l.handled e = arrivals, l.written e = frames, l.ending? e = ending,
    l.step e = l' at htakes ⊢
  cases htakes with
  | rests branch => cases branch <;> exact .inl ⟨rfl, rfl⟩
  | carries hlive hwaiting => exact .inr ⟨_, _, hwaiting, rfl, .inl ⟨rfl, hlive⟩⟩
  | loses message hlive hwaiting => exact .inr ⟨_, _, hwaiting, rfl, .inr ⟨rfl, rfl⟩⟩
  | _ => exact .inl ⟨rfl, rfl⟩

theorem carried_eq_nil_of_ended {l : Link} {e : Event} (hover : (l.step e).live = false) :
    l.carried e = [] := by
  rcases l.carried_cases e with ⟨-, hnone⟩ | ⟨-, -, -, -, ⟨-, hlive⟩ | ⟨hnone, -⟩⟩
  · exact hnone
  · simp [hover] at hlive
  · exact hnone

theorem taken_lt_of_waiting {l : Link} {frame : Frame} {rest : List Frame}
    (hwaiting : l.waiting = frame :: rest) : l.pump.taken < l.bus.outbound.length := by
  rw [← Nat.not_le, ← List.drop_eq_nil_iff, ← waiting, hwaiting]
  exact List.cons_ne_nil frame rest

theorem taken_le_step {l : Link} (htaken : l.pump.taken ≤ l.bus.outbound.length) (e : Event) :
    (l.step e).pump.taken ≤ (l.step e).bus.outbound.length := by
  rw [outbound_step, List.length_append]
  rcases l.carried_cases e with ⟨hsame, -⟩ | ⟨frame, rest, hwaiting, hnext, -⟩
  · rw [hsame]
    exact Nat.le_add_right_of_le htaken
  · rw [hnext]
    exact Nat.le_add_right_of_le (taken_lt_of_waiting hwaiting)

/-- While the link lives, a frame that has been taken off the queue has been carried. -/
theorem waiting_step {l : Link} (htaken : l.pump.taken ≤ l.bus.outbound.length) {e : Event}
    (hlive : (l.step e).live = true) :
    l.waiting ++ l.queued e = l.carried e ++ (l.step e).waiting := by
  rcases l.carried_cases e with
    ⟨hsame, hnone⟩ | ⟨frame, rest, hwaiting, hnext, ⟨hcarried, -⟩ | ⟨-, hover⟩⟩
  · rw [hnone, waiting, waiting, outbound_step, hsame, List.drop_append_of_le_length htaken]
    rfl
  · have hrest : l.bus.outbound.drop (l.pump.taken + 1) = rest := by
      rw [← List.drop_drop, ← waiting, hwaiting]
      rfl
    have hlt : l.pump.taken + 1 ≤ l.bus.outbound.length := taken_lt_of_waiting hwaiting
    rw [hcarried, hwaiting, waiting, outbound_step, hnext, List.drop_append_of_le_length hlt,
      hrest]
    rfl
  · simp [hlive] at hover

/-- What is carried to the socket is what stands next in the queue of the bus, and while the
link lives nothing else leaves the queue. -/
theorem carried_run {l : Link} (htaken : l.pump.taken ≤ l.bus.outbound.length)
    (events : List Event) :
    ∃ rest, l.waiting ++ l.along queued events = l.along carried events ++ rest ∧
      ((l.run events).live = true → rest = (l.run events).waiting) := by
  induction events generalizing l with
  | nil => exact ⟨l.waiting, List.append_nil _, fun _ => rfl⟩
  | cons e events ih =>
      cases hlive : (l.step e).live with
      | true =>
          obtain ⟨rest, hrest, hwaiting⟩ := ih (taken_le_step htaken e)
          refine ⟨rest, ?_, hwaiting⟩
          rw [along_cons, along_cons, ← List.append_assoc, waiting_step htaken hlive,
            List.append_assoc, hrest, List.append_assoc]
      | false =>
          have hnothing : (l.step e).along carried events = [] :=
            along_of_ended hlive (fun l e h => carried_eq_nil_of_ended (step_of_ended h e).1) events
          refine ⟨l.waiting ++ l.along queued (e :: events), ?_, fun hrun => ?_⟩
          · rw [along_cons carried, carried_eq_nil_of_ended hlive, hnothing]
            rfl
          · have hstep : (l.step e).live = true := live_of_run hrun
            simp [hlive] at hstep

theorem written_run (l : Link) (events : List Event) :
    (l.run events).pump.written = l.pump.written ++ l.along written events := by
  induction events generalizing l with
  | nil => exact (List.append_nil _).symm
  | cons e events ih =>
      rw [along_cons, ← List.append_assoc, ← written_step]
      exact ih (l.step e)

theorem filter_written (l : Link) (events : List Event) :
    (l.along written events).filter (!·.isHeartbeat) =
      (l.along carried events).filter (!·.isHeartbeat) := by
  induction events generalizing l with
  | nil => rfl
  | cons e events ih =>
      have hfirst : (l.written e).filter (!·.isHeartbeat) =
          (l.carried e).filter (!·.isHeartbeat) := by
        rcases e with _ | _ | ((_ | _) | (_ | _) | _) <;> simp [written, carried, Frame.isHeartbeat]
      rw [along_cons, along_cons, List.filter_append, List.filter_append, hfirst, ih]

theorem endings_run (l : Link) (events : List Event) :
    (l.run events).pump.ending.toList = l.pump.ending.toList ++ l.along endings events := by
  induction events generalizing l with
  | nil => exact (List.append_nil _).symm
  | cons e events ih =>
      rw [along_cons, ← List.append_assoc, ← ending_step]
      exact ih (l.step e)

theorem farewell?_ne_of_isRouted {l : Link} (hlive : l.live = true) {e : Event}
    {ending : LinkEnd} (hended : (l.step e).pump.ending = some ending) {item : Item}
    (hitem : Bus.IsRouted item) : some item ≠ ending.farewell? := by
  have hprotocol : ending = .graceful ∨ ∃ message, ending = .failed (.protocol message) := by
    rcases (ending_step_eq_some_iff hlive).mp hended with
      ⟨arrival, -, -, harrival⟩ | ⟨branch, -, -, hbranch⟩
    · cases arrival with
      | text t => cases harrival
      | other => cases harrival
      | close => exact .inl (Option.some.inj harrival).symm
      | failure message => exact .inr ⟨message, (Option.some.inj harrival).symm⟩
    · cases branch with
      | inbound => cases hbranch
      | outbound writeFailure =>
          obtain ⟨message, -, hmessage⟩ := Option.map_eq_some_iff.mp hbranch
          exact .inr ⟨message, hmessage.symm⟩
      | heartbeat writeFailure =>
          obtain ⟨message, -, hmessage⟩ := Option.map_eq_some_iff.mp hbranch
          exact .inr ⟨message, hmessage.symm⟩
  rcases hprotocol with rfl | ⟨message, rfl⟩
  · simp [LinkEnd.farewell?]
  · rintro heq
    obtain rfl := Option.some.inj heq
    exact hitem

/-- Whatever happens from now on, the reader of a subscription finds these
items one by one and then the end. -/
def HearsOut (l : Link) (id : Nat) (items : List Item) : Prop :=
  ∀ events, .drop id ∉ l.along operations events →
    l.bus.yields id (l.along operations events) <+: items ∧
      (l.run events).bus.reading id =
        Bus.readingOf true (items.drop (l.bus.yields id (l.along operations events)).length)

theorem hearsOut_of_holds {l : Link} (hb : l.bus.WellFormed) {channel : String} {id : Nat}
    {items : List Item} (hheld : l.bus.Holds channel id items) (howns : l.bus.owns id = false) :
    l.HearsOut id items := by
  intro events hkept
  obtain ⟨rest, hrest, hread, hover⟩ := hheld.run_of_not_owns hb howns hkept
  refine ⟨⟨rest, hread⟩, ?_⟩
  rw [bus_run, hrest.reading_eq, hover, ← hread, List.drop_left]
  rfl

/-- A subscription that owns its channel when the link ends hears the farewell
behind what it has not read. -/
theorem hearsOut_of_ending? {l : Link} (hb : l.bus.WellFormed) {e : Event} {ending : LinkEnd}
    (hends : l.ending? e = some ending) {channel : String} {id : Nat} {items : List Item}
    (howner : l.bus.owner? channel = some id) (hheld : l.bus.Holds channel id items) :
    (l.step e).HearsOut id (items ++ ending.farewell?.toList) := by
  have hbus := bus_of_ending? hends
  have hb' : (l.step e).bus.WellFormed := by
    rw [hbus]
    exact hb.run _
  have hover : (l.step e).bus.Over := by
    rw [hbus]
    exact ending.over_run l.bus
  have howns : (l.step e).bus.owns id = false := by simp [Bus.owns, hover.unowned]
  have hheld' : (l.step e).bus.Holds channel id (items ++ ending.farewell?.toList) := by
    rw [hbus]
    cases ending with
    | graceful =>
        rw [LinkEnd.farewell?, Option.toList_none, List.append_nil]
        exact hheld.of_mailboxes rfl
    | failed cause =>
        have hfailed := hheld.failAll hb cause
        have howned : l.bus.owns id = true := by simp [hheld.owns_eq hb, howner]
        rw [if_pos howned] at hfailed
        exact hfailed.of_mailboxes rfl
  exact hearsOut_of_holds hb' hheld' howns

/-- What passes over a link while some events happen, and what does not. -/
structure Traffic (start : Link) (events : List Event) : Prop where
  /-- Nothing happens to the bus but calls, the dispatching of frames and the
  end. -/
  bus : (start.run events).bus = start.bus.run (start.along operations events)
  /-- What arrives is handled in order. -/
  handled : events.filterMap arrived =
    start.along handled events ++ (start.run events).pump.arrivals
  /-- The frames that are dispatched are those that were handled before the
  first arrival that ends the link. -/
  dispatched : start.along dispatched events =
    ((start.along Link.handled events).takeWhile (·.end?.isNone)).filterMap Arrival.frame?
  /-- The first ones of the frames that were queued are carried to the socket. -/
  carried : start.along carried events <+: start.along queued events
  /-- While the link lives, all others are still waiting. -/
  waiting : (start.run events).live = true →
    start.along queued events = start.along Link.carried events ++ (start.run events).waiting
  written : (start.run events).pump.written = start.along written events
  /-- All else that is written are heartbeats. -/
  heartbeats : (start.run events).pump.written.filter (!·.isHeartbeat) =
    (start.along Link.carried events).filter (!·.isHeartbeat)
  /-- While the link lives, a branch that is ready handles an arrival, writes a frame or ends
  the link. -/
  works : ∀ branch, (start.run events).live = true → (start.run events).ready branch = true →
    (∃ arrival, (start.run events).pump.arrivals =
        arrival :: ((start.run events).step (.branch branch)).pump.arrivals) ∨
      (∃ frame, ((start.run events).step (.branch branch)).pump.written =
        (start.run events).pump.written ++ [frame]) ∨
      ((start.run events).step (.branch branch)).live = false
  /-- The next arrival, if that ends the link, and a write that fails do so, and nothing else
  does. -/
  ends : ∀ e ending, (start.run events).live = true →
    (((start.run events).step e).pump.ending = some ending ↔
      (∃ arrival, e = .branch .inbound ∧ (start.run events).pump.arrivals.head? = some arrival ∧
        arrival.end? = some ending) ∨
      ∃ branch, e = .branch branch ∧ (start.run events).ready branch = true ∧
        branch.end? = some ending)
  /-- The link has ended through one of the events, or not at all. -/
  endings : (start.run events).pump.ending.toList = start.along endings events
  /-- Who owns a channel at the end finds what it has not read, then the
  farewell of the link, which is none of that, and then the end. -/
  farewell : ∀ e ending, (start.run events).live = true →
    ((start.run events).step e).pump.ending = some ending →
    ∀ channel id items, (start.run events).bus.owner? channel = some id →
      (start.run events).bus.Holds channel id items →
        (∀ item ∈ items, some item ≠ ending.farewell?) ∧
          ((start.run events).step e).HearsOut id (items ++ ending.farewell?.toList)
  /-- Nobody owns a channel of a link that has ended. -/
  ended : (start.run events).live = false → (start.run events).bus.channels = []

theorem over_run {l : Link} (hl : l.live = false → l.bus.Over) (events : List Event)
    (hended : (l.run events).live = false) : (l.run events).bus.Over := by
  induction events generalizing l with
  | nil => exact hl hended
  | cons e events ih =>
      refine ih ?_ hended
      intro hstep
      cases hlive : l.live with
      | false =>
          rw [bus_step]
          exact (hl hlive).run _
      | true =>
          rw [live_step, hlive, Bool.true_and, Option.isNone_eq_false_iff] at hstep
          obtain ⟨ending, hends⟩ := Option.isSome_iff_exists.mp hstep
          rw [bus_of_ending? hends]
          exact ending.over_run l.bus

/-- Whatever arrives, whatever is called on the bus and whichever branches the
pump takes, a link neither loses nor reorders nor invents anything, and its end
is told to everybody who listens. -/
theorem link_carries_traffic (stamp : Int64) (events : List Event) :
    Traffic (opened stamp) events := by
  have hb : (opened stamp).bus.WellFormed := Bus.wellFormed_initial stamp
  have hrouted : (opened stamp).bus.OwnersHearRouted := fun entry hentry => by cases hentry
  have hbus := (opened stamp).bus_run events
  have hb' : ((opened stamp).run events).bus.WellFormed := by
    rw [hbus]
    exact hb.run _
  have hrouted' : ((opened stamp).run events).bus.OwnersHearRouted := by
    rw [hbus]
    exact hrouted.run hb _
  obtain ⟨rest, hcarried, hwaiting⟩ := @carried_run (opened stamp) (Nat.le_refl 0) events
  constructor
  · exact hbus
  · exact (opened stamp).arrivals_run events
  · exact (opened stamp).dispatched_run events
  · exact ⟨rest, hcarried.symm⟩
  · intro hlive
    rw [← hwaiting hlive]
    exact hcarried
  · exact (opened stamp).written_run events
  · rw [written_run]
    exact (opened stamp).filter_written events
  · exact fun branch => works_of_ready
  · exact fun e ending hlive => ending_step_eq_some_iff hlive
  · exact (opened stamp).endings_run events
  · intro e ending hlive hended channel id items howner hheld
    have hends := (ending_step_of_live hlive e).symm.trans hended
    refine ⟨?_, hearsOut_of_ending? hb' hends howner hheld⟩
    intro item hitem
    have hentry := (Bus.owner?_eq_some_iff hb').mp howner
    exact farewell?_ne_of_isRouted hlive hended (hrouted' _ hentry _ hheld item hitem)
  · intro hended
    have hstart : (opened stamp).live = false → (opened stamp).bus.Over := by
      intro h
      cases h
    simp [Bus.channels, (over_run hstart events hended).unowned]

end Link

end DevMachine.Channel

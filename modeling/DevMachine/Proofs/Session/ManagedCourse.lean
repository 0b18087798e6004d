import DevMachine.Proofs.Channel.Claims
import DevMachine.Proofs.Session.StreamRefinement

/-!
# Courses of managed streams

A course is any sequence of what can happen to a session whose bus is used through
the manager alone.  Streams get turns at any time and in any order, also while the
manager waits for the end of a stream it stops.  A run is a course in which all
streams that have something to look at get their turns together.
-/

namespace DevMachine

open Channel (Bus Failure Frame)

namespace Session

/-- No stream has anything to do. -/
def Quiescent (s : Session) : Prop := ∀ i, s.poll i = s

/-- The manager does not wait for the end of a stream. -/
def Unoccupied (s : Session) : Prop := ∀ t ∈ s.tasks, t.signal.isSome → t.ending.isSome

/-- Starts the stream of a channel that has none. -/
def launch (s : Session) (channel : String) (sink : Nat) : Session :=
  match s.bus.subscribe channel with
  | (.error _, b) => s.useBus b
  | (.ok subscription, b) =>
    let (i, s) := (s.useBus b).spawn subscription sink Logs.flushTimeout
    { s with managed := (channel, i) :: s.managed }

/-- The sessions that managed streams lead to.  Which streams are ready is of no
consequence here. -/
inductive Course (stamp : Int64) : Session → Prop
  | start : Course stamp { bus := { stamp } }
  | turn {s : Session} (hcourse : Course stamp s) (i : Nat) : Course stamp (s.poll i)
  | schedule {s : Session} (hcourse : Course stamp s) (ready : List Nat) :
      Course stamp { s with ready }
  | dispatch {s : Session} (hcourse : Course stamp s) (frame : Frame) :
      Course stamp (s.useBus (s.bus.dispatch frame))
  | send {s : Session} (hcourse : Course stamp s) {frame : Frame}
      (hframe : ∀ channel, frame.claim? channel = none) :
      Course stamp (s.useBus (s.bus.send frame).2)
  | failAll {s : Session} (hcourse : Course stamp s) (failure : Failure) :
      Course stamp (s.useBus (s.bus.failAll failure))
  | pass {s : Session} (hcourse : Course stamp s) (duration : Nat) :
      Course stamp { s with clock := s.clock + duration }
  | output {s : Session} (hcourse : Course stamp s) (sinks : List Logs.Sink) :
      Course stamp { s with sinks }
  | dismiss {s : Session} (hcourse : Course stamp s) {channel : String} {i : Nat}
      (hlisted : s.managed? channel = some i) (hended : (s.ending? i).isSome) :
      Course stamp (s.unmanage channel)
  | retire {s : Session} (hcourse : Course stamp s) {channel : String} {i : Nat}
      (hlisted : s.managed? channel = some i) (hlive : s.ending? i = none) :
      Course stamp ((s.unmanage channel).signal i .stop)
  | launch {s : Session} (hcourse : Course stamp s) (hidle : s.Unoccupied) {channel : String}
      (hfree : s.managed? channel = none) (sink : Nat) : Course stamp (s.launch channel sink)

/-- Steps that leave the channels to the manager. -/
def Step.Managed : Step → Prop
  | .startStreaming _ _ | .stopStreaming _ | .stopAll => True
  | .dispatch _ | .failAll _ | .dropSink _ | .sleep _ | .settle => True
  | .send frame => ∀ channel, frame.claim? channel = none
  | _ => False

variable {stamp : Int64} {s : Session} {i : Nat} {v : View}

/-- What there is of a session is sound, and each stream that has something to
look at is ready. -/
structure Attentive (s : Session) : Prop where
  sound : s.Sound
  follows : ∀ i, ∃ w, s.Follows i w

theorem Attentive.alert (h : s.Attentive) (hv : s.Shows i v) : s.Alert i v := by
  obtain ⟨w, hmissing | ⟨v', hv', halert, -⟩⟩ := h.follows i
  · rw [hv.task] at hmissing
    cases hmissing
  · obtain ⟨task, box, owned, sink, now⟩ := v
    obtain ⟨task', box', owned', sink', now'⟩ := v'
    obtain ⟨htask, hbox, howned, hsink, hnow⟩ := hv
    obtain ⟨htask', hbox', howned', hsink', hnow'⟩ := hv'
    simp_all

theorem Attentive.go (h : s.Attentive) {moves : List Move} (hmoves : s.AllPermitted moves) :
    (s.go moves).Attentive where
  sound := h.sound.go hmoves
  follows := by
    intro i
    obtain ⟨w, hw⟩ := h.follows i
    exact ⟨_, hw.go h.sound hmoves⟩

theorem Attentive.settle (h : s.Attentive) : s.settle.Attentive := by
  have hmoves : s.AllPermitted [.settle] := ⟨trivial, trivial⟩
  exact h.go hmoves

theorem attentive_initial (stamp : Int64) : Attentive { bus := { stamp } } where
  sound := ⟨Bus.wellFormed_initial stamp, List.nodup_nil, List.nodup_nil, by simp, by simp⟩
  follows := fun _ => ⟨{}, .inl rfl⟩

/-- After a round the streams that go on have nothing to do. -/
theorem Attentive.idle_settle (h : s.Attentive) {t : Task} (ht : s.settle.tasks[i]? = some t)
    (hlive : t.ending = none) : ∃ v, s.settle.Shows i v ∧ v.task = t ∧ v.Idle := by
  obtain ⟨v', hv', rfl⟩ := h.sound.settle.shows ht
  have hlength : s.settle.tasks.length = s.tasks.length := by
    have hsame : s.settle.tasks.map Task.subscription = s.tasks.map Task.subscription :=
      map_settle s fun _ _ _ => rfl
    simpa using congrArg List.length hsame
  have hlt := (List.getElem?_eq_some_iff.mp ht).1
  rw [hlength] at hlt
  obtain ⟨v, hv, -⟩ := h.sound.shows (List.getElem?_eq_getElem hlt)
  have hpolled := (hv.settle h.sound (h.alert hv)).1
  have htask : v.poll.task = v'.task := Option.some.inj (hpolled.task.symm.trans ht)
  rw [← htask] at hlive
  exact ⟨v.poll, hpolled, htask, View.idle_poll hlive⟩

theorem Attentive.quiescent_settle (h : s.Attentive) : s.settle.Quiescent := by
  intro i
  cases ht : s.settle.tasks[i]? with
  | none => exact poll_of_none ht
  | some t =>
      cases hending : t.ending with
      | none =>
          obtain ⟨v, hv, -, hidle⟩ := h.idle_settle ht hending
          exact hv.poll_of_idle hidle
      | some ending =>
          obtain ⟨v, hv, rfl⟩ := h.sound.settle.shows ht
          exact hv.poll_of_ended (by simp [hending])

theorem Attentive.unoccupied_settle (h : s.Attentive) : s.settle.Unoccupied := by
  intro t ht hsignal
  obtain ⟨i, ht⟩ := List.mem_iff_getElem?.mp ht
  cases hending : t.ending with
  | some ending => rfl
  | none =>
      obtain ⟨v, -, rfl, hidle⟩ := h.idle_settle ht hending
      rw [hidle.unasked] at hsignal
      cases hsignal

/-- A session between two steps of a run. -/
structure Underway (stamp : Int64) (s : Session) : Prop extends Attentive s where
  course : Course stamp s
  unoccupied : s.Unoccupied

theorem settle_induction (P : Session → Prop) (hstart : P { s with ready := [] })
    (hturn : ∀ s i, P s → P (s.poll i)) : P s.settle := by
  have hpolls (order : List Nat) {s : Session} (h : P s) : P (order.foldl poll s) := by
    induction order generalizing s with
    | nil => exact h
    | cons i order ih => exact ih (hturn s i h)
  exact hpolls _ hstart

theorem Course.settle (h : Course stamp s) : Course stamp s.settle :=
  settle_induction (Course stamp) (h.schedule []) fun _ i h => h.turn i

theorem Underway.settle (h : s.Underway stamp) : s.settle.Underway stamp where
  toAttentive := h.toAttentive.settle
  course := h.course.settle
  unoccupied := h.unoccupied_settle

theorem managed?_unmanage (s : Session) (c channel : String) :
    (s.unmanage c).managed? channel = if channel = c then none else s.managed? channel :=
  Bus.find?_filter_ne s.managed c channel

theorem managed_poll (s : Session) (i : Nat) : (s.poll i).managed = s.managed := by
  unfold poll
  split
  · split <;> rfl
  · rfl

theorem managed?_settle (s : Session) (channel : String) :
    s.settle.managed? channel = s.managed? channel := by
  have hmanaged : s.settle.managed = s.managed :=
    settle_induction (fun s' => s'.managed = s.managed) rfl
      fun s' i h => (managed_poll s' i).trans h
  rw [managed?, hmanaged, managed?]

theorem stopStreaming_of_none {channel : String} (hfree : s.managed? channel = none) :
    (s.stopStreaming channel).2 = s := by
  simp [stopStreaming, hfree]

theorem stopStreaming_of_ended {channel : String} (hlisted : s.managed? channel = some i)
    (hended : (s.ending? i).isSome) : (s.stopStreaming channel).2 = s.unmanage channel := by
  have hsame : (s.unmanage channel).ending? i = s.ending? i := rfl
  obtain ⟨ending, hending⟩ := Option.isSome_iff_exists.mp hended
  simp [stopStreaming, stop, hlisted, hsame, hending]

theorem stopStreaming_of_live {channel : String} (hlisted : s.managed? channel = some i)
    (hlive : s.ending? i = none) :
    (s.stopStreaming channel).2 = ((s.unmanage channel).signal i .stop).settle := by
  have hsame : (s.unmanage channel).ending? i = s.ending? i := rfl
  simp [stopStreaming, stop, hlisted, hsame, hlive]

theorem Underway.stopStreaming (h : s.Underway stamp) (channel : String) :
    (s.stopStreaming channel).2.Underway stamp ∧
      (s.stopStreaming channel).2.managed? channel = none := by
  have hgone : (s.unmanage channel).managed? channel = none := by
    rw [managed?_unmanage, if_pos rfl]
  cases hlisted : s.managed? channel with
  | none =>
      rw [stopStreaming_of_none hlisted]
      exact ⟨h, hlisted⟩
  | some i =>
      cases hending : s.ending? i with
      | some ending =>
          have hended : (s.ending? i).isSome := by simp [hending]
          have hmoves : s.AllPermitted [.manage (s.unmanage channel).managed] := ⟨trivial, trivial⟩
          rw [stopStreaming_of_ended hlisted hended]
          exact ⟨⟨h.toAttentive.go hmoves, h.course.dismiss hlisted hended, h.unoccupied⟩, hgone⟩
      | none =>
          have hmoves : s.AllPermitted [.manage (s.unmanage channel).managed, .signal i .stop] :=
            ⟨trivial, trivial, trivial⟩
          have hsignalled : ((s.unmanage channel).signal i .stop).Attentive :=
            h.toAttentive.go hmoves
          rw [stopStreaming_of_live hlisted hending, managed?_settle]
          exact ⟨⟨hsignalled.settle, (h.course.retire hlisted hending).settle,
            hsignalled.unoccupied_settle⟩, hgone⟩

theorem Underway.stopEach (h : s.Underway stamp) (channels : List String) :
    (s.stopEach channels).Underway stamp := by
  induction channels generalizing s with
  | nil => exact h
  | cons channel channels ih => exact ih (h.stopStreaming channel).1

theorem startStreaming_eq (s : Session) (channel : String) (sink : Nat) :
    (s.startStreaming channel sink).2 = (s.stopStreaming channel).2.launch channel sink := by
  unfold startStreaming launch
  cases hresult : (s.stopStreaming channel).2.bus.subscribe channel with
  | mk result b => cases result <;> simp [hresult]

theorem tasks_launch (s : Session) (channel : String) (sink : Nat) :
    ∃ more : List Task, (s.launch channel sink).tasks = s.tasks ++ more ∧
      ∀ t ∈ more, t.signal = none := by
  unfold launch
  split
  · exact ⟨[], by simp [useBus, wake], by simp⟩
  · next subscription b _ =>
    exact ⟨[{ subscription, sink, stream := {} }], rfl, by simp⟩

theorem Unoccupied.launch (h : s.Unoccupied) (channel : String) (sink : Nat) :
    (s.launch channel sink).Unoccupied := by
  obtain ⟨more, htasks, hunasked⟩ := tasks_launch s channel sink
  intro t ht hsignal
  rw [htasks] at ht
  rcases List.mem_append.mp ht with hold | hnew
  · exact h t hold hsignal
  · rw [hunasked t hnew] at hsignal
    cases hsignal

theorem Underway.openSink (h : s.Underway stamp) (breaksOn : Option String) :
    (s.openSink breaksOn).2.Underway stamp := by
  have hmoves : s.AllPermitted [.openSink breaksOn] := ⟨trivial, trivial⟩
  exact ⟨h.toAttentive.go hmoves, h.course.output _, h.unoccupied⟩

theorem Underway.perform (h : s.Underway stamp) {st : Step} (hst : st.Managed) :
    (s.perform st).2.Underway stamp := by
  have hpermitted : st.Permitted s := by cases st <;> trivial
  have hattentive : (s.perform st).2.Attentive := by
    rw [← go_performMoves]
    exact h.toAttentive.go (h.sound.allPermitted_performMoves hpermitted)
  cases st with
  | dispatch frame => exact ⟨hattentive, h.course.dispatch frame, h.unoccupied⟩
  | send frame => exact ⟨hattentive, h.course.send hst, h.unoccupied⟩
  | failAll failure => exact ⟨hattentive, h.course.failAll failure, h.unoccupied⟩
  | dropSink sink => exact ⟨hattentive, h.course.output _, h.unoccupied⟩
  | settle => exact h.settle
  | stopStreaming channel => exact (h.stopStreaming channel).1
  | stopAll => exact h.stopEach s.active
  | startStreaming channel breaksOn =>
      have heq : (s.perform (.startStreaming channel breaksOn)).2 =
          ((s.openSink breaksOn).2.stopStreaming channel).2.launch channel s.sinks.length :=
        startStreaming_eq _ channel s.sinks.length
      obtain ⟨hstopped, hfree⟩ := (h.openSink breaksOn).stopStreaming channel
      rw [heq] at hattentive ⊢
      exact ⟨hattentive, hstopped.course.launch hstopped.unoccupied hfree _,
        hstopped.unoccupied.launch channel _⟩
  | sleep duration =>
      have hsettled := h.settle
      have hmoves : s.settle.AllPermitted [.advance duration] := ⟨trivial, trivial⟩
      have hpassed : ({ s.settle with clock := s.settle.clock + duration } : Session).Underway
          stamp := ⟨hsettled.toAttentive.go hmoves, hsettled.course.pass duration,
            hsettled.unoccupied⟩
      exact hpassed.settle
  | _ => cases hst

theorem Underway.run (h : s.Underway stamp) {steps : List (Bool × Step)}
    (hsteps : ∀ entry ∈ steps, entry.2.Managed) : (s.run steps).Underway stamp := by
  induction steps generalizing s with
  | nil => exact h
  | cons entry steps ih =>
      obtain ⟨queued, st⟩ := entry
      have hperformed := h.perform (hsteps _ List.mem_cons_self)
      have hstep : (s.step queued st).2.Underway stamp := by
        cases queued with
        | true => exact hperformed
        | false => exact hperformed.settle
      exact ih hstep fun entry hentry => hsteps entry (List.mem_cons_of_mem _ hentry)

theorem underway_initial (stamp : Int64) : Underway stamp { bus := { stamp } } where
  toAttentive := attentive_initial stamp
  course := .start
  unoccupied := by simp [Unoccupied]

end Session

end DevMachine

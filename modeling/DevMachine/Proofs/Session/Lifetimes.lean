import DevMachine.Proofs.Channel.Queues
import DevMachine.Proofs.Session.ManagedCourse

/-!
# Streams that go on

As long as a stream goes on its sink has not broken on anything, so what is
known about it from its looks holds without looking at the sink.  Its looks
stand in the order of time, and whatever arrives is found by a look before the
clock goes on.
-/

namespace DevMachine

open Channel (Bus Item)
open Logs (Sink)

namespace Session

variable {s : Session} {i : Nat} {v v' : View} {w : Watch} {m : Move}

theorem Shows.unique (hv : s.Shows i v) (hv' : s.Shows i v') : v' = v := by
  obtain ⟨task, box, owned, sink, now⟩ := v
  obtain ⟨task', box', owned', sink', now'⟩ := v'
  obtain ⟨htask, hbox, howned, hsink, hnow⟩ := hv
  obtain ⟨htask', hbox', howned', hsink', hnow'⟩ := hv'
  simp_all

/-- What a move keeps of one task, when it is no round of turns. -/
structure Between (v v' : View) : Prop where
  ending : v'.task.ending = v.task.ending
  breaksOn : v'.sink.breaksOn = v.sink.breaksOn
  owned : v.owned = false → v'.owned = false

theorem Shows.move_of_not_settle (hs : s.Sound) (hv : s.Shows i v) (halert : s.Alert i v)
    (hm : m ≠ .settle) : ∃ v', (s.move m).Shows i v' ∧ Between v v' := by
  cases m with
  | bus op =>
      obtain ⟨box, owned, hv', -⟩ := hv.bus hs halert op
      refine ⟨_, hv', rfl, rfl, ?_⟩
      intro howned
      have hid := hs.subscribed v.task (List.mem_of_getElem? hv.task)
      rw [← hv.owned] at howned
      exact hv'.owned.symm.trans (Bus.owns_perform_of_not_owns hid howned op)
  | openSink breaksOn => exact ⟨v, (hv.openSink halert breaksOn).1, rfl, rfl, id⟩
  | discard sink =>
      obtain ⟨k, hv', -, -, hbreaksOn, -⟩ := hv.discard halert sink
      exact ⟨_, hv', rfl, hbreaksOn, id⟩
  | spawn subscription sink timeout =>
      exact ⟨v, (hv.spawn halert subscription sink timeout).1, rfl, rfl, id⟩
  | signal j signal =>
      have hv' := (hv.signal halert j signal).1
      by_cases hij : j = i
      · simp only [hij, if_true] at hv' ⊢
        exact ⟨_, hv', rfl, rfl, id⟩
      · simp only [hij, if_false] at hv'
        exact ⟨v, hv', rfl, rfl, id⟩
  | manage managed => exact ⟨v, ⟨hv.task, hv.box, hv.owned, hv.sink, hv.now⟩, rfl, rfl, id⟩
  | advance duration => exact ⟨_, (hv.advance halert duration).1, rfl, rfl, id⟩
  | settle => exact absurd rfl hm

theorem length_tasks_settle (s : Session) : s.settle.tasks.length = s.tasks.length := by
  have hsame : s.settle.tasks.map Task.subscription = s.tasks.map Task.subscription :=
    map_settle s fun _ _ _ => rfl
  simpa using congrArg List.length hsame

/-- A task that is not there yet is there after it is started, and no sooner. -/
theorem eq_spawn_of_shows_move (hnone : s.tasks[i]? = none) (hv' : (s.move m).Shows i v') :
    ∃ subscription sink timeout, m = .spawn subscription sink timeout ∧ i = s.tasks.length := by
  have hle := List.getElem?_eq_none_iff.mp hnone
  have hlt := (List.getElem?_eq_some_iff.mp hv'.task).1
  cases m with
  | spawn subscription sink timeout =>
      have hlength : (s.move (.spawn subscription sink timeout)).tasks.length =
          s.tasks.length + 1 := by simp [move, Session.spawn, addTask, Session.wake]
      exact ⟨subscription, sink, timeout, rfl, by omega⟩
  | signal j signal =>
      have hlength : (s.move (.signal j signal)).tasks.length = s.tasks.length :=
        List.length_modify _ _ _
      omega
  | settle =>
      have hlength : (s.move .settle).tasks.length = s.tasks.length := length_tasks_settle s
      omega
  | _ => exact absurd hlt (Nat.not_lt.mpr hle)

theorem written_note (hv : s.Shows i v) (hm : m ≠ .settle) :
    (w.note i s m).looks = w.looks ∧ (w.note i s m).written = w.written := by
  cases m with
  | spawn subscription sink timeout =>
      have hlt := (List.getElem?_eq_some_iff.mp hv.task).1
      have hnote : w.note i s (.spawn subscription sink timeout) = w :=
        if_neg (Nat.ne_of_lt hlt)
      rw [hnote]
      exact ⟨rfl, rfl⟩
  | signal j signal =>
      simp only [Watch.note]
      split <;> exact ⟨rfl, rfl⟩
  | settle => exact absurd rfl hm
  | _ => exact ⟨rfl, rfl⟩

theorem Live.note_settle (hv : s.Shows i v) (hw : Live v w) :
    w.note i s .settle = w.look v.look := by
  simp [Watch.note, Watch.look, View.look, sourceEnded, hv.task, hv.now, hv.owned, hw.found,
    hw.asked]

theorem View.unbroken_of_live_poll (hlive : v.poll.task.ending = none) :
    v.task.ending = none ∧ v.sink.breaksWithin v.lines = false := by
  cases hending : v.task.ending with
  | some ending =>
      rw [View.poll_of_ended (by simp [hending]), hending] at hlive
      cases hlive
  | none =>
      rw [View.poll_of_live hending] at hlive
      refine ⟨rfl, ?_⟩
      unfold View.turn at hlive
      split at hlive
      · cases hlive
      next hunbroken => exact Bool.eq_false_iff.mpr hunbroken

theorem Accounts.sturdy_look (hw : Accounts v w) (hk : Sturdy v.sink w)
    (hlive : v.poll.task.ending = none) : Sturdy v.poll.sink (w.look v.look) := by
  obtain ⟨hending, hunbroken⟩ := View.unbroken_of_live_poll hlive
  have hwritten := (hw.live hending).written_look (hw.ending.symm.trans hending)
  apply Sturdy.congr _ (breaksOn_poll v)
  intro line hline
  rw [hwritten] at hline
  rcases List.mem_append.mp hline with hold | hnew
  · exact hk line hold
  · have hnot := List.any_eq_false.mp hunbroken line hnew
    simpa using hnot

/-- The sink of a stream that goes on breaks on nothing that was written. -/
theorem sturdy_move (hs : s.Sound) (h : s.Follows i w)
    (hk : ∀ v, s.Shows i v → v.task.ending = none → Sturdy v.sink w)
    (hv' : (s.move m).Shows i v') (hlive : v'.task.ending = none) :
    Sturdy v'.sink (w.note i s m) := by
  rcases h with hnone | ⟨v, hv, halert, hw⟩
  · obtain ⟨subscription, sink, timeout, rfl, hi⟩ := eq_spawn_of_shows_move hnone hv'
    have hnote : w.note i s (.spawn subscription sink timeout) =
        { timeout, found := s.backlog subscription } := if_pos hi
    intro line hline
    rw [hnote] at hline
    cases hline
  · by_cases hm : m = .settle
    · subst hm
      obtain rfl := (hv.settle hs halert).1.unique hv'
      have hending := (View.unbroken_of_live_poll hlive).1
      have haccounts := hw (hk v hv hending)
      rw [(haccounts.live hending).note_settle hv]
      exact haccounts.sturdy_look (hk v hv hending) hlive
    · obtain ⟨v'', hv'', hbetween⟩ := hv.move_of_not_settle hs halert hm
      obtain rfl := hv''.unique hv'
      have hwritten := (written_note (w := w) hv hm).2
      have hsturdy := hk v hv (hbetween.ending.symm.trans hlive)
      intro line hline
      rw [hwritten] at hline
      exact hsturdy.congr hbetween.breaksOn line hline

theorem sturdy_go (hs : s.Sound) (h : s.Follows i w)
    (hk : ∀ v, s.Shows i v → v.task.ending = none → Sturdy v.sink w) {moves : List Move}
    (hmoves : s.AllPermitted moves) (hv : (s.go moves).Shows i v) (hlive : v.task.ending = none) :
    Sturdy v.sink (s.watch i w moves) := by
  induction moves generalizing s w with
  | nil => exact hk v hv hlive
  | cons m moves ih =>
      exact ih (hs.move hmoves.1) (h.move hs hmoves.1) (fun v' hv' => sturdy_move hs h hk hv')
        hmoves.2 hv

section Run

variable {steps : List (Bool × Step)} (hsteps : Permitted {} steps)

include hsteps

theorem sound_run : (run {} steps).Sound := by
  rw [← go_runMoves]
  exact sound_initial.go (sound_initial.allPermitted_runMoves hsteps)

theorem follows_run (i : Nat) : (run {} steps).Follows i (watched i steps) := by
  rw [← go_runMoves]
  exact Follows.go sound_initial (.inl rfl) (sound_initial.allPermitted_runMoves hsteps)

theorem accounts_of_sturdy (hv : (run {} steps).Shows i v) (hk : Sturdy v.sink (watched i steps)) :
    Accounts v (watched i steps) ∧ (run {} steps).Alert i v := by
  rcases follows_run hsteps i with hnone | ⟨v', hv', halert, hw⟩
  · rw [hv.task] at hnone
    cases hnone
  · obtain rfl := hv.unique hv'
    exact ⟨hw hk, halert⟩

/-- What is known from the looks of a stream holds as long as it goes on. -/
theorem accounts_of_live (hv : (run {} steps).Shows i v) (hlive : v.task.ending = none) :
    Accounts v (watched i steps) ∧ (run {} steps).Alert i v := by
  apply accounts_of_sturdy hsteps hv
  rw [← go_runMoves] at hv
  exact sturdy_go sound_initial (.inl rfl) (fun _ hv' => by cases hv'.task)
    (sound_initial.allPermitted_runMoves hsteps) hv hlive

end Run

theorem permitted_append {s : Session} {steps more : List (Bool × Step)} :
    s.Permitted (steps ++ more) ↔ s.Permitted steps ∧ (s.run steps).Permitted more := by
  induction steps generalizing s with
  | nil => simp [Permitted, run]
  | cons entry steps ih =>
      rw [List.cons_append, Permitted, Permitted, ih, and_assoc]
      rfl

theorem Shows.idle_of_rest (hs : s.Sound) (hv : s.Shows i v) (hlive : v.task.ending = none)
    (hrest : s.poll i = s) : v.Idle := by
  have hpolled := hv.poll_self hs
  rw [hrest] at hpolled
  have hsame : v.poll = v := hv.unique hpolled
  have hidle := View.idle_poll (v := v) (by rw [hsame]; exact hlive)
  rwa [hsame] at hidle

/-- After a step that is not queued no stream has anything to do. -/
theorem quiescent_of_unqueued {steps : List (Bool × Step)} {step : Step}
    (hsteps : Permitted {} (steps ++ [(false, step)])) :
    (run {} (steps ++ [(false, step)])).Quiescent := by
  obtain ⟨hbefore, hstep, -⟩ := permitted_append.mp hsteps
  have hattentive : (run {} steps).Attentive :=
    ⟨sound_run hbefore, fun i => ⟨_, follows_run hbefore i⟩⟩
  have hperformed : ((run {} steps).perform step).2.Attentive := by
    rw [← go_performMoves]
    exact hattentive.go (hattentive.sound.allPermitted_performMoves hstep)
  have hrun : run {} (steps ++ [(false, step)]) = ((run {} steps).perform step).2.settle := by
    rw [run, List.foldl_append]
    rfl
  rw [hrun]
  exact hperformed.quiescent_settle

/-! ## Time -/

theorem clock_settle (s : Session) : s.settle.clock = s.clock := by
  refine settle_induction (fun s' => s'.clock = s.clock) rfl ?_
  intro s' i hs'
  rw [← hs']
  unfold poll
  split
  · split <;> rfl
  · rfl

/-- The looks of a stream stand in the order of time. -/
structure Timely (s : Session) (w : Watch) : Prop where
  ordered : (w.looks.map Look.now).Pairwise (· ≤ ·)
  past : ∀ l ∈ w.looks, l.now ≤ s.clock

theorem Timely.move (h : Timely s w) (m : Move) : Timely (s.move m) (w.note i s m) := by
  cases m with
  | spawn subscription sink timeout =>
      simp only [Watch.note]
      split
      · exact ⟨List.Pairwise.nil, by simp⟩
      · exact ⟨h.ordered, h.past⟩
  | signal j signal =>
      simp only [Watch.note]
      split <;> exact ⟨h.ordered, h.past⟩
  | advance duration =>
      exact ⟨h.ordered, fun l hl => Nat.le_add_right_of_le (h.past l hl)⟩
  | settle =>
      have hclock : (s.move .settle).clock = s.clock := clock_settle s
      constructor
      · simp only [Watch.note, List.map_append, List.pairwise_append]
        refine ⟨h.ordered, List.pairwise_singleton _ _, ?_⟩
        intro a ha b hb
        obtain ⟨l, hl, rfl⟩ := List.mem_map.mp ha
        obtain rfl : b = s.clock := by simpa using hb
        exact h.past l hl
      · intro l hl
        rw [hclock]
        rcases List.mem_append.mp hl with hold | hnew
        · exact h.past l hold
        · obtain rfl := List.mem_singleton.mp hnew
          exact Nat.le_refl _
  | _ => exact ⟨h.ordered, h.past⟩

theorem Timely.go (h : Timely s w) (moves : List Move) :
    Timely (s.go moves) (s.watch i w moves) := by
  induction moves generalizing s w with
  | nil => exact h
  | cons m moves ih => exact ih (h.move m)

theorem timely_run (i : Nat) (steps : List (Bool × Step)) :
    Timely (run {} steps) (watched i steps) := by
  rw [← go_runMoves]
  exact Timely.go ⟨List.Pairwise.nil, by simp⟩ _

/-- Items stamped with the times of the looks that found them. -/
def taken (looks : List Look) : List (Nat × Item) :=
  looks.flatMap fun l => l.found.map fun item => (l.now, item)

/-- Notes down when items arrive for a stream.  What waits for a stream arrives
when it is started. -/
def noteArrivals (i : Nat) (s : Session) (arrived : List (Nat × Item)) :
    Move → List (Nat × Item)
  | .bus op => arrived ++ (s.delivered i op).map fun item => (s.clock, item)
  | .spawn subscription _ _ =>
    if i = s.tasks.length then (s.backlog subscription).map fun item => (s.clock, item)
    else arrived
  | _ => arrived

def arrivals (i : Nat) (s : Session) (arrived : List (Nat × Item)) :
    List Move → List (Nat × Item)
  | [] => arrived
  | m :: moves => (s.move m).arrivals i (noteArrivals i s arrived m) moves

/-- The items that arrive for a stream in a run. -/
def arrivedBy (i : Nat) (steps : List (Bool × Step)) : List (Nat × Item) :=
  arrivals i {} [] (runMoves {} steps)

/-- The clock goes on only right after a round of turns. -/
def Unhurried (settled : Bool) : List Move → Prop
  | [] => True
  | .settle :: moves => Unhurried true moves
  | .advance _ :: moves => settled = true ∧ Unhurried true moves
  | _ :: moves => Unhurried false moves

theorem Unhurried.mono {moves : List Move} (h : Unhurried false moves) (settled : Bool) :
    Unhurried settled moves := by
  cases moves with
  | nil => trivial
  | cons m moves =>
      cases m with
      | advance duration => cases h.1
      | _ => exact h

theorem Unhurried.append {settled : Bool} {moves more : List Move} (h : Unhurried settled moves)
    (hmore : Unhurried false more) : Unhurried settled (moves ++ more) := by
  induction moves generalizing settled with
  | nil => exact hmore.mono settled
  | cons m moves ih =>
      cases m with
      | advance duration => exact ⟨h.1, ih h.2⟩
      | settle => exact ih (show Unhurried true moves from h)
      | _ => exact ih (show Unhurried false moves from h)

theorem unhurried_of_forall {moves : List Move} (h : ∀ m ∈ moves, ∀ d, m ≠ .advance d)
    (settled : Bool) : Unhurried settled moves := by
  induction moves generalizing settled with
  | nil => trivial
  | cons m moves ih =>
      have hrest := ih fun m' hm' => h m' (List.mem_cons_of_mem m hm')
      cases m with
      | advance duration => exact absurd rfl (h _ List.mem_cons_self duration)
      | _ => exact hrest _

theorem Move.Stops.ne_advance (hm : m.Stops) (duration : Nat) : m ≠ .advance duration := by
  rintro rfl
  cases hm

theorem unhurried_subscribeMoves (s : Session) (channel : String) {next : Nat → List Move}
    (hnext : ∀ id, Unhurried false (next id)) :
    Unhurried false (s.subscribeMoves channel next) := by
  unfold subscribeMoves
  cases (s.bus.subscribe channel).1 with
  | error e => trivial
  | ok id => exact hnext id

theorem unhurried_performMoves (s : Session) (step : Step) :
    Unhurried false (s.performMoves step) := by
  cases step with
  | spawn channel timeout breaksOn => exact unhurried_subscribeMoves s channel fun _ => trivial
  | stop i =>
      simp only [performMoves, stopMoves]
      split <;> trivial
  | startStreaming channel breaksOn =>
      have hstopped := unhurried_of_forall
        (fun m (hm : m ∈ (s.openSink breaksOn).2.stopStreamingMoves channel) =>
          (stops_of_mem_stopStreamingMoves hm).ne_advance) false
      exact hstopped.append (unhurried_subscribeMoves _ channel fun _ => trivial)
  | stopStreaming channel =>
      exact unhurried_of_forall (fun m hm => (stops_of_mem_stopStreamingMoves hm).ne_advance) _
  | stopAll =>
      exact unhurried_of_forall (fun m hm => (stops_of_mem_stopEachMoves hm).ne_advance) _
  | dropManager =>
      apply unhurried_of_forall
      intro m hm duration heq
      subst heq
      simp [performMoves] at hm
  | sleep duration => exact ⟨rfl, trivial⟩
  | _ => trivial

theorem unhurried_runMoves (s : Session) (steps : List (Bool × Step)) :
    Unhurried false (s.runMoves steps) := by
  induction steps generalizing s with
  | nil => trivial
  | cons entry steps ih =>
      obtain ⟨queued, step⟩ := entry
      have hsettled : Unhurried false (if queued then [] else [Move.settle]) := by
        cases queued <;> trivial
      exact ((unhurried_performMoves s step).append hsettled).append (ih _)

theorem arrivals_eq {arrived : List (Nat × Item)} {settled : Bool} {moves : List Move}
    (hmoves : Unhurried settled moves) (hsettled : settled = true → w.found = [])
    (harrived : arrived = taken w.looks ++ w.found.map fun item => (s.clock, item)) :
    arrivals i s arrived moves = taken (s.watch i w moves).looks ++
      (s.watch i w moves).found.map fun item => ((s.go moves).clock, item) := by
  induction moves generalizing s w arrived settled with
  | nil => exact harrived
  | cons m moves ih =>
      cases m with
      | bus op =>
          have hrest : Unhurried false moves := hmoves
          refine ih hrest (fun h => by cases h) ?_
          simp [noteArrivals, Watch.note, harrived, move, useBus, Session.wake]
      | spawn subscription sink timeout =>
          have hrest : Unhurried false moves := hmoves
          refine ih hrest (fun h => by cases h) ?_
          by_cases hi : i = s.tasks.length
          · simp [noteArrivals, Watch.note, hi, taken, move, Session.spawn, addTask, Session.wake]
          · simp [noteArrivals, Watch.note, hi, harrived, move, Session.spawn, addTask,
              Session.wake]
      | signal j signal =>
          have hrest : Unhurried false moves := hmoves
          refine ih hrest (fun h => by cases h) ?_
          by_cases hij : j = i
          · simp [noteArrivals, Watch.note, hij, harrived, move, Session.signal, updateTask,
              Session.wake]
          · simp [noteArrivals, Watch.note, hij, harrived, move, Session.signal, updateTask,
              Session.wake]
      | settle =>
          have hrest : Unhurried true moves := hmoves
          refine ih hrest (fun _ => rfl) ?_
          simp [noteArrivals, Watch.note, harrived, taken]
      | advance duration =>
          -- nothing is unread when the clock goes on, so no item gets another stamp
          have hfound := hsettled hmoves.1
          refine ih hmoves.2 (fun _ => hfound) ?_
          simp [noteArrivals, Watch.note, harrived, hfound]
      | _ =>
          have hrest : Unhurried false moves := hmoves
          exact ih hrest (fun h => by cases h) harrived

theorem arrivedBy_eq (i : Nat) (steps : List (Bool × Step)) :
    arrivedBy i steps = taken (watched i steps).looks ++
      (watched i steps).found.map fun item => ((run {} steps).clock, item) := by
  rw [← go_runMoves]
  exact arrivals_eq (unhurried_runMoves {} steps) (fun h => by cases h) rfl

end Session

end DevMachine

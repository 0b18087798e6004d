import DevMachine.Proofs.Channel.Queues
import DevMachine.Proofs.Session.Lifetimes

/-!
# What a stopped stream reports

A stream reports the first failure that it has read.  Stopping it makes it read
what is left, and a failure found only then is passed over.
-/

namespace DevMachine

open Channel (Bus Failure Item)
open Logs (Ending Sink Stream)

namespace Session

variable {s : Session} {i : Nat} {v v' : View} {w : Watch} {m : Move}

/-- How a stream ends that reads some items and is not asked for anything. -/
def verdict (items : List Item) : Ending := (Logs.failure? items).elim .finished .failed

theorem failure?_append (items more : List Item) :
    Logs.failure? (items ++ more) = (Logs.failure? items).or (Logs.failure? more) :=
  List.findSome?_append

theorem verdict_heard {looks : List Look} (hasked : ∀ l ∈ looks, l.asked = none) :
    verdict (heard looks) = (endingOf looks).getD .finished := by
  induction looks with
  | nil => rfl
  | cons l looks ih =>
      have hl : l.asked = none := hasked l List.mem_cons_self
      have hrest := ih fun l' hl' => hasked l' (List.mem_cons_of_mem l hl')
      unfold verdict at hrest ⊢
      rw [heard, endingOf, List.findSome?_cons, failure?_append, if_neg (by simp [hl])]
      cases hfailure : Logs.failure? l.found with
      | some e =>
          have hending : l.ending? = some (.failed e) := by simp [Look.ending?, hl, hfailure]
          rw [hending]
          rfl
      | none =>
          cases hsource : l.sourceEnded with
          | true =>
              have hending : l.ending? = some .finished := by
                simp [Look.ending?, hl, hfailure, hsource]
              rw [hending]
              rfl
          | false =>
              have hending : l.ending? = none := by simp [Look.ending?, hl, hfailure, hsource]
              rw [hending]
              exact hrest

theorem heard_concat_of_ended {looks : List Look} (hended : (endingOf looks).isSome) (l : Look) :
    heard (looks ++ [l]) = heard looks := by
  induction looks with
  | nil => cases hended
  | cons l' looks ih =>
      rw [List.cons_append, heard, heard]
      cases hl : l'.ending? with
      | some ending => rfl
      | none =>
          have hrest : (endingOf looks).isSome := by simpa [endingOf, hl] using hended
          rw [ih hrest]

theorem heard_concat {looks : List Look} (hlive : endingOf looks = none) (l : Look) :
    heard (looks ++ [l]) = heard looks ++ if l.asked = some .abort then [] else l.found := by
  induction looks with
  | nil => simp [heard]
  | cons l' looks ih =>
      have hl : l'.ending? = none := endingOf_eq_none_iff.mp hlive l' List.mem_cons_self
      have hrest : endingOf looks = none := by simpa [endingOf, hl] using hlive
      rw [List.cons_append, heard, heard, hl, ih hrest]
      simp

/-- All that its looks found was read by a stream, and one that has ended is sent
nothing more. -/
structure Hears (v : View) (w : Watch) : Prop where
  heard : w.looks.flatMap Look.found = heard w.looks
  ended : v.task.ending.isSome → v.owned = false ∧ w.found = []

theorem owned_of_ended (hlive : v.task.ending = none) (hasked : v.task.signal = none)
    (hunbroken : v.sink.breaksWithin v.lines = false) (hended : v.poll.task.ending.isSome) :
    v.poll.owned = false := by
  rw [View.poll_of_live hlive] at hended ⊢
  rw [View.turn_of_unbroken hunbroken] at hended ⊢
  have hturn : lookTurn v.task.stream v.look =
      v.task.stream.turn v.now v.box.items !v.owned := by
    simp [lookTurn, View.look, hasked]
  simp only [hturn, Stream.turn, Stream.takeAll_eq] at hended ⊢
  cases hfailure : Logs.failure? v.box.items with
  | some e => simp
  | none =>
      cases howned : v.owned with
      | false => rfl
      | true =>
          simp only [hfailure, howned, Bool.not_true, Bool.false_eq_true, if_false] at hended
          split at hended <;> cases hended

theorem Hears.look_of_live (h : Hears v w) (hw : Accounts v w) (hlive : v.task.ending = none)
    (hk : Sturdy v.sink (w.look v.look)) (hasked : w.asked = none) :
    Hears v.poll (w.look v.look) := by
  have hpast := hw.live hlive
  have hending : endingOf w.looks = none := hw.ending.symm.trans hlive
  have hsignal : v.task.signal = none := hpast.asked.trans hasked
  constructor
  · have hread : v.look.asked ≠ some .abort := by simp [View.look, hsignal]
    simp [Watch.look, heard_concat hending, h.heard, hread]
  · intro hended
    exact ⟨owned_of_ended hlive hsignal (hpast.unbroken hending hk) hended, rfl⟩

theorem Hears.look_of_ended (h : Hears v w) (hw : Accounts v w) (hended : v.task.ending.isSome)
    {l : Look} (hfound : l.found = w.found) : Hears v.poll (w.look l) := by
  obtain ⟨howned, hempty⟩ := h.ended hended
  have hending : (endingOf w.looks).isSome := by rwa [← hw.ending]
  rw [View.poll_of_ended hended]
  constructor
  · simp [Watch.look, heard_concat_of_ended hending, h.heard, hfound, hempty]
  · exact fun _ => ⟨howned, rfl⟩

theorem asked_of_note (hv : s.Shows i v) (hasked : (w.note i s m).asked = none) :
    w.asked = none := by
  cases m with
  | spawn subscription sink timeout =>
      have hlt := (List.getElem?_eq_some_iff.mp hv.task).1
      rwa [Watch.note, if_neg (Nat.ne_of_lt hlt)] at hasked
  | signal j signal =>
      simp only [Watch.note] at hasked
      split at hasked
      · cases hasked
      · exact hasked
  | _ => exact hasked

theorem found_note (hv : s.Shows i v) (howned : v.owned = false) (hm : m ≠ .settle) :
    (w.note i s m).found = w.found := by
  cases m with
  | bus op =>
      have hnone : s.delivered i op = [] := by
        unfold delivered
        split
        next t channel ht _ =>
          obtain rfl := Option.some.inj (hv.task.symm.trans ht)
          simp [Bus.received, hv.owned, howned]
        · rfl
      simp [Watch.note, hnone]
  | spawn subscription sink timeout =>
      have hlt := (List.getElem?_eq_some_iff.mp hv.task).1
      rw [Watch.note, if_neg (Nat.ne_of_lt hlt)]
  | signal j signal =>
      simp only [Watch.note]
      split <;> rfl
  | settle => exact absurd rfl hm
  | _ => rfl

/-- A stream that is left alone reads what arrives until it ends. -/
theorem hears_move (hs : s.Sound) (h : s.Follows i w)
    (hhears : ∀ v, s.Shows i v → Sturdy v.sink w → w.asked = none → Hears v w)
    (hv' : (s.move m).Shows i v') (hk : Sturdy v'.sink (w.note i s m))
    (hasked : (w.note i s m).asked = none) : Hears v' (w.note i s m) := by
  rcases h with hnone | ⟨v, hv, halert, hw⟩
  · obtain ⟨subscription, sink, timeout, rfl, hi⟩ := eq_spawn_of_shows_move hnone hv'
    have hstarted : (s.move (.spawn subscription sink timeout)).tasks[i]? =
        some { subscription, sink, stream := { timeout } } := by
      simp [move, Session.spawn, addTask, Session.wake, hi]
    have htask := Option.some.inj (hv'.task.symm.trans hstarted)
    have hnote : w.note i s (.spawn subscription sink timeout) =
        { timeout, found := s.backlog subscription } := if_pos hi
    rw [hnote]
    exact ⟨rfl, fun hended => by simp [htask] at hended⟩
  · have hunasked := asked_of_note hv hasked
    by_cases hm : m = .settle
    · subst hm
      obtain rfl := (hv.settle hs halert).1.unique hv'
      have hk' := hk.congr (breaksOn_poll v).symm
      have hpast := hhears v hv hk'.of_look hunasked
      have haccounts := hw hk'.of_look
      cases hending : v.task.ending with
      | some ending => exact hpast.look_of_ended haccounts (by simp [hending]) rfl
      | none =>
          have hnote := (haccounts.live hending).note_settle hv
          rw [hnote] at hk' ⊢
          exact hpast.look_of_live haccounts hending hk' hunasked
    · obtain ⟨v'', hv'', hbetween⟩ := hv.move_of_not_settle hs halert hm
      obtain rfl := hv''.unique hv'
      obtain ⟨hlooks, hwritten⟩ := written_note (w := w) hv hm
      have hk' : Sturdy v.sink w := by
        unfold Sturdy at hk
        rw [hwritten] at hk
        exact Sturdy.congr hk hbetween.breaksOn.symm
      have hpast := hhears v hv hk' hunasked
      constructor
      · rw [hlooks]
        exact hpast.heard
      · intro hended
        rw [hbetween.ending] at hended
        obtain ⟨howned, hempty⟩ := hpast.ended hended
        exact ⟨hbetween.owned howned, (found_note hv howned hm).trans hempty⟩

theorem hears_go (hs : s.Sound) (h : s.Follows i w)
    (hhears : ∀ v, s.Shows i v → Sturdy v.sink w → w.asked = none → Hears v w)
    {moves : List Move} (hmoves : s.AllPermitted moves) (hv : (s.go moves).Shows i v)
    (hk : Sturdy v.sink (s.watch i w moves)) (hasked : (s.watch i w moves).asked = none) :
    Hears v (s.watch i w moves) := by
  induction moves generalizing s w with
  | nil => exact hhears v hv hk hasked
  | cons m moves ih =>
      exact ih (hs.move hmoves.1) (h.move hs hmoves.1)
        (fun v' hv' hk' hasked' => hears_move hs h hhears hv' hk' hasked') hmoves.2 hv hk hasked

theorem unasked_watch {moves : List Move} (hasked : (s.watch i w moves).asked = none)
    (hw : w.asked = none → ∀ l ∈ w.looks, l.asked = none) :
    ∀ l ∈ (s.watch i w moves).looks, l.asked = none := by
  induction moves generalizing s w with
  | nil => exact hw hasked
  | cons m moves ih =>
      refine ih hasked ?_
      cases m with
      | spawn subscription sink timeout =>
          simp only [Watch.note]
          split
          · intro _ l hl
            cases hl
          · exact hw
      | signal j signal =>
          simp only [Watch.note]
          split
          · exact fun h => by cases h
          · exact hw
      | settle =>
          intro hnone l hl
          rcases List.mem_append.mp hl with hold | hnew
          · exact hw hnone l hold
          · obtain rfl := List.mem_singleton.mp hnew
            exact hnone
      | _ => exact hw

/-! ## Stopping -/

theorem runMoves_append (s : Session) (steps more : List (Bool × Step)) :
    s.runMoves (steps ++ more) = s.runMoves steps ++ (s.run steps).runMoves more := by
  induction steps generalizing s with
  | nil => rfl
  | cons entry steps ih =>
      rw [List.cons_append, runMoves, runMoves, ih, List.append_assoc]
      rfl

theorem watch_append (s : Session) (i : Nat) (w : Watch) (moves more : List Move) :
    s.watch i w (moves ++ more) = (s.go moves).watch i (s.watch i w moves) more := by
  induction moves generalizing s w with
  | nil => rfl
  | cons m moves ih => exact ih (s.move m) (w.note i s m)

theorem watched_stop (steps : List (Bool × Step)) (i : Nat) :
    watched i (steps ++ [(true, .stop i)]) =
      (run {} steps).watch i (watched i steps) ((run {} steps).stopMoves i) := by
  have hmoves : (run {} steps).runMoves [(true, .stop i)] = (run {} steps).stopMoves i := by
    simp [runMoves, stepMoves, performMoves]
  rw [watched, runMoves_append, watch_append, hmoves, go_runMoves]
  rfl

theorem reply_stop (s : Session) (i : Nat) :
    (s.perform (.stop i)).1 = .ended ((s.stop i).1.getD .finished) := rfl

theorem watch_stopMoves (s : Session) (i : Nat) (w : Watch) :
    s.watch i w (s.stopMoves i) =
      if (s.ending? i).isNone then
        Watch.note i (s.signal i .stop) { w with asked := some .stop } .settle
      else w := by
  unfold stopMoves
  split
  · simp only [watch, Watch.note, if_true]
    rfl
  · rfl

theorem sturdy_of_stop {k : Sink} (hk : Sturdy k (s.watch i w (s.stopMoves i))) : Sturdy k w := by
  rw [watch_stopMoves] at hk
  split at hk
  · exact Sturdy.of_look hk
  · exact hk

/-- A stream that goes on finishes when it is stopped, whatever it finds then. -/
theorem stop_tells_ending (hs : s.Sound) (hv : s.Shows i v) (halert : s.Alert i v)
    (hw : Accounts v w) (hk : Sturdy v.sink (s.watch i w (s.stopMoves i))) :
    (s.stop i).1 = some ((endingOf w.looks).getD .finished) := by
  have hending? : s.ending? i = v.task.ending := by simp [ending?, hv.task]
  rw [watch_stopMoves, hending?] at hk
  unfold stop
  rw [hending?, ← hw.ending]
  cases hending : v.task.ending with
  | some ending => simp [hending?, hending]
  | none =>
      -- the stream is asked to stop and takes one last look
      have hpast := hw.live hending
      let stopped : View := { v with task := { v.task with signal := some .stop } }
      obtain ⟨hv', halert'⟩ := hv.signal halert i .stop
      rw [if_pos rfl] at hv' halert'
      have hlive : Live stopped { w with asked := some .stop } :=
        ⟨hpast.timeout, hpast.reassembly, hpast.deadline, hpast.found, hpast.kept, rfl⟩
      have hsturdy :
          Sturdy stopped.sink (Watch.look { w with asked := some .stop } stopped.look) := by
        rw [hending, Option.isNone_none, if_pos rfl] at hk
        rw [← hlive.note_settle hv']
        exact hk
      have hunbroken := hlive.unbroken (hw.ending.symm.trans hending) hsturdy
      have hsignalled : (s.move (.signal i .stop)).Sound := hs.move trivial
      have hturned := (hv'.settle hsignalled halert').1
      have hfinished : stopped.poll.task.ending = some .finished := by
        rw [View.poll_of_live (v := stopped) hending, View.turn_of_unbroken hunbroken]
        exact lookTurn_ending _ _
      have htask : (s.signal i .stop).settle.tasks[i]? = some stopped.poll.task := hturned.task
      simp [ending?, htask, hfinished]

theorem items_arrivedBy (i : Nat) (steps : List (Bool × Step)) :
    (arrivedBy i steps).map (·.2) =
      (watched i steps).looks.flatMap Look.found ++ (watched i steps).found := by
  simp [arrivedBy_eq, taken, List.map_flatMap, Function.comp_def]

/-- A stream that was asked for nothing before reports the first failure it has
read.  What has not been read by then makes no difference. -/
theorem stop_reports_first_failure_read (steps : List (Bool × Step)) (hsteps : Permitted {} steps)
    (i : Nat) (t : Task) (ht : (run {} steps).tasks[i]? = some t) (k : Sink)
    (hk : (run {} steps).sinks[t.sink]? = some k) (hasked : (watched i steps).asked = none)
    (hsturdy : Sturdy k (watched i (steps ++ [(true, .stop i)]))) :
    let w := watched i steps
    let arrived := (arrivedBy i steps).map (·.2)
    arrived = heard w.looks ++ w.found ∧
      ((run {} steps).perform (.stop i)).1 = .ended (verdict (heard w.looks)) ∧
      ((run {} steps).poll i = run {} steps →
        ((run {} steps).perform (.stop i)).1 = .ended (verdict arrived)) := by
  intro w arrived
  have hsound := sound_run hsteps
  obtain ⟨v, hv, rfl⟩ := hsound.shows ht
  obtain rfl : v.sink = k := Option.some.inj (hv.sink.symm.trans hk)
  rw [watched_stop] at hsturdy
  have hsturdy' := sturdy_of_stop hsturdy
  obtain ⟨haccounts, halert⟩ := accounts_of_sturdy hsteps hv hsturdy'
  have hhears : Hears v w := by
    have hmoves := sound_initial.allPermitted_runMoves hsteps
    rw [← go_runMoves] at hv
    exact hears_go sound_initial (.inl rfl) (fun _ hv' => by cases hv'.task) hmoves hv hsturdy'
      hasked
  have hunasked : ∀ l ∈ w.looks, l.asked = none :=
    unasked_watch hasked fun _ l hl => by cases hl
  have harrived : arrived = heard w.looks ++ w.found := by
    rw [← hhears.heard]
    exact items_arrivedBy i steps
  have hreply : ((run {} steps).perform (.stop i)).1 = .ended (verdict (heard w.looks)) := by
    have hstop := stop_tells_ending hsound hv halert haccounts hsturdy
    rw [← verdict_heard hunasked] at hstop
    rw [reply_stop, hstop]
    rfl
  refine ⟨harrived, hreply, ?_⟩
  intro hrest
  have hread : w.found = [] := by
    cases hending : v.task.ending with
    | some ending => exact (hhears.ended (by simp [hending])).2
    | none =>
        have hidle := hv.idle_of_rest hsound hending hrest
        rw [← (haccounts.live hending).found, hidle.read]
  rw [harrived, hread, List.append_nil]
  exact hreply

/-- A failure that was read before the stream was stopped is its verdict. -/
theorem stop_reports_first_failure_read_of_two :
    let before : List (Bool × Step) :=
      [(false, .spawn "out" 5000 none), (true, .dispatch (.event "out" .null)),
        (true, .dispatch (.error (some "out") "gone"))]
    let steps := before ++ [(false, .failAll .closed)]
    Permitted {} steps ∧ (run {} steps).poll 0 = run {} steps ∧
      ∃ t k, (run {} steps).tasks[0]? = some t ∧ (run {} steps).sinks[t.sink]? = some k ∧
        (watched 0 steps).asked = none ∧
        Sturdy k (watched 0 (steps ++ [(true, .stop 0)])) ∧
        ((run {} steps).perform (.stop 0)).1 = .ended (.failed (.remote "out" "gone")) := by
  intro before steps
  have hsteps : Permitted {} steps := ⟨trivial, trivial, trivial, trivial, trivial⟩
  have hrest : (run {} steps).poll 0 = run {} steps := quiescent_of_unqueued hsteps 0
  have hstarted : ((run {} steps).tasks[0]?).isSome := by decide +kernel
  obtain ⟨t, ht⟩ := Option.isSome_iff_exists.mp hstarted
  have hattached : ∀ t ∈ (run {} steps).tasks, ((run {} steps).sinks[t.sink]?).isSome := by
    decide +kernel
  obtain ⟨k, hk⟩ := Option.isSome_iff_exists.mp (hattached t (List.mem_of_getElem? ht))
  have hasked : (watched 0 steps).asked = none := by decide +kernel
  have hwritten : (watched 0 (steps ++ [(true, .stop 0)])).written = [] := by decide +kernel
  have hsturdy : Sturdy k (watched 0 (steps ++ [(true, .stop 0)])) := by
    intro line hline
    rw [hwritten] at hline
    cases hline
  have hverdict : verdict ((arrivedBy 0 steps).map (·.2)) = .failed (.remote "out" "gone") := by
    decide +kernel
  obtain ⟨-, -, hreply⟩ :=
    stop_reports_first_failure_read steps hsteps 0 t ht k hk hasked hsturdy
  refine ⟨hsteps, hrest, t, k, ht, hk, hasked, hsturdy, ?_⟩
  rw [hreply hrest, hverdict]

/-- A failure that has arrived is not always the verdict: a stream that is stopped
at once passes over it. -/
theorem stop_passes_over_unread_failure :
    ¬ ∀ (steps : List (Bool × Step)) (i : Nat) (e : Failure), Permitted {} steps →
      (run {} steps).ending? i = none → (watched i steps).asked = none →
      (∀ k ∈ (run {} steps).sinks, k.breaksOn = none) →
      Logs.failure? ((arrivedBy i steps).map (·.2)) = some e →
        ((run {} steps).perform (.stop i)).1 = .ended (.failed e) := by
  intro hreports
  let steps : List (Bool × Step) :=
    [(false, .spawn "out" 5000 none), (true, .dispatch (.error (some "out") "gone"))]
  have hsteps : Permitted {} steps := ⟨trivial, trivial, trivial⟩
  have hfailed := hreports steps 0 (.remote "out" "gone") hsteps (by decide +kernel)
    (by decide +kernel) (by decide +kernel) (by decide +kernel)
  have hfinished : ((run {} steps).stop 0).1 = some .finished := by decide +kernel
  rw [reply_stop, hfinished] at hfailed
  cases hfailed

end Session

end DevMachine

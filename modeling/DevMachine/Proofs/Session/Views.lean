import DevMachine.Proofs.Channel.Routing
import DevMachine.Proofs.Session.Looks

/-!
# What a task has to do with a session

A task sees only its own mailbox, its own sink, whether its subscription still
owns a channel, and the clock.  In a sound session no two tasks share a
subscription or a sink, so the turn of one task is not noticed by any other,
and a whole round gives each task one look at most.
-/

namespace DevMachine

open Channel (Bus Item Mailbox)
open Logs (Ending Message Reassembly Sink Stream Turn)

namespace Session

theorem wellFormed_busAfter {b : Bus} (hb : b.WellFormed) (t : Task) (turn : Turn) :
    (busAfter b t turn).WellFormed := by
  unfold busAfter
  split
  · exact hb.updateMailbox _ fun _ => rfl
  · split
    · exact (hb.unsubscribe _).updateMailbox _ fun _ => rfl
    · exact hb.updateMailbox _ fun _ => rfl

theorem length_mailboxes_busAfter (b : Bus) (t : Task) (turn : Turn) :
    (busAfter b t turn).mailboxes.length = b.mailboxes.length := by
  unfold busAfter
  split
  · simp [Bus.updateMailbox]
  · split <;> simp [Bus.drop, Bus.updateMailbox, Bus.mailboxes_unsubscribe]

/-- The mailbox that a turn leaves behind. -/
def boxAfter (box : Mailbox) (turn : Turn) : Mailbox :=
  match turn.ending with
  | none => { box with items := [] }
  | some _ => { box with items := [], dropped := true }

theorem mailbox_busAfter_self (b : Bus) (t : Task) (turn : Turn) {box : Mailbox}
    (hbox : b.mailboxes[t.subscription]? = some box) :
    (busAfter b t turn).mailboxes[t.subscription]? = some (boxAfter box turn) := by
  unfold busAfter boxAfter
  cases turn.ending with
  | none => rw [Bus.mailbox_updateMailbox_self, hbox, Option.map_some]
  | some ending =>
      simp only [Bus.drop]
      rw [Bus.mailbox_updateMailbox_self]
      split <;> simp [Bus.mailboxes_unsubscribe, hbox]

theorem mailbox_busAfter_ne (b : Bus) (t : Task) (turn : Turn) {id : Nat}
    (hid : t.subscription ≠ id) : (busAfter b t turn).mailboxes[id]? = b.mailboxes[id]? := by
  unfold busAfter
  cases turn.ending with
  | none => exact Bus.mailbox_updateMailbox_ne b hid _
  | some ending =>
      simp only [Bus.drop]
      rw [Bus.mailbox_updateMailbox_ne _ hid]
      split <;> simp [Bus.mailboxes_unsubscribe]

theorem owns_busAfter_self {b : Bus} (hb : b.WellFormed) (t : Task) (turn : Turn) {box : Mailbox}
    (hbox : b.mailboxes[t.subscription]? = some box) :
    (busAfter b t turn).owns t.subscription =
      (b.owns t.subscription && !(turn.ending.isSome && turn.releases)) := by
  have hupdate (b : Bus) (f : Mailbox → Mailbox) :
      (b.updateMailbox t.subscription f).owns t.subscription = b.owns t.subscription := rfl
  unfold busAfter
  cases turn.ending with
  | none => simp [hupdate]
  | some ending =>
      cases turn.releases with
      | true => simp [Bus.drop, hupdate, Bus.owns_unsubscribe_self hb hbox]
      | false => simp [Bus.drop, hupdate]

theorem owns_busAfter_ne {b : Bus} (hb : b.WellFormed) (t : Task) (turn : Turn) {id : Nat}
    (hid : t.subscription ≠ id) {box : Mailbox} (hbox : b.mailboxes[id]? = some box) :
    (busAfter b t turn).owns id = b.owns id := by
  have hupdate (b : Bus) (f : Mailbox → Mailbox) :
      (b.updateMailbox t.subscription f).owns id = b.owns id := rfl
  unfold busAfter
  cases turn.ending with
  | none => exact hupdate b _
  | some ending =>
      cases turn.releases with
      | true => simp [Bus.drop, hupdate, Bus.owns_unsubscribe_ne hb hbox hid]
      | false => simp [Bus.drop, hupdate]

/-- What concerns one task: itself, the mailbox it reads, whether its
subscription owns a channel, the sink it writes to, and the time. -/
structure View where
  task : Task
  box : Mailbox
  owned : Bool
  sink : Sink
  now : Nat

structure Shows (s : Session) (i : Nat) (v : View) : Prop where
  task : s.tasks[i]? = some v.task
  box : s.bus.mailboxes[v.task.subscription]? = some v.box
  owned : s.bus.owns v.task.subscription = v.owned
  sink : s.sinks[v.task.sink]? = some v.sink
  now : s.clock = v.now

namespace View

def look (v : View) : Look where
  now := v.now
  found := v.box.items
  asked := v.task.signal
  sourceEnded := !v.owned

def lines (v : View) : List String := (lookTurn v.task.stream v.look).printed.map (·.text)

/-- The turn, once the sink had its say. -/
def turn (v : View) : Turn :=
  if v.sink.breaksWithin v.lines then broken (lookTurn v.task.stream v.look)
  else lookTurn v.task.stream v.look

def poll (v : View) : View :=
  if v.task.ending.isSome then v
  else
    { task := { v.task with stream := v.turn.stream, ending := v.turn.ending }
      box := boxAfter v.box v.turn
      owned := v.owned && !(v.turn.ending.isSome && v.turn.releases)
      sink := v.sink.write v.lines
      now := v.now }

/-- Nothing has happened that a task has not taken in. -/
structure Calm (v : View) : Prop where
  unasked : v.task.signal = none
  read : v.box.items = []
  owned : v.owned = true

structure Idle (v : View) : Prop extends Calm v where
  waits : v.task.stream.isDue v.now = false

end View

/-- No two tasks share a subscription or a sink, and all of these exist. -/
structure Sound (s : Session) : Prop where
  bus : s.bus.WellFormed
  subscriptions : (s.tasks.map Task.subscription).Nodup
  sinks : (s.tasks.map Task.sink).Nodup
  subscribed : ∀ t ∈ s.tasks, t.subscription < s.bus.mailboxes.length
  attached : ∀ t ∈ s.tasks, t.sink < s.sinks.length

theorem sound_initial : Sound {} where
  bus := Bus.wellFormed_initial 0
  subscriptions := List.nodup_nil
  sinks := List.nodup_nil
  subscribed := by simp
  attached := by simp

variable {s : Session} {i j : Nat} {v : View}

theorem Sound.shows (hs : s.Sound) {t : Task} (ht : s.tasks[i]? = some t) :
    ∃ v, s.Shows i v ∧ v.task = t := by
  have hmem := List.mem_of_getElem? ht
  have hbox := List.getElem?_eq_getElem (hs.subscribed t hmem)
  have hsink := List.getElem?_eq_getElem (hs.attached t hmem)
  exact ⟨⟨t, _, s.bus.owns t.subscription, _, s.clock⟩, ⟨ht, hbox, rfl, hsink, rfl⟩, rfl⟩

theorem Sound.of_le {s' : Session} (hs : s.Sound) (hbus : s'.bus.WellFormed)
    (hsubscriptions : s'.tasks.map Task.subscription = s.tasks.map Task.subscription)
    (hsinks : s'.tasks.map Task.sink = s.tasks.map Task.sink)
    (hmailboxes : s.bus.mailboxes.length ≤ s'.bus.mailboxes.length)
    (houtputs : s.sinks.length ≤ s'.sinks.length) : s'.Sound where
  bus := hbus
  subscriptions := by
    rw [hsubscriptions]
    exact hs.subscriptions
  sinks := by
    rw [hsinks]
    exact hs.sinks
  subscribed := by
    intro t ht
    have hmem : t.subscription ∈ s.tasks.map Task.subscription := by
      rw [← hsubscriptions]
      exact List.mem_map_of_mem ht
    obtain ⟨u, hu, heq⟩ := List.mem_map.mp hmem
    rw [← heq]
    exact Nat.lt_of_lt_of_le (hs.subscribed u hu) hmailboxes
  attached := by
    intro t ht
    have hmem : t.sink ∈ s.tasks.map Task.sink := by
      rw [← hsinks]
      exact List.mem_map_of_mem ht
    obtain ⟨u, hu, heq⟩ := List.mem_map.mp hmem
    rw [← heq]
    exact Nat.lt_of_lt_of_le (hs.attached u hu) houtputs

theorem ne_of_nodup_map {f : Task → Nat} (hnodup : (s.tasks.map f).Nodup) {t u : Task}
    (ht : s.tasks[i]? = some t) (hu : s.tasks[j]? = some u) (hij : j ≠ i) : f u ≠ f t := by
  intro heq
  have ht' : (s.tasks.map f)[i]? = some (f t) := by simp [ht]
  have hu' : (s.tasks.map f)[j]? = some (f t) := by simp [hu, heq]
  have hj := (List.getElem?_eq_some_iff.mp hu').1
  exact hij ((List.getElem?_inj hj hnodup).mp (hu'.trans ht'.symm))

/-! ## One turn -/

theorem View.poll_of_ended (hended : v.task.ending.isSome) : v.poll = v := if_pos hended

theorem View.poll_of_live (hlive : v.task.ending = none) :
    v.poll =
      { task := { v.task with stream := v.turn.stream, ending := v.turn.ending }
        box := boxAfter v.box v.turn
        owned := v.owned && !(v.turn.ending.isSome && v.turn.releases)
        sink := v.sink.write v.lines
        now := v.now } := if_neg (by simp [hlive])

theorem View.turn_of_unbroken (hunbroken : v.sink.breaksWithin v.lines = false) :
    v.turn = lookTurn v.task.stream v.look := by
  rw [View.turn, hunbroken]
  rfl

theorem Shows.turn_eq (hv : s.Shows i v) :
    v.task.turn s.clock s.bus = lookTurn v.task.stream v.look := by
  unfold Task.turn lookTurn View.look
  rw [hv.box, hv.now, hv.owned]
  rfl

theorem Shows.poll_eq (hv : s.Shows i v) (hlive : v.task.ending = none) :
    s.poll i =
      { (s.write v.task.sink v.lines).updateTask i fun t =>
          { t with stream := v.turn.stream, ending := v.turn.ending } with
        bus := busAfter s.bus v.task v.turn } := by
  unfold poll
  simp only [hv.task, hlive, hv.turn_eq, hv.sink, Option.isSome_none, Bool.false_eq_true, if_false,
    Option.map_some, Option.getD_some]
  rfl

theorem Shows.poll_of_ended (hv : s.Shows i v) (hended : v.task.ending.isSome) :
    s.poll i = s := by
  unfold poll
  simp only [hv.task, hended, if_true]

theorem poll_of_none (hi : s.tasks[i]? = none) : s.poll i = s := by
  unfold poll
  rw [hi]

theorem Shows.poll_self (hs : s.Sound) (hv : s.Shows i v) : (s.poll i).Shows i v.poll := by
  cases hending : v.task.ending with
  | some ending =>
      have hended : v.task.ending.isSome := by simp [hending]
      rw [hv.poll_of_ended hended, View.poll_of_ended hended]
      exact hv
  | none =>
      rw [hv.poll_eq hending, View.poll_of_live hending]
      constructor
      · simp [updateTask, write, hv.task]
      · exact mailbox_busAfter_self s.bus v.task v.turn hv.box
      · change (busAfter s.bus v.task v.turn).owns v.task.subscription = _
        rw [owns_busAfter_self hs.bus v.task v.turn hv.box, hv.owned]
      · simp [updateTask, write, hv.sink]
      · exact hv.now

theorem Shows.poll_ne (hs : s.Sound) (hv : s.Shows i v) (hij : j ≠ i) :
    (s.poll j).Shows i v := by
  cases htask : s.tasks[j]? with
  | none =>
      rw [poll_of_none htask]
      exact hv
  | some u =>
      obtain ⟨w, hw, rfl⟩ := hs.shows htask
      cases hending : w.task.ending with
      | some ending =>
          rw [hw.poll_of_ended (by simp [hending])]
          exact hv
      | none =>
          have hsubscription := ne_of_nodup_map hs.subscriptions hv.task hw.task hij
          have hsink := ne_of_nodup_map hs.sinks hv.task hw.task hij
          rw [hw.poll_eq hending]
          constructor
          · simp [updateTask, write, hij, hv.task]
          · change (busAfter s.bus w.task w.turn).mailboxes[v.task.subscription]? = _
            rw [mailbox_busAfter_ne s.bus w.task w.turn hsubscription, hv.box]
          · change (busAfter s.bus w.task w.turn).owns v.task.subscription = _
            rw [owns_busAfter_ne hs.bus w.task w.turn hsubscription hv.box, hv.owned]
          · simp [updateTask, write, hsink, hv.sink]
          · exact hv.now

theorem map_updateTask (s : Session) (i : Nat) {f : Task → Task} {g : Task → Nat}
    (hf : ∀ t, g (f t) = g t) : (s.updateTask i f).tasks.map g = s.tasks.map g := by
  apply List.ext_getElem?
  intro k
  by_cases hk : i = k
  · subst hk
    cases htask : s.tasks[i]? <;> simp [updateTask, htask, hf]
  · simp [updateTask, hk]

theorem map_poll (s : Session) (i : Nat) {g : Task → Nat}
    (hg : ∀ (t : Task) (stream : Stream) (ending : Option Ending),
      g { t with stream, ending } = g t) :
    (s.poll i).tasks.map g = s.tasks.map g := by
  unfold poll
  split
  · split
    · rfl
    · exact map_updateTask (s.write _ _) i fun t => hg t _ _
  · rfl

theorem length_sinks_poll (s : Session) (i : Nat) : (s.poll i).sinks.length = s.sinks.length := by
  unfold poll
  split
  · split
    · rfl
    · exact List.length_modify _ _ _
  · rfl

theorem wellFormed_bus_poll (hb : s.bus.WellFormed) (i : Nat) : (s.poll i).bus.WellFormed := by
  unfold poll
  split
  · split
    · exact hb
    · exact wellFormed_busAfter hb _ _
  · exact hb

theorem length_mailboxes_poll (s : Session) (i : Nat) :
    (s.poll i).bus.mailboxes.length = s.bus.mailboxes.length := by
  unfold poll
  split
  · split
    · rfl
    · exact length_mailboxes_busAfter _ _ _
  · rfl

theorem Sound.poll (hs : s.Sound) (i : Nat) : (s.poll i).Sound :=
  hs.of_le (wellFormed_bus_poll hs.bus i) (map_poll s i fun _ _ _ => rfl)
    (map_poll s i fun _ _ _ => rfl) (Nat.le_of_eq (length_mailboxes_poll s i).symm)
    (Nat.le_of_eq (length_sinks_poll s i).symm)

/-! ## A round -/

theorem View.turn_of_idle (hidle : v.Idle) :
    v.lines = [] ∧ v.turn = { stream := v.task.stream } := by
  have hlive : v.look.ending? = none := by
    simp [Look.ending?, look, hidle.unasked, hidle.read, hidle.owned, Logs.failure?]
  have hmessages : v.look.messages = [] := by
    simp [Look.messages, look, hidle.unasked, hidle.read, Logs.messages, Logs.bodies]
  have hdeadline : v.look.deadline v.task.stream.timeout v.task.stream.deadline =
      v.task.stream.deadline := by simp [Look.deadline, hmessages]
  have hexpires : v.look.expires v.task.stream.timeout v.task.stream.deadline = false := by
    have hwaits := hidle.waits
    rw [Stream.isDue_eq] at hwaits
    rw [Look.expires, hdeadline]
    exact hwaits
  have hoperations :
      v.look.operations v.task.stream.timeout v.task.stream.deadline = [] := by
    simp [Look.operations, Look.flushes, hlive, hexpires, hmessages]
  have hlater : v.look.later v.task.stream.timeout v.task.stream.deadline =
      v.task.stream.deadline := by simp [Look.later, hexpires, hdeadline]
  have hturn : lookTurn v.task.stream v.look = { stream := v.task.stream } := by
    rw [lookTurn_of_live _ hlive, hoperations, hlater]
    rfl
  have hlines : v.lines = [] := by simp [lines, hturn]
  refine ⟨hlines, ?_⟩
  rw [View.turn_of_unbroken (by simp [hlines, Sink.breaksWithin]), hturn]

theorem write_nil (k : Sink) : k.write [] = k := by
  unfold Sink.write
  split <;> simp

theorem Task.unended {t : Task} (hlive : t.ending = none) : { t with ending := none } = t := by
  rw [← hlive]

theorem unread {box : Mailbox} (hread : box.items = []) : { box with items := [] } = box := by
  rw [← hread]

theorem View.poll_of_idle (hidle : v.Idle) : v.poll = v := by
  cases hending : v.task.ending with
  | some ending => exact View.poll_of_ended (by simp [hending])
  | none =>
      obtain ⟨hlines, hturn⟩ := View.turn_of_idle hidle
      have hbox : boxAfter v.box { stream := v.task.stream } = v.box := unread hidle.read
      rw [View.poll_of_live hending, hturn, hlines, hbox, write_nil]
      simp [Task.unended hending]

theorem modify_of_fixed {α : Type} {l : List α} {k : Nat} {x : α} {f : α → α}
    (hx : l[k]? = some x) (hf : f x = x) : l.modify k f = l := by
  apply List.ext_getElem?
  intro j
  by_cases hj : k = j
  · subst hj
    simp [hx, hf]
  · simp [hj]

theorem Shows.poll_of_idle (hv : s.Shows i v) (hidle : v.Idle) : s.poll i = s := by
  cases hending : v.task.ending with
  | some ending => exact hv.poll_of_ended (by simp [hending])
  | none =>
      obtain ⟨hlines, hturn⟩ := View.turn_of_idle hidle
      have hsinks : s.sinks.modify v.task.sink (·.write []) = s.sinks :=
        modify_of_fixed hv.sink (write_nil v.sink)
      have htasks : s.tasks.modify i (fun t => { t with stream := v.task.stream, ending := none }) =
          s.tasks := modify_of_fixed hv.task (Task.unended hending)
      have hmailboxes : s.bus.mailboxes.modify v.task.subscription (fun box =>
          { box with items := [] }) = s.bus.mailboxes := modify_of_fixed hv.box (unread hidle.read)
      rw [hv.poll_eq hending, hlines, hturn]
      simp only [write, updateTask, busAfter, Bus.updateMailbox, hsinks, htasks, hmailboxes]

/-- A turn that does not end a task leaves it with nothing to do. -/
theorem View.idle_poll (hlive : v.poll.task.ending = none) : v.poll.Idle := by
  have hending : v.task.ending = none := by
    cases hending : v.task.ending with
    | none => rfl
    | some ending =>
        rw [View.poll_of_ended (by simp [hending]), hending] at hlive
        exact hlive
  rw [View.poll_of_live hending] at hlive ⊢
  have hturn : v.turn = lookTurn v.task.stream v.look := by
    unfold View.turn at hlive ⊢
    split
    next hbreaks => simp [hbreaks, broken] at hlive
    next => rfl
  have hlook : v.look.ending? = none := by
    rw [← lookTurn_ending v.task.stream, ← hturn]
    exact hlive
  obtain ⟨hasked, -, hsource⟩ := Look.eq_of_live hlook
  rw [hturn, lookTurn_of_live _ hlook]
  have howned : v.owned = true := by simpa [look] using hsource
  refine ⟨⟨hasked, rfl, by simp [howned]⟩, ?_⟩
  rw [Stream.isDue_eq]
  exact Look.later_any _ _ v.look

theorem View.poll_poll (v : View) : v.poll.poll = v.poll := by
  cases hending : v.poll.task.ending with
  | some ending => exact View.poll_of_ended (by simp [hending])
  | none => exact View.poll_of_idle (View.idle_poll hending)

theorem Sound.polls (hs : s.Sound) (order : List Nat) : (order.foldl Session.poll s).Sound := by
  induction order generalizing s with
  | nil => exact hs
  | cons j order ih => exact ih (hs.poll j)

/-- In a round of turns only the first one of a task matters. -/
theorem Shows.polls (hs : s.Sound) (hv : s.Shows i v) (order : List Nat) :
    (order.foldl Session.poll s).Shows i (if i ∈ order then v.poll else v) := by
  induction order generalizing s v with
  | nil => exact hv
  | cons j order ih =>
      rw [List.foldl_cons]
      by_cases hij : j = i
      · subst hij
        have hrest := ih (hs.poll j) (hv.poll_self hs)
        rw [View.poll_poll, ite_self] at hrest
        simpa using hrest
      · have hrest := ih (hs.poll j) (hv.poll_ne hs hij)
        simpa [Ne.symm hij] using hrest

theorem mem_insertDue (s : Session) (i j : Nat) (order : List Nat) :
    j ∈ s.insertDue i order ↔ j = i ∨ j ∈ order := by
  induction order with
  | nil => simp [insertDue]
  | cons k order ih =>
      unfold insertDue
      split
      · simp
      · rw [List.mem_cons, ih, List.mem_cons]
        tauto

theorem mem_due_iff (s : Session) (i : Nat) :
    i ∈ s.due ↔ ∃ t, s.tasks[i]? = some t ∧ t.isDue s.clock = true := by
  have hfoldr (l : List Nat) : i ∈ l.foldr s.insertDue [] ↔ i ∈ l := by
    induction l with
    | nil => simp
    | cons k l ih => rw [List.foldr_cons, mem_insertDue, ih, List.mem_cons]
  unfold due
  rw [hfoldr, List.mem_filter, List.mem_range]
  constructor
  · rintro ⟨-, hdue⟩
    cases htask : s.tasks[i]? with
    | none => simp [htask] at hdue
    | some t => exact ⟨t, rfl, by simpa [htask] using hdue⟩
  · rintro ⟨t, htask, hdue⟩
    exact ⟨(List.getElem?_eq_some_iff.mp htask).1, by simp [htask, hdue]⟩

/-- A task that has something to take in is ready. -/
def Alert (s : Session) (i : Nat) (v : View) : Prop :=
  v.task.ending = none → i ∉ s.ready → v.Calm

theorem Sound.unready (hs : s.Sound) : Sound { s with ready := [] } :=
  ⟨hs.bus, hs.subscriptions, hs.sinks, hs.subscribed, hs.attached⟩

theorem Sound.settle (hs : s.Sound) : s.settle.Sound := hs.unready.polls (s.ready ++ s.due)

theorem Shows.settle (hs : s.Sound) (hv : s.Shows i v) (halert : s.Alert i v) :
    s.settle.Shows i v.poll ∧ s.settle.Alert i v.poll := by
  have hview : Shows { s with ready := [] } i v :=
    ⟨hv.task, hv.box, hv.owned, hv.sink, hv.now⟩
  have hshows := hview.polls hs.unready (s.ready ++ s.due)
  have hlook : (if i ∈ s.ready ++ s.due then v.poll else v) = v.poll := by
    split
    next => rfl
    next hnot =>
      rw [List.mem_append, not_or, mem_due_iff] at hnot
      cases hending : v.task.ending with
      | some ending => exact (View.poll_of_ended (by simp [hending])).symm
      | none =>
          have hwaits : v.task.stream.isDue v.now = false := by
            rw [Bool.eq_false_iff, ← hv.now]
            intro hdue
            exact hnot.2 ⟨v.task, hv.task, by simp [Task.isDue, hending, hdue]⟩
          exact (View.poll_of_idle ⟨halert hending hnot.1, hwaits⟩).symm
  rw [hlook] at hshows
  exact ⟨hshows, fun hlive _ => (View.idle_poll hlive).toCalm⟩

end Session

end DevMachine

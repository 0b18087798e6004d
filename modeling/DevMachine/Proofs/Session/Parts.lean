import DevMachine.Proofs.Channel.Parts
import DevMachine.Proofs.Session.ManagedCourse

/-!
# Part of a session

The streams and sinks of some channels make up a part of a session, together
with the part of the bus and the whole clock.  Streams get their turns in the part in
the same order, so a round of turns in the part is the part of a round.
-/

namespace DevMachine

open Channel (Bus getElem?_keep getElem?_of_isPrefix keep keep_append keep_modify
  keep_modify_of_leaves length_keep map_place_filter_range partOfTable place place_append
  place_inj place_length place_of_isPrefix stays stays_append stays_eq)
open Logs (Turn)

namespace Session

/-- The channels of the streams. -/
def streams (s : Session) : List String :=
  (s.tasks.map Task.subscription).map fun id => (s.bus.subscribed[id]?).getD ""

def Task.inPart (p : String → Bool) (subscribed outputs : List String) (t : Task) : Task :=
  { t with subscription := place p subscribed t.subscription, sink := place p outputs t.sink }

/-- The streams, sinks and subscriptions of some channels. -/
def part (p : String → Bool) (outputs : List String) (s : Session) : Session where
  bus := s.bus.part p
  clock := s.clock
  tasks := (keep p s.streams s.tasks).map (Task.inPart p s.bus.subscribed outputs)
  sinks := keep p outputs s.sinks
  ready := (s.ready.filter (stays p s.streams)).map (place p s.streams)
  managed := partOfTable p (place p s.streams) s.managed

/-- Each sink is charted, a stream writes to a sink of its own channel, and the
manager lists a stream with its channel. -/
structure Charted (outputs : List String) (s : Session) : Prop where
  length : s.sinks.length = outputs.length
  attached : (s.tasks.map Task.sink).map (fun k => outputs[k]?) = s.streams.map some
  listed : ∀ entry ∈ s.managed, s.streams[entry.2]? = some entry.1

variable {p : String → Bool} {outputs : List String} {s s' : Session} {i : Nat} {t : Task}
  {c : String} {b : Bus} {v : View}

theorem length_streams (s : Session) : s.tasks.length = s.streams.length := by simp [streams]

theorem streams_congr (htasks : s'.tasks.map Task.subscription = s.tasks.map Task.subscription)
    (hbus : s'.bus.subscribed = s.bus.subscribed) : s'.streams = s.streams := by
  rw [streams, htasks, hbus, streams]

theorem Charted.of_same (h : s.Charted outputs) (hsinks : s'.sinks.length = s.sinks.length)
    (htasks : s'.tasks.map Task.sink = s.tasks.map Task.sink) (hstreams : s'.streams = s.streams)
    (hmanaged : s'.managed ⊆ s.managed) : s'.Charted outputs where
  length := hsinks.trans h.length
  attached := by rw [htasks, hstreams, h.attached]
  listed := fun entry hentry => by rw [hstreams, h.listed entry (hmanaged hentry)]

theorem Sound.lt_subscribed (hs : s.Sound) (ht : t ∈ s.tasks) :
    t.subscription < s.bus.subscribed.length := by
  rw [← Bus.length_subscribed]
  exact hs.subscribed t ht

theorem Charted.task (h : s.Charted outputs) (hs : s.Sound) (ht : s.tasks[i]? = some t) :
    ∃ c, s.streams[i]? = some c ∧ s.bus.subscribed[t.subscription]? = some c ∧
      outputs[t.sink]? = some c := by
  have hlt := hs.lt_subscribed (List.mem_of_getElem? ht)
  have hsubscribed := List.getElem?_eq_getElem hlt
  have hstream : s.streams[i]? = some s.bus.subscribed[t.subscription] := by
    simp [streams, ht, hsubscribed]
  have hattached := congrArg (fun l => l[i]?) h.attached
  simp only [List.getElem?_map, ht, hstream, Option.map_some, Option.some.injEq] at hattached
  exact ⟨_, hstream, hsubscribed, hattached⟩

theorem task_part (hi : stays p s.streams i = true) :
    (s.part p outputs).tasks[place p s.streams i]? =
      s.tasks[i]?.map (Task.inPart p s.bus.subscribed outputs) := by
  change ((keep p s.streams s.tasks).map _)[place p s.streams i]? = _
  rw [List.getElem?_map, getElem?_keep s.length_streams hi]

theorem length_tasks_part (s : Session) :
    (s.part p outputs).tasks.length = s.streams.countP p := by
  change ((keep p s.streams s.tasks).map _).length = _
  rw [List.length_map, length_keep s.length_streams]

theorem ending?_part (hi : stays p s.streams i = true) :
    (s.part p outputs).ending? (place p s.streams i) = s.ending? i := by
  unfold ending?
  rw [task_part hi]
  cases s.tasks[i]? <;> rfl

theorem managed?_part (s : Session) (channel : String) :
    (s.part p outputs).managed? channel =
      if p channel then (s.managed? channel).map (place p s.streams) else none :=
  Channel.find?_partOfTable

theorem Charted.shows_part (h : s.Charted outputs) (hs : s.Sound) (hv : s.Shows i v)
    (hi : stays p s.streams i = true) :
    (s.part p outputs).Shows (place p s.streams i)
      { v with task := v.task.inPart p s.bus.subscribed outputs } := by
  obtain ⟨c, hstream, hsubscribed, hsink⟩ := h.task hs hv.task
  have hp : p c = true := (stays_eq hstream).symm.trans hi
  have hsubscription := (stays_eq hsubscribed).trans hp
  constructor
  · rw [task_part hi, hv.task]
    rfl
  · exact (Bus.mailbox_part hsubscription).trans hv.box
  · exact (Bus.owns_part hs.bus hsubscription).trans hv.owned
  · exact (getElem?_keep h.length ((stays_eq hsink).trans hp)).trans hv.sink
  · exact hv.now

theorem part_wake (s : Session) (woken : List Nat) :
    (s.wake woken).part p outputs =
      (s.part p outputs).wake ((woken.filter (stays p s.streams)).map (place p s.streams)) := by
  have hstreams : (s.wake woken).streams = s.streams := rfl
  have hready : (((woken.filter fun i => !s.ready.contains i).filter (stays p s.streams)).map
      (place p s.streams)) = ((woken.filter (stays p s.streams)).map (place p s.streams)).filter
        fun i => !(s.part p outputs).ready.contains i := by
    rw [List.filter_map, List.filter_filter, List.filter_filter]
    congr 1
    apply List.filter_congr
    intro i _
    cases hi : stays p s.streams i with
    | false => simp
    | true =>
        have hcontains : (s.part p outputs).ready.contains (place p s.streams i) =
            s.ready.contains i := by
          rw [Bool.eq_iff_iff, List.contains_iff_mem, List.contains_iff_mem]
          constructor
          · intro hmem
            obtain ⟨j, hj, heq⟩ := List.mem_map.mp hmem
            obtain ⟨hready, hstays⟩ := List.mem_filter.mp hj
            exact (place_inj hstays hi).mp heq ▸ hready
          · exact fun hmem => List.mem_map_of_mem (List.mem_filter.mpr ⟨hmem, hi⟩)
        simp only [Function.comp_def, hcontains, Bool.and_true, Bool.true_and]
  unfold part
  rw [hstreams]
  simp only [wake, List.filter_append, List.map_append, hready]
  rfl

theorem wake_nil (s : Session) : s.wake [] = s := by simp [wake]

theorem part_wake_single (s : Session) (i : Nat) :
    (s.wake [i]).part p outputs =
      if stays p s.streams i then (s.part p outputs).wake [place p s.streams i]
      else s.part p outputs := by
  rw [part_wake, List.filter_cons]
  split
  · rfl
  · exact wake_nil _

theorem streams_useBus (hs : s.Sound) (hgrown : s.bus.subscribed <+: b.subscribed) :
    (s.useBus b).streams = s.streams := by
  change (s.tasks.map Task.subscription).map _ = (s.tasks.map Task.subscription).map _
  rw [List.map_map, List.map_map]
  apply List.map_congr_left
  intro t ht
  simp only [Function.comp_def]
  exact congrArg (·.getD "") (getElem?_of_isPrefix hgrown (hs.lt_subscribed ht))

theorem Charted.noticed_part (h : s.Charted outputs) (hs : s.Sound) (hb : b.WellFormed)
    (hgrown : s.bus.subscribed <+: b.subscribed) :
    (s.part p outputs).noticed (b.part p) =
      ((s.noticed b).filter (stays p s.streams)).map (place p s.streams) := by
  unfold noticed
  rw [length_tasks_part, length_streams]
  symm
  apply map_place_filter_range
  intro i hlt hi
  rw [← length_streams] at hlt
  have ht := List.getElem?_eq_getElem hlt
  obtain ⟨c, hstream, hold, -⟩ := h.task hs ht
  have hp : p c = true := (stays_eq hstream).symm.trans hi
  have hlt' := hs.lt_subscribed (List.mem_of_getElem? ht)
  have hnew := (getElem?_of_isPrefix hgrown hlt').trans hold
  have hstays := (stays_eq hold).trans hp
  have hstays' := (stays_eq hnew).trans hp
  have hplace := place_of_isPrefix (p := p) hgrown (Nat.le_of_lt hlt')
  rw [task_part hi, ht]
  simp only [Option.map_some, Task.inPart]
  have hbox : (s.part p outputs).bus.mailboxes[place p s.bus.subscribed s.tasks[i].subscription]? =
    s.bus.mailboxes[s.tasks[i].subscription]? := Bus.mailbox_part hstays
  have howns : (s.part p outputs).bus.owns (place p s.bus.subscribed s.tasks[i].subscription) =
    s.bus.owns s.tasks[i].subscription := Bus.owns_part hs.bus hstays
  rw [hbox, howns, ← hplace, Bus.mailbox_part hstays', Bus.owns_part hb hstays']

theorem Charted.part_useBus (h : s.Charted outputs) (hs : s.Sound) (hb : b.WellFormed)
    (hgrown : s.bus.subscribed <+: b.subscribed) :
    (s.useBus b).part p outputs = (s.part p outputs).useBus (b.part p) := by
  have hstreams := streams_useBus hs hgrown
  have htasks : (keep p s.streams s.tasks).map (Task.inPart p b.subscribed outputs) =
      (s.part p outputs).tasks := by
    apply List.map_congr_left
    intro t ht
    have hlt := hs.lt_subscribed (Channel.mem_of_mem_keep ht)
    simp only [Task.inPart, place_of_isPrefix hgrown (Nat.le_of_lt hlt)]
  have hwoken : (s.wake (s.noticed b)).part p outputs = _ := part_wake s (s.noticed b)
  rw [← h.noticed_part hs hb hgrown] at hwoken
  unfold useBus at hstreams ⊢
  rw [← hwoken]
  unfold part at htasks ⊢
  rw [hstreams]
  simp only [wake]
  rw [htasks]
  rfl

theorem useBus_self (s : Session) : s.useBus s.bus = s := by
  have hnobody : s.noticed s.bus = [] := by
    unfold noticed
    rw [List.filter_eq_nil_iff]
    intro i _
    cases s.tasks[i]? <;> simp
  rw [useBus, hnobody, wake_nil]

/-! ## Turns -/

theorem subscribed_busAfter (b : Bus) (t : Task) (turn : Turn) :
    (busAfter b t turn).subscribed = b.subscribed := by
  unfold busAfter
  split
  · exact Bus.subscribed_updateMailbox _ _ fun _ => rfl
  · rw [Bus.subscribed_drop]
    split
    · exact Bus.subscribed_unsubscribe b _
    · rfl

theorem part_busAfter (hb : b.WellFormed) (turn : Turn)
    (hid : stays p b.subscribed t.subscription = true) :
    (busAfter b t turn).part p = busAfter (b.part p) (t.inPart p b.subscribed outputs) turn := by
  unfold busAfter
  cases turn.ending with
  | none => exact Bus.part_updateMailbox (fun _ => rfl) hid
  | some ending =>
      cases turn.releases with
      | false => exact Bus.part_drop hid
      | true =>
          have hsame := Bus.subscribed_unsubscribe b t.subscription
          have hdropped := Bus.part_drop (hsame ▸ hid)
          rw [Bus.part_unsubscribe hb hid, hsame] at hdropped
          exact hdropped

theorem part_busAfter_of_leaves (turn : Turn)
    (hid : stays p b.subscribed t.subscription = false) :
    (busAfter b t turn).part p = b.part p := by
  unfold busAfter
  cases turn.ending with
  | none => exact Bus.part_updateMailbox_of_leaves (fun _ => rfl) hid
  | some ending =>
      cases turn.releases with
      | false => exact Bus.part_drop_of_leaves hid
      | true =>
          have hsame := Bus.subscribed_unsubscribe b t.subscription
          exact (Bus.part_drop_of_leaves (hsame ▸ hid)).trans (Bus.part_unsubscribe_of_leaves hid)

theorem map_modify_of_comm {α β : Type} {f : α → α} {f' : β → β} {g : α → β} {l : List α}
    {j : Nat} (h : ∀ x, g (f x) = f' (g x)) : (l.modify j f).map g = (l.map g).modify j f' := by
  apply List.ext_getElem?
  intro k
  by_cases hk : j = k
  · cases hx : l[k]? <;> simp [hk, hx, h]
  · simp [hk]

theorem subscribed_poll (s : Session) (i : Nat) :
    (s.poll i).bus.subscribed = s.bus.subscribed := by
  unfold poll
  split
  · split
    · rfl
    · exact subscribed_busAfter _ _ _
  · rfl

theorem streams_poll (s : Session) (i : Nat) : (s.poll i).streams = s.streams :=
  streams_congr (map_poll s i fun _ _ _ => rfl) (subscribed_poll s i)

theorem Charted.poll (h : s.Charted outputs) (i : Nat) : (s.poll i).Charted outputs :=
  h.of_same (length_sinks_poll s i) (map_poll s i fun _ _ _ => rfl) (streams_poll s i)
    (by rw [managed_poll]; exact List.Subset.refl _)

theorem Charted.part_poll (h : s.Charted outputs) (hs : s.Sound)
    (hi : stays p s.streams i = true) :
    (s.poll i).part p outputs = (s.part p outputs).poll (place p s.streams i) := by
  cases ht : s.tasks[i]? with
  | none => rw [poll_of_none ht, poll_of_none (by rw [task_part hi, ht]; rfl)]
  | some t =>
      obtain ⟨v, hv, rfl⟩ := hs.shows ht
      have hv' := h.shows_part hs hv hi
      cases hending : v.task.ending with
      | some ending =>
          have hended : v.task.ending.isSome := by simp [hending]
          rw [hv.poll_of_ended hended, hv'.poll_of_ended hended]
      | none =>
          obtain ⟨c, hstream, hsubscribed, hsink⟩ := h.task hs ht
          have hp : p c = true := (stays_eq hstream).symm.trans hi
          have hstreams := streams_poll s i
          have hbus : (busAfter s.bus v.task v.turn).part p =
              busAfter (s.bus.part p) (v.task.inPart p s.bus.subscribed outputs) v.turn :=
            part_busAfter hs.bus v.turn ((stays_eq hsubscribed).trans hp)
          rw [part, hstreams, subscribed_poll, hv'.poll_eq hending, hv.poll_eq hending, part]
          simp only [write, updateTask]
          congr 1
          · rw [keep_modify _ hi]
            exact map_modify_of_comm fun _ => rfl
          · exact keep_modify _ ((stays_eq hsink).trans hp)

theorem Charted.part_poll_of_leaves (h : s.Charted outputs) (hs : s.Sound)
    (hi : stays p s.streams i = false) : (s.poll i).part p outputs = s.part p outputs := by
  cases ht : s.tasks[i]? with
  | none => rw [poll_of_none ht]
  | some t =>
      obtain ⟨v, hv, rfl⟩ := hs.shows ht
      cases hending : v.task.ending with
      | some ending => rw [hv.poll_of_ended (by simp [hending])]
      | none =>
          obtain ⟨c, hstream, hsubscribed, hsink⟩ := h.task hs ht
          have hp : p c = false := (stays_eq hstream).symm.trans hi
          have hstreams := streams_poll s i
          have hbus := part_busAfter_of_leaves v.turn ((stays_eq hsubscribed).trans hp)
          rw [part, hstreams, subscribed_poll, hv.poll_eq hending, part]
          simp only [write, updateTask, keep_modify_of_leaves _ hi,
            keep_modify_of_leaves _ ((stays_eq hsink).trans hp)]
          congr 1

theorem Charted.part_polls (h : s.Charted outputs) (hs : s.Sound) (order : List Nat) :
    (order.foldl Session.poll s).part p outputs =
      ((order.filter (stays p s.streams)).map (place p s.streams)).foldl Session.poll
        (s.part p outputs) := by
  induction order generalizing s with
  | nil => rfl
  | cons i order ih =>
      rw [List.foldl_cons, ih (h.poll i) (hs.poll i), streams_poll]
      cases hi : stays p s.streams i with
      | true => rw [List.filter_cons_of_pos hi, List.map_cons, List.foldl_cons, h.part_poll hs hi]
      | false => rw [List.filter_cons_of_neg (by simp [hi]), h.part_poll_of_leaves hs hi]

theorem deadlineOf_part (hi : stays p s.streams i = true) :
    (s.part p outputs).deadlineOf (place p s.streams i) = s.deadlineOf i := by
  unfold deadlineOf
  rw [task_part hi]
  cases s.tasks[i]? <;> rfl

/-- Some tasks in the order of their deadlines. -/
def InOrder (s : Session) (order : List Nat) : Prop :=
  order.Pairwise fun i j => s.deadlineOf i ≤ s.deadlineOf j

theorem insertDue_cons (s : Session) (i j : Nat) (order : List Nat) :
    s.insertDue i (j :: order) =
      if s.deadlineOf i ≤ s.deadlineOf j then i :: j :: order else j :: s.insertDue i order := rfl

theorem InOrder.insertDue {order : List Nat} (h : s.InOrder order) (i : Nat) :
    s.InOrder (s.insertDue i order) := by
  induction order with
  | nil => exact List.pairwise_singleton _ _
  | cons j order ih =>
      obtain ⟨hfirst, hrest⟩ := List.pairwise_cons.mp h
      rw [insertDue_cons]
      split
      next hle =>
        refine List.pairwise_cons.mpr ⟨fun k hk => ?_, h⟩
        rcases List.mem_cons.mp hk with rfl | hk
        · exact hle
        · exact Nat.le_trans hle (hfirst k hk)
      next hlt =>
        refine List.pairwise_cons.mpr ⟨fun k hk => ?_, ih hrest⟩
        rcases (mem_insertDue s i k order).mp hk with rfl | hk
        · exact Nat.le_of_lt (Nat.lt_of_not_le hlt)
        · exact hfirst k hk

theorem insertDue_of_le {order : List Nat} (h : ∀ j ∈ order, s.deadlineOf i ≤ s.deadlineOf j) :
    s.insertDue i order = i :: order := by
  cases order with
  | nil => rfl
  | cons j order => exact if_pos (h j List.mem_cons_self)

theorem InOrder.filter_insertDue {order : List Nat} (h : s.InOrder order) (i : Nat)
    (q : Nat → Bool) :
    (s.insertDue i order).filter q =
      if q i then s.insertDue i (order.filter q) else order.filter q := by
  induction order with
  | nil => exact List.filter_cons
  | cons j order ih =>
      obtain ⟨hfirst, hrest⟩ := List.pairwise_cons.mp h
      rw [insertDue_cons]
      split
      next hle =>
        have hall : ∀ k ∈ (j :: order).filter q, s.deadlineOf i ≤ s.deadlineOf k := by
          intro k hk
          rcases List.mem_cons.mp (List.mem_filter.mp hk).1 with rfl | hk
          · exact hle
          · exact Nat.le_trans hle (hfirst k hk)
        rw [insertDue_of_le hall, List.filter_cons]
      next hlt =>
        rw [List.filter_cons, List.filter_cons, ih hrest]
        cases hj : q j <;> cases hi : q i <;> simp [insertDue_cons, hlt]

theorem map_insertDue {order : List Nat} {f : Nat → Nat}
    (hi : s'.deadlineOf (f i) = s.deadlineOf i)
    (horder : ∀ j ∈ order, s'.deadlineOf (f j) = s.deadlineOf j) :
    (s.insertDue i order).map f = s'.insertDue (f i) (order.map f) := by
  induction order with
  | nil => rfl
  | cons j order ih =>
      have hj := horder j List.mem_cons_self
      have hrest := ih fun k hk => horder k (List.mem_cons_of_mem j hk)
      rw [List.map_cons, insertDue_cons, insertDue_cons, hi, hj]
      split
      · rfl
      · rw [List.map_cons, hrest]

/-- Putting tasks in order and leaving some of them out can be exchanged. -/
theorem filter_inOrder (s : Session) (q : Nat → Bool) (l : List Nat) :
    (l.foldr s.insertDue []).filter q = (l.filter q).foldr s.insertDue [] := by
  have horder (l : List Nat) : s.InOrder (l.foldr s.insertDue []) := by
    induction l with
    | nil => exact List.Pairwise.nil
    | cons i l ih => exact ih.insertDue i
  induction l with
  | nil => rfl
  | cons i l ih =>
      rw [List.foldr_cons, (horder l).filter_insertDue, ih, List.filter_cons]
      split <;> rfl

theorem map_inOrder {f : Nat → Nat} {l : List Nat}
    (hl : ∀ i ∈ l, s'.deadlineOf (f i) = s.deadlineOf i) :
    (l.foldr s.insertDue []).map f = (l.map f).foldr s'.insertDue [] := by
  induction l with
  | nil => rfl
  | cons i l ih =>
      have hrest (j : Nat) (hj : j ∈ l) := hl j (List.mem_cons_of_mem i hj)
      have hmem (j : Nat) : j ∈ l.foldr s.insertDue [] → j ∈ l := by
        clear ih hrest hl
        induction l with
        | nil => exact id
        | cons k l ih =>
            rw [List.foldr_cons, mem_insertDue, List.mem_cons]
            exact Or.imp_right ih
      rw [List.foldr_cons, map_insertDue (hl i List.mem_cons_self) fun j hj => hrest j (hmem j hj),
        ih hrest]
      rfl

theorem due_part (s : Session) :
    (s.part p outputs).due = (s.due.filter (stays p s.streams)).map (place p s.streams) := by
  have hdeadlines : ∀ i ∈ ((List.range s.tasks.length).filter fun i =>
      ((s.tasks[i]?).map (·.isDue s.clock)).getD false).filter (stays p s.streams),
      (s.part p outputs).deadlineOf (place p s.streams i) = s.deadlineOf i :=
    fun i hi => deadlineOf_part (List.mem_filter.mp hi).2
  unfold due
  rw [filter_inOrder, map_inOrder hdeadlines, length_tasks_part, length_streams]
  congr 1
  symm
  apply map_place_filter_range
  intro i _ hi
  rw [task_part hi]
  cases s.tasks[i]? <;> rfl

/-! ## Rounds -/

theorem streams_settle (s : Session) : s.settle.streams = s.streams :=
  settle_induction (fun s' => s'.streams = s.streams) rfl fun s' i h => (streams_poll s' i).trans h

theorem Charted.settle (h : s.Charted outputs) : s.settle.Charted outputs :=
  settle_induction (Charted outputs) ⟨h.length, h.attached, h.listed⟩ fun _ i h => h.poll i

theorem Charted.part_settle (h : s.Charted outputs) (hs : s.Sound) :
    s.settle.part p outputs = (s.part p outputs).settle := by
  have hunready : Charted outputs { s with ready := [] } := ⟨h.length, h.attached, h.listed⟩
  unfold Session.settle
  rw [hunready.part_polls hs.unready, List.filter_append, List.map_append, due_part]
  rfl

theorem streams_signal (s : Session) (i : Nat) (x : Signal) : (s.signal i x).streams = s.streams :=
  streams_congr (map_updateTask s i fun _ => rfl) rfl

theorem Charted.signal (h : s.Charted outputs) (i : Nat) (x : Signal) :
    (s.signal i x).Charted outputs :=
  h.of_same rfl (map_updateTask s i fun _ => rfl) (streams_signal s i x) (List.Subset.refl _)

theorem part_signal (s : Session) (i : Nat) (x : Signal) :
    (s.signal i x).part p outputs =
      if stays p s.streams i then (s.part p outputs).signal (place p s.streams i) x
      else s.part p outputs := by
  have hstreams : (s.updateTask i fun t => { t with signal := some x }).streams = s.streams :=
    streams_signal s i x
  have hasked : (s.updateTask i fun t => { t with signal := some x }).part p outputs =
      if stays p s.streams i then
        (s.part p outputs).updateTask (place p s.streams i) fun t => { t with signal := some x }
      else s.part p outputs := by
    rw [part, hstreams]
    cases hi : stays p s.streams i with
    | true =>
        simp only [updateTask, keep_modify _ hi, if_true]
        congr 1
        exact map_modify_of_comm fun _ => rfl
    | false =>
        simp only [updateTask, keep_modify_of_leaves _ hi]
        rfl
  unfold Session.signal
  rw [part_wake_single, hasked, hstreams]
  split <;> rfl

theorem Charted.openSink (h : s.Charted outputs) (hs : s.Sound) (breaksOn : Option String)
    (channel : String) : (s.openSink breaksOn).2.Charted (outputs ++ [channel]) where
  length := by simp [Session.openSink, h.length]
  attached := by
    have hstreams : (s.openSink breaksOn).2.streams = s.streams := rfl
    rw [hstreams, ← h.attached]
    apply List.map_congr_left
    intro k hk
    obtain ⟨t, ht, rfl⟩ := List.mem_map.mp hk
    exact List.getElem?_append_left (h.length ▸ hs.attached t ht)
  listed := h.listed

theorem Charted.part_openSink (h : s.Charted outputs) (hs : s.Sound) (breaksOn : Option String)
    (channel : String) :
    (s.openSink breaksOn).2.part p (outputs ++ [channel]) =
      if p channel then ((s.part p outputs).openSink breaksOn).2 else s.part p outputs := by
  have htasks : (keep p s.streams s.tasks).map
      (Task.inPart p s.bus.subscribed (outputs ++ [channel])) = (s.part p outputs).tasks := by
    apply List.map_congr_left
    intro t ht
    have hlt := hs.attached t (Channel.mem_of_mem_keep ht)
    rw [h.length] at hlt
    simp only [Task.inPart, place_append (Nat.le_of_lt hlt)]
  have hstreams : (s.openSink breaksOn).2.streams = s.streams := rfl
  unfold part at htasks ⊢
  rw [hstreams]
  simp only [Session.openSink, keep_append h.length, htasks]
  cases hp : p channel <;> simp [keep, hp]

theorem Charted.length_sinks_part (h : s.Charted outputs) :
    (s.part p outputs).sinks.length = place p outputs s.sinks.length := by
  rw [h.length, place_length]
  exact length_keep h.length

theorem length_tasks_part_eq_place (s : Session) :
    (s.part p outputs).tasks.length = place p s.streams s.tasks.length := by
  rw [length_tasks_part, length_streams, place_length]

theorem streams_spawn {subscription : Nat} (hc : s.bus.subscribed[subscription]? = some c)
    (sink timeout : Nat) :
    (s.spawn subscription sink timeout).2.streams = s.streams ++ [c] := by
  simp [Session.spawn, addTask, Session.wake, streams, hc]

theorem Charted.spawn (h : s.Charted outputs) {subscription sink : Nat}
    (hc : s.bus.subscribed[subscription]? = some c) (hsink : outputs[sink]? = some c)
    (timeout : Nat) :
    (s.spawn subscription sink timeout).2.Charted outputs where
  length := h.length
  attached := by
    rw [streams_spawn hc sink timeout, List.map_append, ← h.attached]
    simp [Session.spawn, addTask, Session.wake, hsink]
  listed := by
    intro entry hentry
    have hold := h.listed entry hentry
    have hlt := (List.getElem?_eq_some_iff.mp hold).1
    rw [streams_spawn hc sink timeout, List.getElem?_append_left hlt, hold]

theorem Charted.part_spawn (h : s.Charted outputs) {subscription : Nat}
    (hc : s.bus.subscribed[subscription]? = some c)
    (hready : ∀ i ∈ s.ready, i < s.tasks.length) (sink timeout : Nat) :
    (s.spawn subscription sink timeout).2.part p outputs =
      if p c then ((s.part p outputs).spawn (place p s.bus.subscribed subscription)
        (place p outputs sink) timeout).2
      else s.part p outputs := by
  let added := s.addTask { subscription, sink, stream := { timeout } }
  have hstreams : added.streams = s.streams ++ [c] := streams_spawn hc sink timeout
  have hstays : stays p added.streams s.tasks.length = p c := by
    rw [hstreams, length_streams]
    exact stays_eq List.getElem?_concat_length
  -- the numbers that are there already stay as they are
  have holdReady : (added.ready.filter (stays p added.streams)).map (place p added.streams) =
      (s.part p outputs).ready := by
    rw [hstreams]
    have hfilter : s.ready.filter (stays p (s.streams ++ [c])) =
        s.ready.filter (stays p s.streams) :=
      List.filter_congr fun i hi => stays_append (s.length_streams ▸ hready i hi)
    change (s.ready.filter _).map _ = (s.ready.filter _).map _
    rw [hfilter]
    apply List.map_congr_left
    intro i hi
    have hlt := hready i (List.mem_filter.mp hi).1
    rw [length_streams] at hlt
    exact place_append (Nat.le_of_lt hlt)
  have holdManaged : partOfTable p (place p added.streams) s.managed =
      (s.part p outputs).managed := by
    rw [hstreams]
    apply Channel.partOfTable_congr
    intro entry hentry
    have hlt := (List.getElem?_eq_some_iff.mp (h.listed entry hentry)).1
    exact place_append (Nat.le_of_lt hlt)
  have hadded : added.part p outputs = if p c then (s.part p outputs).addTask
      { subscription := place p s.bus.subscribed subscription, sink := place p outputs sink,
        stream := { timeout } }
      else s.part p outputs := by
    rw [part, holdReady]
    change Session.mk _ _ _ _ _ (partOfTable p (place p added.streams) s.managed) = _
    rw [holdManaged, hstreams]
    change Session.mk _ _ ((keep p _ (s.tasks ++ _)).map _) _ _ _ = _
    rw [keep_append s.length_streams]
    cases hp : p c <;> simp [keep, hp, addTask, part, Task.inPart, added]
  have hnumber : place p added.streams s.tasks.length = (s.part p outputs).tasks.length := by
    rw [length_tasks_part_eq_place, hstreams, length_streams, place_append (Nat.le_refl _)]
  have hwoken : (added.wake [s.tasks.length]).part p outputs = _ := part_wake_single added _
  rw [hstays, hadded, hnumber] at hwoken
  refine hwoken.trans ?_
  split <;> rfl

end Session

end DevMachine

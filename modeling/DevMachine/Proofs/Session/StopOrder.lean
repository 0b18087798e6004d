import DevMachine.Proofs.Session.EarlyStops
import DevMachine.Proofs.Session.Listings

/-!
# The order in which the streams of a manager are stopped

When a session is at rest, to stop one stream means that this stream alone has a turn:
it writes what waits, and gives its channel up unless its sink breaks.  So all orders
lead to the same session, and only the frames to the endpoint tell them apart.
-/

namespace DevMachine

open Channel (Bus Frame)
open Logs (Ending Sink)

namespace Channel.Bus

/-- A bus after the owners of some channels have given them up. -/
def withdrawn (channels : List String) (b : Bus) : Bus :=
  { b with
    owners := b.owners.filter fun entry => entry.1 ∉ channels
    outbound := b.outbound ++ if b.isOpen then channels.map (.unsubscribe · b.stamp) else [] }

variable {b : Bus} {c : String} {channels : List String} {id : Nat}

theorem withdrawn_nil (b : Bus) : b.withdrawn [] = b := by simp [withdrawn]

theorem withdrawn_cons (b : Bus) (c : String) (channels : List String) :
    b.withdrawn (c :: channels) = (b.withdrawn [c]).withdrawn channels := by
  unfold withdrawn
  simp only [List.filter_filter]
  congr 1
  · cases b.isOpen <;> simp
  · apply List.filter_congr
    intro entry _
    by_cases hentry : entry.1 = c <;> simp [hentry]

theorem release_eq_withdrawn (howner : b.owner? c = some id) :
    b.release c id = b.withdrawn [c] := by
  obtain ⟨isOpen, outbound, owners, mailboxes, stamp⟩ := b
  unfold release withdrawn
  simp only [howner, if_true, send, forget]
  cases isOpen <;> simp

theorem only_all (b : Bus) : b.only (fun _ => true) = { b with mailboxes := [] } := by
  have hframes : b.outbound.filter (fun frame => frame.channel?.all fun _ => true) =
      b.outbound := by
    rw [List.filter_eq_self]
    intro frame _
    cases frame.channel? <;> rfl
  unfold only
  rw [hframes, List.filter_eq_self.mpr fun _ _ => rfl]

end Channel.Bus

namespace Session

variable {s s' r r' : Session} {i j : Nat} {v u : View} {c d : String} {order order' : List String}

/-- The lines that wait in a stream. -/
def Task.waiting (t : Task) : List String := t.stream.reassembly.pending.map (·.text)

/-- Whether the manager's stream of a channel goes on and can give the channel up when
it is stopped, as its sink takes all that waits. -/
def withdraws (s : Session) (channel : String) : Bool :=
  (s.managed? channel).any fun i =>
    (s.tasks[i]?).any fun t =>
      t.ending.isNone && !(s.sinks[t.sink]?).any (·.breaksWithin t.waiting)

theorem View.subscription_stopped (v : View) :
    v.stopped.task.subscription = v.task.subscription := by
  unfold View.stopped
  split
  · rfl
  · exact (v.asked .stop).subscription_poll

structure Resting (s : Session) : Prop extends Attentive s, Booked s where
  quiet : s.Quiescent

/-- A stream with nothing to read writes what waits when it is stopped. -/
theorem View.Idle.lines_asked_stop (hidle : v.Idle) : (v.asked .stop).lines = v.task.waiting := by
  simp [View.lines, lookTurn, View.look, View.asked, hidle.read, Logs.Stream.stopTurn,
    Logs.Stream.takeAll, Logs.Stream.flush, Logs.Reassembly.flush, Task.waiting]

theorem View.Idle.stopped (hidle : v.Idle) (hlive : v.task.ending = none) :
    v.stopped.sink = v.sink.write v.task.waiting ∧
      v.stopped.task.ending =
        some (if v.sink.breaksWithin v.task.waiting then .broken else .finished) := by
  have hasked : (v.asked .stop).task.ending = none := hlive
  rw [View.stopped_of_live hlive, View.sink_poll hasked, View.ending_asked_stop hlive,
    hidle.lines_asked_stop]
  exact ⟨rfl, rfl⟩

theorem View.stopped_stopped (v : View) : v.stopped.stopped = v.stopped := by
  cases hending : v.task.ending with
  | some ending =>
      have hended : v.task.ending.isSome := by simp [hending]
      rw [View.stopped_of_ended hended, View.stopped_of_ended hended]
  | none =>
      apply View.stopped_of_ended
      rw [View.stopped_of_live hending, View.ending_asked_stop hending]
      rfl

theorem Shows.stream (hv : s.Shows i v) : s.streams[i]? = some v.box.channel := by
  simp [streams, hv.task, Bus.getElem?_subscribed, hv.box]

theorem Shows.withdraws (hv : s.Shows i v) (hlisted : s.managed? c = some i) :
    s.withdraws c = (v.task.ending.isNone && !v.sink.breaksWithin v.task.waiting) := by
  simp [Session.withdraws, hlisted, hv.task, hv.sink]

theorem Shows.isStreaming (hv : s.Shows i v) (hlisted : s.managed? c = some i) :
    s.isStreaming c = v.task.ending.isNone := by
  simp [Session.isStreaming, hlisted, hv.ending?]

theorem quiescent_of_idle (hs : s.Sound)
    (hidle : ∀ j v, s.Shows j v → v.task.ending = none → v.Idle) : s.Quiescent := by
  intro j
  cases htask : s.tasks[j]? with
  | none => exact poll_of_none htask
  | some t =>
      obtain ⟨v, hv, -⟩ := hs.shows htask
      cases hending : v.task.ending with
      | some ending => exact hv.poll_of_ended (by simp [hending])
      | none => exact hv.poll_of_idle (hidle j v hv hending)

namespace Resting

theorem idle (h : s.Resting) (hv : s.Shows i v) (hlive : v.task.ending = none) : v.Idle :=
  hv.idle_of_rest h.sound hlive (h.quiet i)

theorem still (h : s.Resting) (hv : s.Shows i v) : v.poll = v := by
  cases hending : v.task.ending with
  | some ending => exact View.poll_of_ended (by simp [hending])
  | none => exact View.poll_of_idle (h.idle hv hending)

theorem shows (h : s.Resting) (hlisted : s.managed? c = some i) : ∃ v, s.Shows i v := by
  have hlt := (List.getElem?_eq_some_iff.mp (h.stream hlisted)).1
  rw [← length_streams] at hlt
  obtain ⟨v, hv, -⟩ := h.sound.shows (List.getElem?_eq_getElem hlt)
  exact ⟨v, hv⟩

end Resting

/-! ## One stream -/

theorem mailbox_poll_of_not_mem {id : Nat} (hid : id ∉ s.tasks.map Task.subscription) (i : Nat) :
    (s.poll i).bus.mailboxes[id]? = s.bus.mailboxes[id]? := by
  unfold poll
  cases htask : s.tasks[i]? with
  | none => rfl
  | some t =>
      have hne : t.subscription ≠ id := by
        rintro rfl
        exact hid (List.mem_map_of_mem (List.mem_of_getElem? htask))
      dsimp only
      split
      · rfl
      · exact mailbox_busAfter_ne s.bus t _ hne

theorem mailbox_settle_of_not_mem {id : Nat} (hid : id ∉ s.tasks.map Task.subscription) :
    s.settle.bus.mailboxes[id]? = s.bus.mailboxes[id]? := by
  have hround := settle_induction
    (fun s' => s'.tasks.map Task.subscription = s.tasks.map Task.subscription ∧
      s'.bus.mailboxes[id]? = s.bus.mailboxes[id]?) ⟨rfl, rfl⟩ ?_
  · exact hround.2
  · rintro s' i ⟨hsame, hbox⟩
    refine ⟨(map_poll s' i fun _ _ _ => rfl).trans hsame, ?_⟩
    rw [mailbox_poll_of_not_mem (hsame ▸ hid), hbox]

/-- What stopping some streams of the manager, one after the other, makes of a
session at rest. -/
structure Stops (order : List String) (s r : Session) : Prop where
  resting : r.Resting
  managed : r.managed = s.managed.filter (·.1 ∉ order)
  ready : r.ready = if order.any s.isStreaming then [] else s.ready
  clock : r.clock = s.clock
  attached : r.tasks.map Task.sink = s.tasks.map Task.sink
  subscriptions : r.tasks.map Task.subscription = s.tasks.map Task.subscription
  views : ∀ j v, s.Shows j v →
    r.Shows j (if order.any (s.managed? · = some j) then v.stopped else v)
  unattached : ∀ sink, sink ∉ s.tasks.map Task.sink → r.sinks[sink]? = s.sinks[sink]?
  unread : ∀ id, id ∉ s.tasks.map Task.subscription → r.bus.mailboxes[id]? = s.bus.mailboxes[id]?
  bus : r.bus.only (fun _ => true) =
    (s.bus.only fun _ => true).withdrawn (order.filter s.withdraws)

theorem Resting.attentive_stopStreaming (h : s.Resting) (c : String) :
    (s.stopStreaming c).2.Attentive := by
  have hmoves : s.AllPermitted (s.performMoves (.stopStreaming c)) :=
    h.sound.allPermitted_performMoves trivial
  have hstopped := h.toAttentive.go hmoves
  rwa [go_performMoves] at hstopped

theorem Resting.booked_stopStreaming (h : s.Resting) (c : String) :
    (s.stopStreaming c).2.Booked := by
  have hstopped : (s.perform (.stopStreaming c)).2.Booked := h.toBooked.perform h.sound trivial
  exact hstopped

theorem Shows.unmanage (hv : s.Shows j v) (c : String) : (s.unmanage c).Shows j v :=
  ⟨hv.task, hv.box, hv.owned, hv.sink, hv.now⟩

/-- A stream that is not listed, or has ended, is not stopped. -/
theorem Resting.stops_of_over (h : s.Resting)
    (hover : ∀ i, s.managed? c = some i → (s.ending? i).isSome) :
    Stops [c] s (s.stopStreaming c).2 := by
  have hsame : (s.stopStreaming c).2 = s.unmanage c := by
    cases hlisted : s.managed? c with
    | none => rw [stopStreaming_of_none hlisted, unmanage_of_none hlisted]
    | some i => exact stopStreaming_of_ended hlisted (hover i hlisted)
  have hover' : s.isStreaming c = false ∧ s.withdraws c = false := by
    cases hlisted : s.managed? c with
    | none => simp [isStreaming, withdraws, hlisted]
    | some i =>
        obtain ⟨v, hv⟩ := h.shows hlisted
        have hended := hover i hlisted
        rw [hv.ending?] at hended
        rw [hv.isStreaming hlisted, hv.withdraws hlisted, Option.isNone_eq_false_iff.mpr hended]
        exact ⟨rfl, Bool.false_and _⟩
  have hattentive := h.attentive_stopStreaming c
  have hbooked := h.booked_stopStreaming c
  rw [hsame] at hattentive hbooked ⊢
  have hquiet : (s.unmanage c).Quiescent := by
    apply quiescent_of_idle hattentive.sound
    intro j v hv
    exact h.idle ⟨hv.task, hv.box, hv.owned, hv.sink, hv.now⟩
  constructor
  · exact { hattentive, hbooked with quiet := hquiet }
  · simp [Session.unmanage]
  · simp [Session.unmanage, hover'.1]
  · rfl
  · rfl
  · rfl
  · intro j v hv
    split
    next hlisted =>
      have hended := hover j (by simpa using hlisted)
      rw [hv.ending?] at hended
      rw [View.stopped_of_ended hended]
      exact hv.unmanage c
    next => exact hv.unmanage c
  · exact fun _ _ => rfl
  · exact fun _ _ => rfl
  · rw [List.filter_cons_of_neg (by simp [hover'.2]), List.filter_nil, Bus.withdrawn_nil]
    rfl

theorem Resting.stops_of_live (h : s.Resting) (hlisted : s.managed? c = some i)
    (hlive : s.ending? i = none) : Stops [c] s (s.stopStreaming c).2 := by
  obtain ⟨v, hv⟩ := h.shows hlisted
  have hunmanaged : (s.unmanage c).Attentive := by
    have hmoves : s.AllPermitted [.manage (s.unmanage c).managed] := ⟨trivial, trivial⟩
    exact h.toAttentive.go hmoves
  have hv' := hv.unmanage c
  have hlive' : v.task.ending = none := hv.ending?.symm.trans hlive
  have hidle := h.idle hv hlive'
  have hstep : (s.stopStreaming c).2 = ((s.unmanage c).step false (.stop i)).2 :=
    (stopStreaming_of_live hlisted hlive).trans (step_stop_of_live hunmanaged hlive).symm
  have hsettled : (s.stopStreaming c).2 = ((s.unmanage c).signal i .stop).settle :=
    stopStreaming_of_live hlisted hlive
  have hattached : ((s.unmanage c).signal i .stop).tasks.map Task.sink = s.tasks.map Task.sink :=
    map_updateTask (s.unmanage c) i fun _ => rfl
  have hsubscriptions : ((s.unmanage c).signal i .stop).tasks.map Task.subscription =
      s.tasks.map Task.subscription := map_updateTask (s.unmanage c) i fun _ => rfl
  constructor
  · refine { h.attentive_stopStreaming c, h.booked_stopStreaming c with quiet := ?_ }
    rw [hsettled]
    exact (hunmanaged.signal i .stop).quiescent_settle
  · rw [managed_stopStreaming]
    simp [Session.unmanage]
  · have hstreaming : s.isStreaming c = true := by rw [hv.isStreaming hlisted, hlive']; rfl
    rw [hsettled, ready_settle]
    simp [hstreaming]
  · rw [hsettled, clock_settle]
    rfl
  · rw [hsettled, map_settle _ fun _ _ _ => rfl, hattached]
  · rw [hsettled, map_settle _ fun _ _ _ => rfl, hsubscriptions]
  · intro j u hu
    rw [hstep]
    by_cases hij : j = i
    · subst hij
      obtain rfl := hv.unique hu
      simpa [hlisted] using (hv'.stop_self hunmanaged).1
    · have hother := (hu.unmanage c).stop_ne hunmanaged hij
      rw [h.still hu] at hother
      simpa [hlisted, Ne.symm hij] using hother
  · intro sink hsink
    rw [hsettled, sink_settle_of_not_mem (hattached ▸ hsink)]
    rfl
  · intro id hid
    rw [hsettled, mailbox_settle_of_not_mem (hsubscriptions ▸ hid)]
    rfl
  · have hothers : ∀ j, j ≠ i → ∀ u, (s.unmanage c).Shows j u → u.Mute fun _ => true := by
      intro j _ u hu
      have hmute : u.poll.Mute fun _ => true := u.mute_poll
      rwa [h.still ⟨hu.task, hu.box, hu.owned, hu.sink, hu.now⟩] at hmute
    have hchannel : v.box.channel = c :=
      Option.some.inj (hv.stream.symm.trans (h.stream hlisted))
    have howner : (s.bus.only fun _ => true).owner? c = some v.task.subscription := by
      have howned : s.bus.owns v.task.subscription = true := hv.owned.trans hidle.owned
      rw [Bus.owner?_only rfl, ← hchannel]
      exact (Bus.owns_iff h.sound.bus hv.box).mp howned
    have hleft := only_stop_of_live hunmanaged hv' hlive' hothers
    have hgives := View.gives_asked_stop hlive'
    have hbox : (v.asked .stop).box.channel = c := hchannel
    rw [hidle.lines_asked_stop] at hgives
    rw [View.leave, hgives, Bool.and_true, hbox] at hleft
    rw [hstep, hleft, List.filter_cons, hv.withdraws hlisted, hlive']
    change (if _ then (s.bus.only fun _ => true).release c v.task.subscription else _) = _
    rw [Bus.release_eq_withdrawn howner]
    cases v.sink.breaksWithin v.task.waiting with
    | true => exact (Bus.withdrawn_nil _).symm
    | false => rfl

theorem Resting.stops (h : s.Resting) (c : String) : Stops [c] s (s.stopStreaming c).2 := by
  by_cases hover : ∀ i, s.managed? c = some i → (s.ending? i).isSome
  · exact h.stops_of_over hover
  · obtain ⟨i, hi⟩ := not_forall.mp hover
    obtain ⟨hlisted, hlive⟩ := Classical.not_imp.mp hi
    exact h.stops_of_live hlisted (by simpa using hlive)

theorem Stops.others (h : Stops [c] s s') (hs : s.Resting) (hdc : d ≠ c) :
    s'.managed? d = s.managed? d ∧ s'.isStreaming d = s.isStreaming d ∧
      s'.withdraws d = s.withdraws d := by
  have hmanaged : s'.managed? d = s.managed? d := by
    have hsame : s'.managed = (s.unmanage c).managed := by
      rw [h.managed]
      simp [Session.unmanage]
    have hunmanaged := managed?_unmanage s c d
    rw [if_neg hdc] at hunmanaged
    rw [← hunmanaged, managed?, hsame, managed?]
  refine ⟨hmanaged, ?_⟩
  cases hlisted : s.managed? d with
  | none => simp [isStreaming, withdraws, hmanaged, hlisted]
  | some j =>
      obtain ⟨v, hv⟩ := hs.shows hlisted
      have hviews := h.views j v hv
      have hother : s.managed? c ≠ some j := fun hc => hs.ne hc hlisted hdc rfl
      rw [if_neg (by simpa using hother)] at hviews
      have hlisted' := hmanaged.trans hlisted
      rw [hviews.isStreaming hlisted', hviews.withdraws hlisted', hv.isStreaming hlisted,
        hv.withdraws hlisted]
      exact ⟨rfl, rfl⟩

theorem Stops.cons (h : Stops [c] s s') (hs : s.Resting) (hc : c ∉ order)
    (hrest : Stops order s' r) : Stops (c :: order) s r := by
  have hothers {d : String} (hd : d ∈ order) := h.others hs (ne_of_mem_of_not_mem hd hc)
  have hstreaming : order.any s'.isStreaming = order.any s.isStreaming := by
    rw [Bool.eq_iff_iff, List.any_eq_true, List.any_eq_true]
    exact exists_congr fun d => and_congr_right fun hd => by rw [(hothers hd).2.1]
  have hwithdraws : order.filter s'.withdraws = order.filter s.withdraws :=
    List.filter_congr fun d hd => (hothers hd).2.2
  constructor
  · exact hrest.resting
  · rw [hrest.managed, h.managed, List.filter_filter]
    apply List.filter_congr
    intro entry _
    by_cases hentry : entry.1 = c <;> simp [hentry]
  · rw [hrest.ready, h.ready, hstreaming, List.any_cons, List.any_cons, List.any_nil]
    cases s.isStreaming c with
    | true => simp
    | false => rfl
  · exact hrest.clock.trans h.clock
  · exact hrest.attached.trans h.attached
  · exact hrest.subscriptions.trans h.subscriptions
  · intro j v hv
    have hlisted : order.any (s'.managed? · = some j) = order.any (s.managed? · = some j) := by
      rw [Bool.eq_iff_iff, List.any_eq_true, List.any_eq_true]
      exact exists_congr fun d => and_congr_right fun hd => by rw [(hothers hd).1]
    have hstopped := hrest.views j _ (h.views j v hv)
    rw [hlisted] at hstopped
    rw [List.any_cons]
    by_cases hfirst : s.managed? c = some j
    · simpa [hfirst, View.stopped_stopped] using hstopped
    · simpa [hfirst] using hstopped
  · intro sink hsink
    rw [hrest.unattached sink (h.attached ▸ hsink), h.unattached sink hsink]
  · intro id hid
    rw [hrest.unread id (h.subscriptions ▸ hid), h.unread id hid]
  · rw [hrest.bus, h.bus, hwithdraws, List.filter_cons, List.filter_cons, List.filter_nil]
    split
    · exact (Bus.withdrawn_cons _ _ _).symm
    · rw [Bus.withdrawn_nil]

theorem Resting.stops_nil (h : s.Resting) : Stops [] s s where
  resting := h
  managed := by simp
  ready := rfl
  clock := rfl
  attached := rfl
  subscriptions := rfl
  views := fun _ _ hv => hv
  unattached := fun _ _ => rfl
  unread := fun _ _ => rfl
  bus := (Bus.withdrawn_nil _).symm

theorem Resting.stops_stopEach (h : s.Resting) (horder : order.Nodup) :
    Stops order s (s.stopEach order) := by
  induction order generalizing s with
  | nil => exact h.stops_nil
  | cons c order ih =>
      obtain ⟨hc, horder⟩ := List.nodup_cons.mp horder
      have hfirst := h.stops c
      exact hfirst.cons h hc (ih hfirst.resting horder)

/-! ## All orders -/

namespace Stops

theorem owners (h : Stops order s r) :
    r.bus.owners = s.bus.owners.filter fun entry => entry.1 ∉ order.filter s.withdraws := by
  have hbus := h.bus
  rw [Bus.only_all, Bus.only_all] at hbus
  exact congrArg Bus.owners hbus

theorem outbound (h : Stops order s r) :
    r.bus.outbound = s.bus.outbound ++
      if s.bus.isOpen then (order.filter s.withdraws).map (.unsubscribe · s.bus.stamp) else [] := by
  have hbus := h.bus
  rw [Bus.only_all, Bus.only_all] at hbus
  exact congrArg Bus.outbound hbus

/-- Streams that are stopped in another order have seen and written the same. -/
theorem tasks_eq (h : Stops order s r) (h' : Stops order' s r') (hs : s.Sound)
    (horder : order.Perm order') : r'.tasks = r.tasks ∧ r'.sinks = r.sinks ∧
      r'.bus.mailboxes = r.bus.mailboxes := by
  have hviews (j : Nat) (v : View) (hv : s.Shows j v) :
      ∃ u, r.Shows j u ∧ r'.Shows j u ∧ u.task.sink = v.task.sink ∧
        u.task.subscription = v.task.subscription := by
    have hshown := h.views j v hv
    have hshown' := h'.views j v hv
    rw [← horder.any_eq] at hshown'
    refine ⟨_, hshown, hshown', ?_, ?_⟩
    · split
      · exact v.attached_stopped
      · rfl
    · split
      · exact v.subscription_stopped
      · rfl
  refine ⟨?_, ?_, ?_⟩
  · apply List.ext_getElem?
    intro j
    have hlength : r.tasks.length = s.tasks.length := by
      simpa using congrArg List.length h.attached
    have hlength' : r'.tasks.length = s.tasks.length := by
      simpa using congrArg List.length h'.attached
    cases htask : s.tasks[j]? with
    | none =>
        have hle := List.getElem?_eq_none_iff.mp htask
        rw [List.getElem?_eq_none (hlength.trans_le hle),
          List.getElem?_eq_none (hlength'.trans_le hle)]
    | some t =>
        obtain ⟨v, hv, -⟩ := hs.shows htask
        obtain ⟨u, hu, hu', -⟩ := hviews j v hv
        rw [hu.task, hu'.task]
  · apply List.ext_getElem?
    intro sink
    by_cases hsink : sink ∈ s.tasks.map Task.sink
    · obtain ⟨t, ht, rfl⟩ := List.mem_map.mp hsink
      obtain ⟨j, ht⟩ := List.mem_iff_getElem?.mp ht
      obtain ⟨v, hv, rfl⟩ := hs.shows ht
      obtain ⟨u, hu, hu', hsame, -⟩ := hviews j v hv
      rw [← hsame, hu.sink, hu'.sink]
    · rw [h.unattached sink hsink, h'.unattached sink hsink]
  · apply List.ext_getElem?
    intro id
    by_cases hid : id ∈ s.tasks.map Task.subscription
    · obtain ⟨t, ht, rfl⟩ := List.mem_map.mp hid
      obtain ⟨j, ht⟩ := List.mem_iff_getElem?.mp ht
      obtain ⟨v, hv, rfl⟩ := hs.shows ht
      obtain ⟨u, hu, hu', -, hsame⟩ := hviews j v hv
      rw [← hsame, hu.box, hu'.box]
    · rw [h.unread id hid, h'.unread id hid]

/-- All orders lead to the same session, apart from the order of the frames. -/
theorem eq_of_perm (h : Stops order s r) (h' : Stops order' s r') (hs : s.Sound)
    (horder : order.Perm order') :
    r' = { r with bus := { r.bus with outbound := r'.bus.outbound } } := by
  obtain ⟨htasks, hsinks, hboxes⟩ := h.tasks_eq h' hs horder
  have hready : r'.ready = r.ready := by rw [h'.ready, h.ready, horder.any_eq]
  have hclock := h'.clock.trans h.clock.symm
  have hmanaged : r'.managed = r.managed := by
    rw [h'.managed, h.managed]
    exact List.filter_congr fun entry _ => by simp [horder.mem_iff]
  have howners : r'.bus.owners = r.bus.owners := by
    rw [h'.owners, h.owners]
    exact List.filter_congr fun entry _ => by simp [horder.mem_iff]
  have hbus := h.bus
  have hbus' := h'.bus
  rw [Bus.only_all, Bus.only_all] at hbus hbus'
  have hopen : r'.bus.isOpen = r.bus.isOpen :=
    (congrArg Bus.isOpen hbus').trans (congrArg Bus.isOpen hbus).symm
  have hstamp : r'.bus.stamp = r.bus.stamp :=
    (congrArg Bus.stamp hbus').trans (congrArg Bus.stamp hbus).symm
  obtain ⟨⟨isOpen, outbound, owners, mailboxes, stamp⟩, clock, tasks, sinks, ready, managed⟩ := r
  obtain ⟨⟨isOpen', outbound', owners', mailboxes', stamp'⟩, clock', tasks', sinks', ready',
    managed'⟩ := r'
  simp_all

theorem outbound_perm (h : Stops order s r) (h' : Stops order' s r')
    (horder : order.Perm order') : r.bus.outbound.Perm r'.bus.outbound := by
  rw [h.outbound, h'.outbound]
  apply List.Perm.append_left
  split
  · exact (horder.filter _).map _
  · exact .refl _

end Stops

theorem Resting.of_run {steps : List (Bool × Step)} (hsteps : Permitted {} steps)
    (hquiet : (run {} steps).Quiescent) : (run {} steps).Resting where
  toAttentive := ⟨sound_run hsteps, fun i => ⟨_, follows_run hsteps i⟩⟩
  toBooked := (booked_initial 0).run sound_initial hsteps
  quiet := hquiet

/-- What waits in a stream stands in the order of its numbers. -/
theorem pending_sorted {steps : List (Bool × Step)} (hsteps : Permitted {} steps)
    (hv : (run {} steps).Shows i v) (hlive : v.task.ending = none) :
    v.task.stream.reassembly.pending.Pairwise (·.number < ·.number) := by
  have haccounts := (accounts_of_live hsteps hv hlive).1
  rw [(haccounts.live hlive).reassembly]
  exact (Logs.Reassembly.after_wellFormed Logs.Reassembly.wellFormed_initial _).sorted

theorem mem_managed_of_withdraws (hwithdraws : s.withdraws c = true) :
    c ∈ s.managed.map (·.1) := by
  cases hlisted : s.managed? c with
  | none => simp [Session.withdraws, hlisted] at hwithdraws
  | some i => exact List.mem_map_of_mem (Booked.mem_managed_of_managed? hlisted)

/-- A stream that is among those stopped shows what stopping makes of it. -/
theorem Stops.stopped (h : Stops order s r) (hv : s.Shows i v) (hlisted : s.managed? c = some i)
    (hc : c ∈ order) : r.Shows i v.stopped := by
  have hviews := h.views i v hv
  rwa [if_pos (List.any_eq_true.mpr ⟨c, hc, by simp [hlisted]⟩)] at hviews

theorem Stops.frames (h : Stops order s r) (horder : order.Nodup) (hc : c ∈ order) :
    r.bus.outbound.filter (·.channel? = some c) =
      s.bus.outbound.filter (·.channel? = some c) ++
        if s.bus.isOpen && s.withdraws c then [.unsubscribe c s.bus.stamp] else [] := by
  have honce : (order.filter s.withdraws).filter (· = c) = if s.withdraws c then [c] else [] := by
    have hcount := List.count_eq_one_of_mem horder hc
    rw [List.filter_filter]
    cases hwithdraws : s.withdraws c with
    | true =>
        have hsame : order.filter (fun d => decide (d = c) && s.withdraws d) =
            order.filter (· == c) := by
          apply List.filter_congr
          intro d _
          by_cases hd : d = c <;> simp [hd, hwithdraws]
        rw [hsame, List.filter_beq, hcount]
        rfl
    | false =>
        simp only [Bool.false_eq_true, if_false, List.filter_eq_nil_iff]
        rintro d - hd
        obtain ⟨rfl, hd⟩ : d = c ∧ s.withdraws d = true := by simpa using hd
        simp [hwithdraws] at hd
  have hframes : ((order.filter s.withdraws).map (Frame.unsubscribe · s.bus.stamp)).filter
      (·.channel? = some c) =
        ((order.filter s.withdraws).filter (· = c)).map (Frame.unsubscribe · s.bus.stamp) := by
    rw [List.filter_map]
    congr 1
    apply List.filter_congr
    intro d _
    simp [Frame.channel?]
  rw [h.outbound, List.filter_append]
  cases s.bus.isOpen with
  | false => simp
  | true =>
      simp only [if_true, hframes, honce, Bool.true_and]
      cases s.withdraws c <;> rfl

/-- The session after the streams of a manager have been stopped, each once. -/
structure AllStopped (order : List String) (s after : Session) : Prop where
  managed : after.managed = []
  /-- A channel was given up when its stream went on and could write all that waited. -/
  owners : after.bus.owners = s.bus.owners.filter fun entry => !s.withdraws entry.1
  outbound : after.bus.outbound = s.bus.outbound ++
    if s.bus.isOpen then (order.filter s.withdraws).map (.unsubscribe · s.bus.stamp) else []
  /-- That takes one frame, and nothing else about the channel is sent. -/
  frames : ∀ channel i, s.managed? channel = some i →
    after.bus.outbound.filter (·.channel? = some channel) =
      s.bus.outbound.filter (·.channel? = some channel) ++
        if s.bus.isOpen && s.withdraws channel then [.unsubscribe channel s.bus.stamp] else []
  attached : ∀ channel i, s.managed? channel = some i →
    ∃ t k, s.tasks[i]? = some t ∧ s.sinks[t.sink]? = some k
  /-- What waited was written in the order of the numbers, up to the line that the sink
  broke on. -/
  live : ∀ channel i t k, s.managed? channel = some i → s.tasks[i]? = some t →
    s.sinks[t.sink]? = some k → t.ending = none →
      t.stream.reassembly.pending.Pairwise (·.number < ·.number) ∧
        after.sinks[t.sink]? = some (k.write t.waiting) ∧
        after.ending? i = some (if k.breaksWithin t.waiting then .broken else .finished) ∧
        s.withdraws channel = !k.breaksWithin t.waiting
  /-- A stream that had ended writes nothing and gives nothing up. -/
  ended : ∀ channel i t k, s.managed? channel = some i → s.tasks[i]? = some t →
    s.sinks[t.sink]? = some k → t.ending.isSome →
      after.sinks[t.sink]? = some k ∧ after.ending? i = t.ending ∧ s.withdraws channel = false
  others : ∀ sink, (∀ channel i t, s.managed? channel = some i → s.tasks[i]? = some t →
    t.sink ≠ sink) → after.sinks[sink]? = s.sinks[sink]?

theorem Stops.allStopped {steps : List (Bool × Step)} (hsteps : Permitted {} steps)
    (h : Stops order (run {} steps) r) (hs : (run {} steps).Resting)
    (horder : order.Perm ((run {} steps).managed.map (·.1))) :
    AllStopped order (run {} steps) r := by
  have hmem {c : String} {i : Nat} (hlisted : (run {} steps).managed? c = some i) : c ∈ order :=
    horder.mem_iff.mpr (List.mem_map_of_mem (Booked.mem_managed_of_managed? hlisted))
  have hnodup : order.Nodup := horder.nodup_iff.mpr hs.once
  -- the streams of the manager, and what is to be seen of them before and after
  have hshown {c : String} {i : Nat} {t : Task} {k : Sink}
      (hlisted : (run {} steps).managed? c = some i) (htask : (run {} steps).tasks[i]? = some t)
      (hk : (run {} steps).sinks[t.sink]? = some k) :
      ∃ v, (run {} steps).Shows i v ∧ v.task = t ∧ v.sink = k ∧ r.Shows i v.stopped := by
    obtain ⟨v, hv, rfl⟩ := hs.sound.shows htask
    exact ⟨v, hv, rfl, Option.some.inj (hv.sink.symm.trans hk), h.stopped hv hlisted (hmem hlisted)⟩
  constructor
  · rw [h.managed, List.filter_eq_nil_iff]
    intro entry hentry
    simpa using horder.mem_iff.mpr (List.mem_map_of_mem hentry)
  · rw [h.owners]
    apply List.filter_congr
    intro entry _
    cases hwithdraws : (run {} steps).withdraws entry.1 with
    | true =>
        have hlisted := horder.mem_iff.mpr (mem_managed_of_withdraws hwithdraws)
        simp [hwithdraws, hlisted]
    | false => simp [hwithdraws]
  · exact h.outbound
  · exact fun channel i hlisted => h.frames hnodup (hmem hlisted)
  · intro channel i hlisted
    obtain ⟨v, hv⟩ := hs.shows hlisted
    exact ⟨v.task, v.sink, hv.task, hv.sink⟩
  · intro channel i t k hlisted htask hk hlive
    obtain ⟨v, hv, rfl, rfl, hafter⟩ := hshown hlisted htask hk
    obtain ⟨hsink, hending⟩ := (hs.idle hv hlive).stopped hlive
    have hwritten := hafter.sink
    rw [v.attached_stopped, hsink] at hwritten
    refine ⟨pending_sorted hsteps hv hlive, hwritten, hafter.ending?.trans hending, ?_⟩
    rw [hv.withdraws hlisted, hlive]
    exact Bool.true_and _
  · intro channel i t k hlisted htask hk hended
    obtain ⟨v, hv, rfl, rfl, hafter⟩ := hshown hlisted htask hk
    rw [View.stopped_of_ended hended] at hafter
    refine ⟨hafter.sink, hafter.ending?, ?_⟩
    rw [hv.withdraws hlisted, Option.isNone_eq_false_iff.mpr hended, Bool.false_and]
  · intro sink hsink
    by_cases hattached : sink ∈ (run {} steps).tasks.map Task.sink
    · obtain ⟨t, ht, rfl⟩ := List.mem_map.mp hattached
      obtain ⟨j, ht⟩ := List.mem_iff_getElem?.mp ht
      obtain ⟨v, hv, rfl⟩ := hs.sound.shows ht
      have hviews := h.views j v hv
      have hunlisted : ¬ order.any ((run {} steps).managed? · = some j) := by
        intro hany
        obtain ⟨c, -, hlisted⟩ := List.any_eq_true.mp hany
        exact hsink c j v.task (of_decide_eq_true hlisted) ht rfl
      rw [if_neg hunlisted] at hviews
      rw [hviews.sink, hv.sink]
    · exact h.unattached sink hattached

theorem active_perm (s : Session) : s.active.Perm (s.managed.map (·.1)) :=
  List.mergeSort_perm _ _

/-- When a session is at rest, the streams of its manager can be stopped in any order:
the sessions that this leads to are the same, and of the frames that were queued only
the order differs. -/
theorem all_stopped_in_any_order (steps : List (Bool × Step)) (hsteps : Permitted {} steps)
    (hquiet : (run {} steps).Quiescent) (order order' : List String)
    (horder : order.Perm ((run {} steps).managed.map (·.1)))
    (horder' : order'.Perm ((run {} steps).managed.map (·.1))) :
    let s := run {} steps
    let after := s.stopEach order
    let after' := s.stopEach order'
    AllStopped order s after ∧ AllStopped s.active s s.stopAll ∧
      after.bus.outbound.Perm after'.bus.outbound ∧
      after' = { after with bus := { after.bus with outbound := after'.bus.outbound } } := by
  intro s after after'
  have hs : s.Resting := .of_run hsteps hquiet
  have hstops {order : List String} (horder : order.Perm (s.managed.map (·.1))) :
      Stops order s (s.stopEach order) := hs.stops_stopEach (horder.nodup_iff.mpr hs.once)
  have hsame : order.Perm order' := horder.trans horder'.symm
  exact ⟨(hstops horder).allStopped hsteps hs horder,
    (hstops s.active_perm).allStopped hsteps hs s.active_perm,
    (hstops horder).outbound_perm (hstops horder') hsame,
    (hstops horder).eq_of_perm (hstops horder') hs.sound hsame⟩

/-- Two streams go on, and the sink of one of them breaks on a line that waits; the
others have failed, have lost their channel and have a sink that broke. -/
theorem all_stopped_in_any_order_past_ended_streams :
    let message (channel : String) (number : Nat) (text : String) : Bool × Step :=
      (false, .dispatch (.event channel (.object [("num", .ofNat number), ("line", .string text)])))
    let before : List (Bool × Step) :=
      [(false, .startStreaming "live" none), (false, .startStreaming "brittle" (some "y")),
        (false, .startStreaming "failed" none), (false, .startStreaming "lost" none),
        (false, .startStreaming "broken" (some "v")), message "live" 4 "d", message "live" 2 "b",
        message "brittle" 2 "x", message "brittle" 3 "y", message "brittle" 5 "z",
        message "failed" 3 "f", message "lost" 2 "u", message "broken" 1 "v",
        (false, .dispatch (.error (some "failed") "gone"))]
    let steps := before ++ [(false, .subscribe "lost")]
    let s := run {} steps
    let order := ["live", "brittle", "failed", "lost", "broken"]
    let after := s.stopEach order
    let after' := s.stopEach order.reverse
    (AllStopped order s after ∧
      after' = { after with bus := { after.bus with outbound := after'.bus.outbound } }) ∧
    after'.sinks.map Sink.lines = [["b", "d"], ["x"], [], ["u"], []] ∧
    (after'.bus.outbound.drop s.bus.outbound.length).map Frame.channel? = [some "live"] ∧
    after'.bus.owners.map (·.1) = ["lost", "broken", "brittle"] := by
  intro message before steps s order after after'
  have hsteps : Permitted {} steps :=
    ⟨trivial, trivial, trivial, trivial, trivial, trivial, trivial, trivial, trivial, trivial,
      trivial, trivial, trivial, trivial, trivial, trivial⟩
  have hquiet : s.Quiescent := quiescent_of_unqueued hsteps
  have hkeys : order.Perm (s.managed.map (·.1)) := by decide +kernel
  obtain ⟨hstopped, -, -, hsame⟩ := all_stopped_in_any_order steps hsteps hquiet order
    order.reverse hkeys ((List.reverse_perm order).trans hkeys)
  refine ⟨⟨hstopped, ?_⟩, ?_, ?_, ?_⟩
  · -- nothing is to be computed here
    with_reducible exact hsame
  · decide +kernel
  · decide +kernel
  · decide +kernel

end Session

end DevMachine

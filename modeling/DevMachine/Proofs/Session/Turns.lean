import DevMachine.Proofs.Session.Lifetimes
import DevMachine.Proofs.Session.PartSteps

/-!
# Turns of single streams

A turn changes what its own stream can see, and of the bus no more than the owner of
its channel and the frames for the endpoint.  So two sessions that are alike in
everything but one stream stay alike while the others have their turns, and a turn of
the one stream matters only when it gives the channel up.
-/

namespace DevMachine

open Channel (Bus Frame Mailbox)

namespace Channel.Bus

/-- The owners of some channels and the frames about them, apart from what is in
the mailboxes. -/
def only (q : String → Bool) (b : Bus) : Bus :=
  { b with
    outbound := b.outbound.filter fun frame => frame.channel?.all q
    owners := b.owners.filter fun entry => q entry.1
    mailboxes := [] }

variable {q : String → Bool} {b : Bus} {c : String}

theorem only_updateMailbox (b : Bus) (id : Nat) (f : Mailbox → Mailbox) :
    (b.updateMailbox id f).only q = b.only q := rfl

theorem owner?_only (hc : q c = true) : (b.only q).owner? c = b.owner? c := by
  unfold owner? only
  rw [List.find?_filter]
  congr 2
  funext entry
  by_cases heq : entry.1 = c <;> simp [heq, hc]

theorem only_send (b : Bus) (frame : Frame) :
    (b.send frame).2.only q =
      if frame.channel?.all q then ((b.only q).send frame).2 else b.only q := by
  have hopen : (b.only q).isOpen = b.isOpen := rfl
  unfold send
  rw [hopen]
  split
  · cases hframe : frame.channel?.all q <;> simp [only, hframe]
  · split <;> rfl

theorem only_forget (b : Bus) (c : String) :
    (b.forget c).only q = if q c then (b.only q).forget c else b.only q := by
  simp only [only, forget, List.filter_filter]
  split
  next hc => simp only [Bool.and_comm]
  next hc =>
    congr 1
    apply List.filter_congr
    intro entry _
    by_cases heq : entry.1 = c <;> simp [heq, hc]

theorem only_release (b : Bus) (c : String) (id : Nat) :
    (b.release c id).only q = if q c then (b.only q).release c id else b.only q := by
  have hframe : (Frame.unsubscribe c b.stamp).channel?.all q = q c := rfl
  have hstamp : (b.forget c).stamp = b.stamp := rfl
  have hstamp' : (b.only q).stamp = b.stamp := rfl
  unfold release
  cases hc : q c with
  | true =>
      rw [owner?_only hc, if_pos rfl, hstamp']
      cases b.owner? c with
      | none => simp [only_send, hframe, hc]
      | some current =>
          dsimp only
          split
          · simp [only_send, only_forget, hframe, hc]
          · rfl
  | false =>
      cases b.owner? c with
      | none => simp [only_send, hframe, hc]
      | some current =>
          dsimp only
          split
          · simp [only_send, only_forget, hframe, hc]
          · rfl

end Channel.Bus

namespace Session

variable {q : String → Bool} {stamp : Int64} {s s' s'' : Session} {i j k : Nat} {v v' u : View}

/-- The sessions that moves and turns of single streams lead to. -/
inductive Reached (stamp : Int64) : Session → Prop
  | start : Reached stamp { bus := { stamp } }
  | move {s : Session} (hreached : Reached stamp s) {m : Move} (hm : m.Permitted s) :
      Reached stamp (s.move m)
  | turn {s : Session} (hreached : Reached stamp s) (i : Nat) : Reached stamp (s.poll i)

theorem length_tasks_poll (s : Session) (i : Nat) : (s.poll i).tasks.length = s.tasks.length := by
  simpa using congrArg List.length (map_poll s i (g := Task.sink) fun _ _ _ => rfl)

theorem Follows.poll_self {w : Watch} (hs : s.Sound) (h : s.Follows i w) :
    ∃ w', (s.poll i).Follows i w' := by
  rcases h with hnone | ⟨v, hv, halert, hw⟩
  · rw [poll_of_none hnone]
    exact ⟨w, .inl hnone⟩
  · cases hending : v.task.ending with
    | some ending =>
        rw [hv.poll_of_ended (by simp [hending])]
        exact ⟨w, .inr ⟨v, hv, halert, hw⟩⟩
    | none =>
        refine ⟨w.look v.look, .inr ⟨v.poll, hv.poll_self hs, ?_, ?_⟩⟩
        · exact fun hlive _ => (View.idle_poll hlive).toCalm
        · intro hk
          have hk' := hk.congr (breaksOn_poll v).symm
          exact (hw hk'.of_look).look_of_live hending hk'

theorem Follows.poll_ne {w : Watch} (hs : s.Sound) (h : s.Follows i w) (hij : j ≠ i) :
    (s.poll j).Follows i w := by
  rcases h with hnone | ⟨v, hv, halert, hw⟩
  · left
    rw [List.getElem?_eq_none_iff, length_tasks_poll]
    exact List.getElem?_eq_none_iff.mp hnone
  · refine .inr ⟨v, hv.poll_ne hs hij, ?_, hw⟩
    intro hlive hready
    rw [ready_poll] at hready
    exact halert hlive hready

theorem Attentive.poll (h : s.Attentive) (i : Nat) : (s.poll i).Attentive where
  sound := h.sound.poll i
  follows := by
    intro j
    obtain ⟨w, hw⟩ := h.follows j
    by_cases hij : i = j
    · subst hij
      exact hw.poll_self h.sound
    · exact ⟨w, hw.poll_ne h.sound hij⟩

theorem Reached.attentive (h : Reached stamp s) : s.Attentive := by
  induction h with
  | start => exact attentive_initial stamp
  | @move s _ m hm ih =>
      have hmoves : s.AllPermitted [m] := ⟨hm, trivial⟩
      exact ih.go hmoves
  | turn _ i ih => exact ih.poll i

theorem Reached.go (h : Reached stamp s) {moves : List Move} (hmoves : s.AllPermitted moves) :
    Reached stamp (s.go moves) := by
  induction moves generalizing s with
  | nil => exact h
  | cons m moves ih => exact ih (h.move hmoves.1) hmoves.2

theorem Reached.run (h : Reached stamp s) {steps : List (Bool × Step)}
    (hsteps : s.Permitted steps) : Reached stamp (s.run steps) := by
  rw [← go_runMoves]
  exact h.go (h.attentive.sound.allPermitted_runMoves hsteps)

/-! ## Giving the channel up -/

namespace View

/-- Whether the turn of a stream gives its channel up. -/
def gives (v : View) : Bool := v.task.ending.isNone && v.turn.ending.isSome && v.turn.releases

/-- What the turn of a stream does to the bus, apart from the mailboxes. -/
def leave (q : String → Bool) (v : View) (b : Bus) : Bus :=
  if v.gives && q v.box.channel then b.release v.box.channel v.task.subscription else b

/-- The turn of a stream is not noticed by the endpoint or any owner. -/
def Mute (q : String → Bool) (v : View) : Prop := (v.gives && q v.box.channel) = false

theorem Mute.of_not_gives (hgives : v.gives = false) : v.Mute q := by simp [Mute, hgives]

theorem Mute.of_channel (hchannel : q v.box.channel = false) : v.Mute q := by
  simp [Mute, hchannel]

theorem Mute.leave_eq (hmute : v.Mute q) (b : Bus) : v.leave q b = b := by
  unfold leave
  rw [hmute]
  rfl

theorem gives_of_ended (hended : v.task.ending.isSome) : v.gives = false := by
  rw [gives, Option.isNone_eq_false_iff.mpr hended]
  rfl

theorem gives_poll (v : View) : v.poll.gives = false := by
  cases hending : v.poll.task.ending with
  | some ending => exact gives_of_ended (by simp [hending])
  | none => simp [gives, (turn_of_idle (idle_poll hending)).2]

theorem mute_poll (v : View) : v.poll.Mute q := .of_not_gives v.gives_poll

end View

theorem Shows.only_poll (hv : s.Shows i v) :
    (s.poll i).bus.only q = v.leave q (s.bus.only q) := by
  cases hending : v.task.ending with
  | some ending =>
      have hended : v.task.ending.isSome := by simp [hending]
      have hmute : v.Mute q := .of_not_gives (View.gives_of_ended hended)
      rw [hv.poll_of_ended hended, hmute.leave_eq]
  | none =>
      have hbus : (s.poll i).bus = busAfter s.bus v.task v.turn := by rw [hv.poll_eq hending]
      rw [hbus]
      unfold busAfter View.leave View.gives
      rw [hending]
      cases v.turn.ending with
      | none => rfl
      | some ending =>
          cases v.turn.releases with
          | false => rfl
          | true =>
              have hunsubscribe : s.bus.unsubscribe v.task.subscription =
                  s.bus.release v.box.channel v.task.subscription := by
                simp [Bus.unsubscribe, hv.box]
              simp only [if_true, Bus.drop, Bus.only_updateMailbox, hunsubscribe, Bus.only_release]
              rfl

theorem shows_poll_iff (hs : s.Sound) :
    (s.poll j).Shows k v ↔ ∃ u, s.Shows k u ∧ v = if j = k then u.poll else u := by
  have hforward {u : View} (hu : s.Shows k u) :
      (s.poll j).Shows k (if j = k then u.poll else u) := by
    split
    next hjk =>
      subst hjk
      exact hu.poll_self hs
    next hjk => exact hu.poll_ne hs hjk
  constructor
  · intro hv
    have hlt := (List.getElem?_eq_some_iff.mp hv.task).1
    rw [length_tasks_poll] at hlt
    obtain ⟨u, hu, -⟩ := hs.shows (List.getElem?_eq_getElem hlt)
    exact ⟨u, hu, (hforward hu).unique hv⟩
  · rintro ⟨u, hu, rfl⟩
    exact hforward hu

theorem shows_unready_iff : Shows { s with ready := [] } i v ↔ s.Shows i v := by
  constructor
  · exact fun hv => ⟨hv.task, hv.box, hv.owned, hv.sink, hv.now⟩
  · exact fun hv => ⟨hv.task, hv.box, hv.owned, hv.sink, hv.now⟩

theorem Shows.unready (hv : s.Shows i v) : Shows { s with ready := [] } i v :=
  shows_unready_iff.mpr hv

/-! ## Sessions that are alike but for one stream -/

/-- Every other stream sees the same in two sessions, and some channels have the
same owners and the same frames. -/
structure Alike (q : String → Bool) (i : Nat) (s s' : Session) : Prop where
  left : s.Sound
  right : s'.Sound
  length : s.tasks.length = s'.tasks.length
  views : ∀ j, j ≠ i → ∀ v, s.Shows j v ↔ s'.Shows j v
  bus : s.bus.only q = s'.bus.only q

namespace Alike

theorem refl (hs : s.Sound) : Alike q i s s := ⟨hs, hs, rfl, fun _ _ _ => Iff.rfl, rfl⟩

theorem symm (h : Alike q i s s') : Alike q i s' s :=
  ⟨h.right, h.left, h.length.symm, fun j hj v => (h.views j hj v).symm, h.bus.symm⟩

theorem trans (h : Alike q i s s') (h' : Alike q i s' s'') : Alike q i s s'' :=
  ⟨h.left, h'.right, h.length.trans h'.length,
    fun j hj v => (h.views j hj v).trans (h'.views j hj v), h.bus.trans h'.bus⟩

theorem unready (h : Alike q i s s') :
    Alike q i { s with ready := [] } { s' with ready := [] } where
  left := h.left.unready
  right := h.right.unready
  length := h.length
  views := by
    intro j hj v
    rw [shows_unready_iff, shows_unready_iff, h.views j hj v]
  bus := h.bus

theorem views_poll (h : Alike q i s s') (j : Nat) :
    ∀ k, k ≠ i → ∀ v, (s.poll j).Shows k v ↔ (s'.poll j).Shows k v := by
  intro k hk v
  simp only [shows_poll_iff h.left, shows_poll_iff h.right, h.views k hk]

theorem poll (h : Alike q i s s') (hj : j ≠ i) : Alike q i (s.poll j) (s'.poll j) where
  left := h.left.poll j
  right := h.right.poll j
  length := by rw [length_tasks_poll, length_tasks_poll, h.length]
  views := h.views_poll j
  bus := by
    cases htask : s.tasks[j]? with
    | none =>
        have hle := List.getElem?_eq_none_iff.mp htask
        rw [h.length] at hle
        rw [poll_of_none htask, poll_of_none (List.getElem?_eq_none_iff.mpr hle), h.bus]
    | some t =>
        obtain ⟨v, hv, -⟩ := h.left.shows htask
        rw [hv.only_poll, ((h.views j hj v).mp hv).only_poll, h.bus]

theorem poll_left (h : Alike q i s s') (hv : s.Shows i v) (hmute : v.Mute q) :
    Alike q i (s.poll i) s' where
  left := h.left.poll i
  right := h.right
  length := by rw [length_tasks_poll, h.length]
  views := by
    intro k hk u
    simp [shows_poll_iff h.left, hk.symm, h.views k hk]
  bus := by rw [hv.only_poll, hmute.leave_eq, h.bus]

theorem poll_both (h : Alike q i s s') (hv : s.Shows i v) (hv' : s'.Shows i v')
    (hleave : v.leave q = v'.leave q) : Alike q i (s.poll i) (s'.poll i) where
  left := h.left.poll i
  right := h.right.poll i
  length := by rw [length_tasks_poll, length_tasks_poll, h.length]
  views := h.views_poll i
  bus := by rw [hv.only_poll, hv'.only_poll, hleave, h.bus]

theorem polls (h : Alike q i s s') {order : List Nat} (hi : i ∉ order) :
    Alike q i (order.foldl Session.poll s) (order.foldl Session.poll s') := by
  induction order generalizing s s' with
  | nil => exact h
  | cons j order ih =>
      obtain ⟨hj, horder⟩ := not_or.mp (List.mem_cons.not.mp hi)
      exact ih (h.poll (Ne.symm hj)) horder

theorem polls_left (h : Alike q i s s') (hv : s.Shows i v) (hmute : v.Mute q) (order : List Nat) :
    Alike q i (order.foldl Session.poll s) ((order.filter (· ≠ i)).foldl Session.poll s') := by
  induction order generalizing s s' v with
  | nil => exact h
  | cons j order ih =>
      by_cases hj : j = i
      · -- after this turn the stream has nothing left to give up
        subst hj
        rw [List.filter_cons_of_neg (by simp)]
        exact ih (h.poll_left hv hmute) (hv.poll_self h.left) v.mute_poll
      · rw [List.filter_cons_of_pos (by simpa using hj)]
        exact ih (h.poll hj) (hv.poll_ne h.left hj) hmute

theorem polls_of_mute (h : Alike q i s s') (hv : s.Shows i v) (hmute : v.Mute q)
    (hv' : s'.Shows i v') (hmute' : v'.Mute q) {order order' : List Nat}
    (horder : order.filter (· ≠ i) = order'.filter (· ≠ i)) :
    Alike q i (order.foldl Session.poll s) (order'.foldl Session.poll s') := by
  have hleft := h.polls_left hv hmute order
  have hright := (refl h.right).polls_left hv' hmute' order'
  rw [horder] at hleft
  exact hleft.trans hright.symm

theorem due_eq (h : Alike q i s s') : s.due.filter (· ≠ i) = s'.due.filter (· ≠ i) := by
  have hshown {k : Nat} (hk : k ≠ i) (hlt : k < s.tasks.length) :
      ∃ v, s.Shows k v ∧ s'.Shows k v := by
    obtain ⟨v, hv, -⟩ := h.left.shows (List.getElem?_eq_getElem hlt)
    exact ⟨v, hv, (h.views k hk v).mp hv⟩
  have hdue : ((List.range s.tasks.length).filter fun k =>
        ((s.tasks[k]?).map (·.isDue s.clock)).getD false).filter (· ≠ i) =
      ((List.range s'.tasks.length).filter fun k =>
        ((s'.tasks[k]?).map (·.isDue s'.clock)).getD false).filter (· ≠ i) := by
    rw [← h.length, List.filter_filter, List.filter_filter]
    apply List.filter_congr
    intro k hlt
    by_cases hk : k = i
    · simp [hk]
    · obtain ⟨v, hv, hv'⟩ := hshown hk (List.mem_range.mp hlt)
      rw [hv.task, hv'.task, hv.now, hv'.now]
  -- the same streams are put in the same order, as their deadlines are the same
  have hdeadlines : ∀ k ∈ ((List.range s.tasks.length).filter fun k =>
      ((s.tasks[k]?).map (·.isDue s.clock)).getD false).filter (· ≠ i),
      s'.deadlineOf (id k) = s.deadlineOf k := by
    intro k hmem
    obtain ⟨hmem, hk⟩ := List.mem_filter.mp hmem
    have hlt := List.mem_range.mp (List.mem_filter.mp hmem).1
    obtain ⟨v, hv, hv'⟩ := hshown (by simpa using hk) hlt
    rw [deadlineOf, deadlineOf, id, hv.task, hv'.task]
  have hsame := map_inOrder hdeadlines
  rw [List.map_id, List.map_id, hdue] at hsame
  unfold due
  rw [filter_inOrder, filter_inOrder, hdue]
  exact hsame

theorem settle_of_mute (h : Alike q i s s') (hv : s.Shows i v) (hmute : v.Mute q)
    (hv' : s'.Shows i v') (hmute' : v'.Mute q)
    (hready : s.ready.filter (· ≠ i) = s'.ready.filter (· ≠ i)) :
    Alike q i s.settle s'.settle := by
  apply h.unready.polls_of_mute hv.unready hmute hv'.unready hmute'
  rw [List.filter_append, List.filter_append, hready, h.due_eq]

/-- When both streams get their turn at the same point of a round, it is enough
that both give the channel up or none. -/
theorem settle_of_leave (h : Alike q i s s') (hready : s.ready = s'.ready) (hi : i ∈ s.ready)
    (hv : s.Shows i v) (hv' : s'.Shows i v') (hleave : v.leave q = v'.leave q) :
    Alike q i s.settle s'.settle := by
  -- the first turn of the stream splits the round; its later turns are not noticed
  obtain ⟨before, rest, hsplit, hnot⟩ := List.eq_append_cons_of_mem hi
  have hbefore := h.unready.polls hnot
  have hseen := hv.unready.polls h.left.unready before
  have hseen' := hv'.unready.polls h.right.unready before
  rw [if_neg hnot] at hseen hseen'
  have hturned := hbefore.poll_both hseen hseen' hleave
  have hrest : (rest ++ s.due).filter (· ≠ i) = (rest ++ s'.due).filter (· ≠ i) := by
    rw [List.filter_append, List.filter_append, h.due_eq]
  have hround := hturned.polls_of_mute (hseen.poll_self hbefore.left) v.mute_poll
    (hseen'.poll_self hbefore.right) v'.mute_poll hrest
  unfold Session.settle
  rw [← hready, hsplit]
  simpa using hround

end Alike

theorem only_polls (hs : s.Sound) (hv : s.Shows i v)
    (hothers : ∀ j, j ≠ i → ∀ u, s.Shows j u → u.Mute q) (order : List Nat) :
    (order.foldl Session.poll s).bus.only q =
      if i ∈ order then v.leave q (s.bus.only q) else s.bus.only q := by
  induction order generalizing s v with
  | nil => rfl
  | cons j order ih =>
      have hothers' : ∀ k, k ≠ i → ∀ u, (s.poll j).Shows k u → u.Mute q := by
        intro k hk u hu
        obtain ⟨w, hw, rfl⟩ := (shows_poll_iff hs).mp hu
        split
        · exact w.mute_poll
        · exact hothers k hk w hw
      rw [List.foldl_cons]
      by_cases hj : j = i
      · subst hj
        rw [ih (hs.poll j) (hv.poll_self hs) hothers', hv.only_poll, v.mute_poll.leave_eq]
        simp
      · have hquiet : (s.poll j).bus.only q = s.bus.only q := by
          cases htask : s.tasks[j]? with
          | none => rw [poll_of_none htask]
          | some t =>
              obtain ⟨u, hu, -⟩ := hs.shows htask
              rw [hu.only_poll, (hothers j hj u hu).leave_eq]
        rw [ih (hs.poll j) (hv.poll_ne hs hj) hothers', hquiet]
        simp [Ne.symm hj]

theorem only_settle (hs : s.Sound) (hv : s.Shows i v) (halert : s.Alert i v)
    (hothers : ∀ j, j ≠ i → ∀ u, s.Shows j u → u.Mute q) :
    s.settle.bus.only q = v.leave q (s.bus.only q) := by
  have hunready : ∀ j, j ≠ i → ∀ u, Shows { s with ready := [] } j u → u.Mute q :=
    fun j hj u hu => hothers j hj u (shows_unready_iff.mp hu)
  have honly := only_polls hs.unready hv.unready hunready (s.ready ++ s.due)
  refine Eq.trans honly ?_
  split
  · rfl
  next hnot =>
    -- a stream without a turn had nothing to do
    have hleft := hv.unready.polls hs.unready (s.ready ++ s.due)
    rw [if_neg hnot] at hleft
    have hsame : v = v.poll := (hv.settle hs halert).1.unique hleft
    have hmute : v.Mute q := by
      rw [hsame]
      exact v.mute_poll
    exact (hmute.leave_eq _).symm

end Session

end DevMachine

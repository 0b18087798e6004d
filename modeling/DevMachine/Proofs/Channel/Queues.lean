import DevMachine.Proofs.Channel.Claims

/-!
# The queues of a bus

The queue of frames for the endpoint holds what the operations have queued, and
nothing is ever taken out of it.  In the mailbox of whoever owns a channel there
is nothing but what was routed to the channel: a failure of everything ends the
ownership together with the mail.
-/

namespace DevMachine.Channel

namespace Bus

variable {b : Bus}

/-- The frames that an operation queues for the endpoint. -/
def queued (b : Bus) (op : Operation) : List Frame :=
  if b.isOpen then
    match op with
    | .send frame => [frame]
    | .subscribe channel => [.subscribe channel b.stamp]
    | .unsubscribe id =>
      match b.mailboxes[id]? with
      | some box =>
        if (b.owner? box.channel).all (· = id) then [.unsubscribe box.channel b.stamp] else []
      | none => []
    | _ => []
  else []

theorem outbound_send (b : Bus) (frame : Frame) :
    (b.send frame).2.outbound = b.outbound ++ if b.isOpen then [frame] else [] := by
  unfold send
  split <;> simp

theorem outbound_release (b : Bus) (channel : String) (id : Nat) :
    (b.release channel id).outbound =
      b.outbound ++ if b.isOpen ∧ (b.owner? channel).all (· = id) then
        [Frame.unsubscribe channel b.stamp] else [] := by
  unfold release
  cases howner : b.owner? channel with
  | none => simpa using outbound_send b (.unsubscribe channel b.stamp)
  | some j =>
      by_cases hj : j = id
      · have hsent := outbound_send (b.forget channel) (.unsubscribe channel b.stamp)
        simpa [hj, forget] using hsent
      · simp [hj]

/-- The queue of a bus holds what was queued, in that order. -/
theorem outbound_perform (b : Bus) (op : Operation) :
    (b.perform op).outbound = b.outbound ++ b.queued op := by
  have hnothing (h : (b.perform op).outbound = b.outbound) (hqueued : b.queued op = []) :
      (b.perform op).outbound = b.outbound ++ b.queued op := by
    rw [h, hqueued, List.append_nil]
  cases op with
  | send frame => exact outbound_send b frame
  | subscribe channel =>
      change (b.subscribe channel).2.outbound = _
      cases hopen : b.isOpen with
      | true =>
          rw [subscribe_of_open hopen]
          simp [queued, hopen, setOwner, addMailbox]
      | false =>
          rw [subscribe_of_closed hopen]
          simp [queued, hopen]
  | unsubscribe id =>
      change (b.unsubscribe id).outbound = _
      cases hbox : b.mailboxes[id]? with
      | none => simp [unsubscribe, queued, hbox]
      | some box =>
          simp only [unsubscribe, queued, hbox, outbound_release]
          by_cases hopen : b.isOpen = true <;> simp [hopen]
  | dispatch frame =>
      refine hnothing ?_ (by simp [queued])
      change (b.dispatch frame).outbound = b.outbound
      unfold dispatch
      split
      · exact outbound_deliver b _ _
      · exact outbound_deliver b _ _
      · rfl
  | failAll failure =>
      exact hnothing (outbound_postAll b.owners b _) (by simp [queued])
  | drop id => exact hnothing rfl (by simp [queued])
  | next id => exact hnothing rfl (by simp [queued])
  | clear => exact hnothing rfl (by simp [queued])
  | closeOutbound => exact hnothing rfl (by simp [queued])

theorem outbound_run_of_queued {ops : List Operation}
    (hops : ∀ op ∈ ops, ∀ b : Bus, b.queued op = []) : (b.run ops).outbound = b.outbound := by
  induction ops generalizing b with
  | nil => rfl
  | cons op ops ih =>
      have hfirst : (b.perform op).outbound = b.outbound := by
        rw [outbound_perform, hops op List.mem_cons_self, List.append_nil]
      exact (ih fun op' hop' => hops op' (List.mem_cons_of_mem op hop')).trans hfirst

/-- The bodies of events and the errors of a channel are routed; failures of
everything are not. -/
def IsRouted : Item → Prop
  | .ok _ => True
  | .error (.remote _ _) => True
  | .error _ => False

/-- Who owns a channel has found nothing but routed items so far. -/
def OwnersHearRouted (b : Bus) : Prop :=
  ∀ entry ∈ b.owners, ∀ box, b.mailboxes[entry.2]? = some box → ∀ item ∈ box.items, IsRouted item

theorem OwnersHearRouted.of_subset {b' : Bus} (h : b.OwnersHearRouted)
    (howners : b'.owners ⊆ b.owners)
    (hmailboxes : ∀ (id : Nat) (box' : Mailbox), b'.mailboxes[id]? = some box' →
      ∃ box, b.mailboxes[id]? = some box ∧
        ∀ item ∈ box'.items, item ∈ box.items ∨ IsRouted item) : b'.OwnersHearRouted := by
  intro entry hentry box' hbox' item hitem
  obtain ⟨box, hbox, hitems⟩ := hmailboxes entry.2 box' hbox'
  rcases hitems item hitem with hold | hrouted
  · exact h entry (howners hentry) box hbox item hold
  · exact hrouted

theorem OwnersHearRouted.updateMailbox (h : b.OwnersHearRouted) (id : Nat) {f : Mailbox → Mailbox}
    (hf : ∀ box, ∀ item ∈ (f box).items, item ∈ box.items ∨ IsRouted item) :
    (b.updateMailbox id f).OwnersHearRouted := by
  refine h.of_subset (List.Subset.refl _) ?_
  intro j box' hbox'
  by_cases hj : id = j
  · subst hj
    rw [mailbox_updateMailbox_self, Option.map_eq_some_iff] at hbox'
    obtain ⟨box, hbox, rfl⟩ := hbox'
    exact ⟨box, hbox, hf box⟩
  · rw [mailbox_updateMailbox_ne b hj] at hbox'
    exact ⟨box', hbox', fun item hitem => .inl hitem⟩

theorem OwnersHearRouted.of_same {b' : Bus} (h : b.OwnersHearRouted)
    (howners : b'.owners ⊆ b.owners) (hmailboxes : b'.mailboxes = b.mailboxes) :
    b'.OwnersHearRouted := by
  refine h.of_subset howners ?_
  intro id box' hbox'
  rw [hmailboxes] at hbox'
  exact ⟨box', hbox', fun item hitem => .inl hitem⟩

theorem OwnersHearRouted.subscribe (h : b.OwnersHearRouted) (hb : b.WellFormed)
    (channel : String) : (b.subscribe channel).2.OwnersHearRouted := by
  cases hopen : b.isOpen with
  | false =>
      rw [subscribe_of_closed hopen]
      exact h
  | true =>
      have hmailboxes := mailboxes_subscribe_of_open hopen channel
      have howners : (b.subscribe channel).2.owners =
          (channel, b.mailboxes.length) :: (b.forget channel).owners := by
        rw [subscribe_of_open hopen]
        rfl
      intro entry hentry box hbox item hitem
      rw [hmailboxes] at hbox
      rw [howners, List.mem_cons] at hentry
      rcases hentry with rfl | hentry
      · -- the new mailbox is empty
        rw [List.getElem?_concat_length, Option.some.injEq] at hbox
        subst hbox
        cases hitem
      · have hold := (List.mem_filter.mp hentry).1
        have hlt : entry.2 < b.mailboxes.length := by
          obtain ⟨box₀, hbox₀, -⟩ := Option.map_eq_some_iff.mp (hb.own entry hold)
          exact (List.getElem?_eq_some_iff.mp hbox₀).1
        rw [List.getElem?_append_left hlt] at hbox
        exact h entry hold box hbox item hitem

theorem OwnersHearRouted.deliver (h : b.OwnersHearRouted) (channel : String) {item : Item}
    (hitem : IsRouted item) : (b.deliver channel item).OwnersHearRouted := by
  unfold Bus.deliver
  split
  · split
    · exact h.of_same (List.filter_subset_self _) rfl
    · apply h.updateMailbox
      intro box item' hitem'
      split at hitem'
      · exact .inl hitem'
      · rcases List.mem_append.mp hitem' with hold | hnew
        · exact .inl hold
        · rw [List.mem_singleton.mp hnew]
          exact .inr hitem
  · exact h

theorem owners_release_subset (b : Bus) (channel : String) (id : Nat) :
    (b.release channel id).owners ⊆ b.owners := by
  unfold release
  split
  · split
    · rw [owners_send]
      exact List.filter_subset_self _
    · exact List.Subset.refl _
  · rw [owners_send]
    exact List.Subset.refl _

theorem owners_unsubscribe_subset (b : Bus) (id : Nat) : (b.unsubscribe id).owners ⊆ b.owners := by
  unfold unsubscribe
  split
  · exact owners_release_subset b _ id
  · exact List.Subset.refl _

theorem owners_deliver_subset (b : Bus) (channel : String) (item : Item) :
    (b.deliver channel item).owners ⊆ b.owners := by
  unfold deliver
  split
  · split
    · exact List.filter_subset_self _
    · exact List.Subset.refl _
  · exact List.Subset.refl _

theorem owns_perform_of_not_owns {id : Nat} (hid : id < b.mailboxes.length)
    (howns : b.owns id = false) (op : Operation) : (b.perform op).owns id = false := by
  have hsubset {b' : Bus} (h : b'.owners ⊆ b.owners) : b'.owns id = false := by
    rw [owns, List.any_eq_false] at howns ⊢
    exact fun entry hentry => howns entry (h hentry)
  cases op with
  | subscribe channel =>
      change (b.subscribe channel).2.owns id = false
      cases hopen : b.isOpen with
      | false =>
          rw [subscribe_of_closed hopen]
          exact howns
      | true =>
          have hforget : (b.forget channel).owns id = false :=
            hsubset (List.filter_subset_self _)
          rw [subscribe_of_open hopen]
          simp only [owns, setOwner, List.any_cons, Bool.or_eq_false_iff, decide_eq_false_iff_not]
          exact ⟨Nat.ne_of_gt hid, hforget⟩
  | unsubscribe j => exact hsubset (owners_unsubscribe_subset b j)
  | dispatch frame =>
      change (b.dispatch frame).owns id = false
      unfold dispatch
      split
      · exact hsubset (owners_deliver_subset b _ _)
      · exact hsubset (owners_deliver_subset b _ _)
      · exact howns
  | failAll failure => exact hsubset (List.nil_subset _)
  | clear => exact hsubset (List.nil_subset _)
  | send frame =>
      change (b.send frame).2.owns id = false
      rw [owns, owners_send]
      exact howns
  | drop j => exact howns
  | next j => exact howns
  | closeOutbound => exact howns

theorem OwnersHearRouted.perform (h : b.OwnersHearRouted) (hb : b.WellFormed) (op : Operation) :
    (b.perform op).OwnersHearRouted := by
  cases op with
  | subscribe channel => exact h.subscribe hb channel
  | unsubscribe id => exact h.of_same (owners_unsubscribe_subset b id) (mailboxes_unsubscribe b id)
  | drop id => exact h.updateMailbox id fun box item hitem => by cases hitem
  | next id => exact h.updateMailbox id fun box item hitem => .inl (List.mem_of_mem_tail hitem)
  | dispatch frame =>
      change (b.dispatch frame).OwnersHearRouted
      unfold Bus.dispatch
      split
      · exact h.deliver _ trivial
      · exact h.deliver _ trivial
      · exact h
  | send frame =>
      exact h.of_same (by rw [Bus.perform, owners_send]; exact List.Subset.refl _)
        (mailboxes_send b frame)
  | failAll failure => exact fun entry hentry => by cases hentry
  | clear => exact fun entry hentry => by cases hentry
  | closeOutbound => exact h.of_same (List.Subset.refl _) rfl

theorem OwnersHearRouted.run (h : b.OwnersHearRouted) (hb : b.WellFormed)
    (ops : List Operation) : (b.run ops).OwnersHearRouted := by
  induction ops generalizing b with
  | nil => exact h
  | cons op ops ih => exact ih (h.perform hb op) (hb.perform op)

/-- Nobody owns a channel of the bus and nobody will. -/
structure Over (b : Bus) : Prop where
  closed : b.isOpen = false
  unowned : b.owners = []

theorem Over.perform (h : b.Over) (op : Operation) : (b.perform op).Over := by
  have hclosed : (b.perform op).isOpen = false := by
    rw [isOpen_perform, h.closed, Bool.false_and]
  have hnobody (c : String) : b.owner? c = none := by simp [owner?, h.unowned]
  refine ⟨hclosed, ?_⟩
  cases op with
  | subscribe channel =>
      change (b.subscribe channel).2.owners = []
      rw [subscribe_of_closed h.closed]
      exact h.unowned
  | unsubscribe id =>
      have hsubset := owners_unsubscribe_subset b id
      rw [h.unowned] at hsubset
      exact List.subset_nil.mp hsubset
  | dispatch frame =>
      have hdeliver (c : String) (item : Item) : (b.deliver c item).owners = [] := by
        simp [deliver, hnobody, h.unowned]
      change (b.dispatch frame).owners = []
      unfold dispatch
      split
      · exact hdeliver _ _
      · exact hdeliver _ _
      · exact h.unowned
  | send frame => exact (owners_send b frame).trans h.unowned
  | failAll failure => rfl
  | clear => rfl
  | drop id => exact h.unowned
  | next id => exact h.unowned
  | closeOutbound => exact h.unowned

theorem Over.run (h : b.Over) (ops : List Operation) : (b.run ops).Over := by
  induction ops generalizing b with
  | nil => exact h
  | cons op ops ih => exact ih (h.perform op)

theorem run_append (b : Bus) (ops more : List Operation) :
    b.run (ops ++ more) = (b.run ops).run more := List.foldl_append

end Bus

end DevMachine.Channel

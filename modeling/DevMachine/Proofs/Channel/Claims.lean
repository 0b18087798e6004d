import DevMachine.Proofs.Channel.Routing

/-!
# Claims on channels

All that the endpoint knows of a channel are the frames that subscribe to it and
the frames that give it up.  Only a subscription and its end queue such frames,
one each, and neither of them touches another channel.
-/

namespace DevMachine.Channel

/-- What a frame tells the endpoint about a channel. -/
inductive Claim
  | taken
  | given
  deriving DecidableEq, Repr

def Frame.claim? (channel : String) : Frame → Option Claim
  | .subscribe c _ => if channel = c then some .taken else none
  | .unsubscribe c _ => if channel = c then some .given else none
  | _ => none

/-- A channel is taken first and then given up and taken in turn. -/
def Alternates (claims : List Claim) : Prop :=
  ∀ (k : Nat) (claim : Claim), claims[k]? = some claim → (claim = .taken ↔ k % 2 = 0)

theorem alternates_concat {claims : List Claim} {claim : Claim} :
    Alternates (claims ++ [claim]) ↔
      Alternates claims ∧ (claim = .taken ↔ claims.length % 2 = 0) := by
  constructor
  · intro h
    refine ⟨?_, h claims.length claim (by simp)⟩
    intro k earlier hk
    have hlt := (List.getElem?_eq_some_iff.mp hk).1
    exact h k earlier (by rw [List.getElem?_append_left hlt, hk])
  · rintro ⟨h, hlast⟩ k later hk
    rcases Nat.lt_trichotomy k claims.length with hlt | rfl | hlt
    · rw [List.getElem?_append_left hlt] at hk
      exact h k later hk
    · rw [List.getElem?_concat_length, Option.some.injEq] at hk
      rwa [← hk]
    · rw [List.getElem?_eq_none (by simp; omega)] at hk
      cases hk

/-- A channel is taken at the end iff it was claimed an odd number of times. -/
theorem Alternates.taken_iff {claims : List Claim} (h : Alternates claims) :
    claims.getLast? = some .taken ↔ claims.length % 2 = 1 := by
  rw [List.getLast?_eq_getElem?]
  cases hlast : claims[claims.length - 1]? with
  | none =>
      have hempty : claims.length = 0 := by
        have hle := List.getElem?_eq_none_iff.mp hlast
        omega
      simp [hempty]
  | some claim =>
      have hlt := (List.getElem?_eq_some_iff.mp hlast).1
      rw [Option.some.injEq, h _ claim hlast]
      omega

theorem Alternates.take {claims : List Claim} (h : Alternates claims)
    (hgiven : claims.getLast? ≠ some .taken) : Alternates (claims ++ [.taken]) := by
  rw [Ne, h.taken_iff] at hgiven
  exact alternates_concat.mpr ⟨h, by simp; omega⟩

theorem Alternates.give {claims : List Claim} (h : Alternates claims)
    (htaken : claims.getLast? = some .taken) : Alternates (claims ++ [.given]) := by
  rw [h.taken_iff] at htaken
  exact alternates_concat.mpr ⟨h, by simp; omega⟩

namespace Bus

/-- The claims on a channel that were queued for the endpoint. -/
def claims (b : Bus) (channel : String) : List Claim :=
  b.outbound.filterMap (Frame.claim? channel)

variable {b : Bus} {channel c : String} {id : Nat}

theorem claims_send (hopen : b.isOpen = true) (frame : Frame) :
    (b.send frame).2.claims channel = b.claims channel ++ (frame.claim? channel).toList := by
  simp only [send, hopen, if_true, claims, List.filterMap_append]
  cases hclaim : frame.claim? channel <;> simp [hclaim]

theorem outbound_postAll (entries : List (String × Nat)) (b : Bus) (item : Item) :
    (entries.foldl (fun b entry => b.post entry.2 item) b).outbound = b.outbound := by
  induction entries generalizing b with
  | nil => rfl
  | cons entry entries ih => exact ih (b.post entry.2 item)

theorem outbound_deliver (b : Bus) (c : String) (item : Item) :
    (b.deliver c item).outbound = b.outbound := by
  unfold deliver
  split
  · split <;> rfl
  · rfl

theorem claims_dispatch (b : Bus) (frame : Frame) :
    (b.dispatch frame).claims channel = b.claims channel := by
  unfold claims dispatch
  split
  · rw [outbound_deliver]
  · rw [outbound_deliver]
  · rfl

theorem claims_failAll (b : Bus) (failure : Failure) :
    (b.failAll failure).claims channel = b.claims channel := by
  have hsame : (b.failAll failure).outbound = b.outbound := outbound_postAll b.owners b _
  rw [claims, hsame, claims]

theorem claims_subscribe (hopen : b.isOpen = true) :
    (b.subscribe c).2.claims channel =
      b.claims channel ++ if channel = c then [.taken] else [] := by
  have hsame : (b.subscribe c).2.outbound = (b.send (.subscribe c b.stamp)).2.outbound := by
    rw [subscribe_of_open hopen]
    simp only [send, hopen, if_true]
    rfl
  have hsent : (b.send (.subscribe c b.stamp)).2.claims channel =
      b.claims channel ++ (Frame.claim? channel (.subscribe c b.stamp)).toList :=
    claims_send hopen _
  rw [claims, hsame, ← claims, hsent, Frame.claim?]
  by_cases hc : channel = c <;> simp [hc]

/-- Giving a channel up is told to the endpoint unless somebody else owns it. -/
theorem claims_release (hopen : b.isOpen = true)
    (howner : b.owner? c = some id ∨ b.owner? c = none) :
    (b.release c id).claims channel =
      b.claims channel ++ if channel = c then [.given] else [] := by
  have hsent (b : Bus) (hopen : b.isOpen = true) :
      (b.send (.unsubscribe c b.stamp)).2.claims channel =
        b.claims channel ++ if channel = c then [.given] else [] := by
    rw [claims_send hopen, Frame.claim?]
    by_cases hc : channel = c <;> simp [hc]
  unfold release
  rcases howner with howner | howner
  · simp only [howner, if_true]
    exact hsent (b.forget c) hopen
  · simp only [howner]
    exact hsent b hopen

theorem mem_channels_iff : channel ∈ b.channels ↔ (b.owner? channel).isSome := by
  rw [channels, List.mem_mergeSort, owner?, Option.isSome_map, List.find?_isSome, List.mem_map]
  simp

/-- The reader of a subscription owns the channel or finds a failure, in which
case nobody owns the channel. -/
def Informed (b : Bus) (channel : String) (id : Nat) : Prop :=
  ∃ items, b.Holds channel id items ∧
    (b.owner? channel = some id ∨
      b.owner? channel = none ∧ ∃ e, Except.error e ∈ items)

theorem Informed.of_same {b' : Bus} (h : b.Informed channel id)
    (howner : b'.owner? channel = b.owner? channel)
    (hbox : b'.mailboxes[id]? = b.mailboxes[id]?) : b'.Informed channel id := by
  unfold Informed Holds
  rw [howner, hbox]
  exact h

theorem owner?_send (b : Bus) (frame : Frame) :
    (b.send frame).2.owner? channel = b.owner? channel := by
  rw [owner?, owner?, owners_send]

theorem Informed.send (h : b.Informed channel id) (frame : Frame) :
    (b.send frame).2.Informed channel id :=
  h.of_same (owner?_send b frame) (by rw [mailboxes_send])

theorem owner?_dispatch_of_none (hnone : b.owner? channel = none) (frame : Frame) :
    (b.dispatch frame).owner? channel = none := by
  have hdeliver (c : String) (item : Item) : (b.deliver c item).owner? channel = none := by
    rw [owner?_deliver, hnone, ite_self]
  unfold Bus.dispatch
  split
  · exact hdeliver _ _
  · exact hdeliver _ _
  · exact hnone

theorem Holds.owner?_dispatch {items : List Item} (hheld : b.Holds channel id items)
    (howner : b.owner? channel = some id) (frame : Frame) :
    (b.dispatch frame).owner? channel = some id := by
  have hdeliver (c : String) (item : Item) : (b.deliver c item).owner? channel = some id := by
    rw [owner?_deliver, if_neg, howner]
    rintro ⟨rfl, hdropped⟩
    simp [howner, hheld.isDropped_eq] at hdropped
  unfold Bus.dispatch
  split
  · exact hdeliver _ _
  · exact hdeliver _ _
  · exact howner

theorem Informed.dispatch (h : b.Informed channel id) (hb : b.WellFormed) (frame : Frame) :
    (b.dispatch frame).Informed channel id := by
  obtain ⟨items, hheld, howner | ⟨hnone, e, he⟩⟩ := h
  · exact ⟨_, hheld.dispatch hb frame, .inl (hheld.owner?_dispatch howner frame)⟩
  · exact ⟨_, hheld.dispatch hb frame, .inr ⟨owner?_dispatch_of_none hnone frame, e,
      List.mem_append_left _ he⟩⟩

theorem Informed.failAll (h : b.Informed channel id) (hb : b.WellFormed) (failure : Failure) :
    (b.failAll failure).Informed channel id := by
  obtain ⟨items, hheld, howner | ⟨hnone, e, he⟩⟩ := h
  · refine ⟨_, hheld.failAll hb failure, .inr ⟨rfl, failure, ?_⟩⟩
    have howns : b.owns id = true := by simp [hheld.owns_eq hb, howner]
    simp [howns]
  · exact ⟨_, hheld.failAll hb failure, .inr ⟨rfl, e, List.mem_append_left _ he⟩⟩

theorem owner?_subscribe (hopen : b.isOpen = true) :
    (b.subscribe c).2.owner? channel =
      if channel = c then some b.mailboxes.length else b.owner? channel := by
  rw [subscribe_of_open hopen, owner?_setOwner]
  rfl

theorem Informed.subscribe_ne (h : b.Informed channel id) (hopen : b.isOpen = true)
    (hc : channel ≠ c) : (b.subscribe c).2.Informed channel id := by
  obtain ⟨items, hheld, howner⟩ := h
  refine ⟨items, hheld.subscribe c, ?_⟩
  rw [owner?_subscribe hopen, if_neg hc]
  exact howner

theorem informed_subscribe (hopen : b.isOpen = true) :
    (b.subscribe channel).2.Informed channel b.mailboxes.length := by
  refine ⟨[], ?_, .inl ?_⟩
  · rw [Holds, mailboxes_subscribe_of_open hopen, List.getElem?_concat_length]
  · rw [owner?_subscribe hopen, if_pos rfl]

theorem Informed.ne (h : b.Informed channel id) {j : Nat} (h' : b.Informed c j)
    (hc : channel ≠ c) : j ≠ id := by
  rintro rfl
  obtain ⟨items, hheld, -⟩ := h
  obtain ⟨items', hheld', -⟩ := h'
  rw [Holds, hheld, Option.some.injEq, Mailbox.mk.injEq] at hheld'
  exact hc hheld'.1

theorem Informed.owner? (h : b.Informed channel id) :
    b.owner? channel = some id ∨ b.owner? channel = none := by
  obtain ⟨items, -, howner | ⟨hnone, -⟩⟩ := h
  · exact .inl howner
  · exact .inr hnone

theorem Informed.unsubscribe_eq (h : b.Informed channel id) :
    b.unsubscribe id = b.release channel id := by
  obtain ⟨items, hheld, -⟩ := h
  have hbox : b.mailboxes[id]? = some { channel, items } := hheld
  simp [unsubscribe, hbox]

/-- Whoever gives up a channel that it was informed of leaves it to nobody. -/
theorem Informed.owner?_release (h : b.Informed channel id) :
    (b.release channel id).owner? channel = none := by
  rw [Bus.owner?_release]
  rcases h.owner? with howner | hnone
  · simp [howner]
  · simp [hnone]

end Bus

end DevMachine.Channel

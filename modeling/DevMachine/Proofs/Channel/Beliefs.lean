import DevMachine.Proofs.Channel.Queues

/-!
# What the endpoint believes

The endpoint goes by the last claim on a channel that was queued for it.  It may
believe in an owner who is gone: a reader that goes away is only noticed when the
next item arrives, and a failure of everything is not told at all.  But no channel
with an owner passes for one that was given up.
-/

namespace DevMachine.Channel.Bus

variable {b b' : Bus} {channel : String}

/-- If the channel has an owner, the endpoint was told last that it is taken. -/
def Believed (b : Bus) (channel : String) : Prop :=
  channel ∈ b.channels → (b.claims channel).getLast? = some .taken

/-- What may become of a channel and of the claims on it in one operation. -/
inductive Change (b b' : Bus) (channel : String) : Prop
  | quiet (hclaims : b'.claims channel = b.claims channel)
      (howned : channel ∈ b'.channels → channel ∈ b.channels)
  | takes (hclaims : b'.claims channel = b.claims channel ++ [.taken])
  | gives (hclaims : b'.claims channel = b.claims channel ++ [.given])
      (hunowned : channel ∉ b'.channels)

theorem Believed.of_change (h : b.Believed channel) (hchange : Change b b' channel) :
    b'.Believed channel := by
  intro howned'
  cases hchange with
  | quiet hclaims howned =>
      rw [hclaims]
      exact h (howned howned')
  | takes hclaims => rw [hclaims, List.getLast?_concat]
  | gives hclaims hunowned => exact absurd howned' hunowned

theorem channels_subset (howners : b'.owners ⊆ b.owners) : b'.channels ⊆ b.channels := by
  intro c hc
  rw [channels, List.mem_mergeSort] at hc ⊢
  exact List.map_subset Prod.fst howners hc

theorem Change.of_subset (howners : b'.owners ⊆ b.owners) (houtbound : b'.outbound = b.outbound) :
    Change b b' channel :=
  .quiet (by rw [claims, claims, houtbound]) fun howned => channels_subset howners howned

theorem change_subscribe (b : Bus) (c channel : String) :
    Change b (b.subscribe c).2 channel := by
  cases hopen : b.isOpen with
  | false =>
      rw [subscribe_of_closed hopen]
      exact .of_subset (List.Subset.refl _) rfl
  | true =>
      have hclaims : (b.subscribe c).2.claims channel =
          b.claims channel ++ if channel = c then [.taken] else [] := claims_subscribe hopen
      by_cases hc : channel = c
      · exact .takes (by rw [hclaims, if_pos hc])
      · refine .quiet (by rw [hclaims, if_neg hc, List.append_nil]) ?_
        rw [mem_channels_iff, mem_channels_iff, owner?_subscribe hopen, if_neg hc]
        exact id

/-- Whoever gives a channel up leaves it to another owner, and then says nothing,
or to nobody. -/
theorem change_release (b : Bus) (c : String) (id : Nat) (channel : String) :
    Change b (b.release c id) channel := by
  have hsubset := owners_release_subset b c id
  have houtbound := outbound_release b c id
  by_cases htold : b.isOpen ∧ (b.owner? c).all (· = id)
  · obtain ⟨hopen, hall⟩ := htold
    have howner : b.owner? c = some id ∨ b.owner? c = none := by
      cases howner : b.owner? c with
      | none => exact .inr rfl
      | some j =>
          have hj : j = id := by simpa [howner] using hall
          exact .inl (by rw [hj])
    have hclaims : (b.release c id).claims channel =
        b.claims channel ++ if channel = c then [.given] else [] := claims_release hopen howner
    by_cases hc : channel = c
    · refine .gives (by rw [hclaims, if_pos hc]) ?_
      rw [mem_channels_iff, owner?_release, hc]
      rcases howner with howner | howner <;> simp [howner]
    · refine .quiet (by rw [hclaims, if_neg hc, List.append_nil]) ?_
      exact fun howned => channels_subset hsubset howned
  · rw [if_neg htold, List.append_nil] at houtbound
    exact .of_subset hsubset houtbound

theorem change_perform (b : Bus) (op : Operation)
    (hhand : ∀ frame, op = .send frame → frame.claim? channel = none) :
    Change b (b.perform op) channel := by
  cases op with
  | subscribe c => exact change_subscribe b c channel
  | unsubscribe id =>
      change Change b (b.unsubscribe id) channel
      unfold unsubscribe
      split
      · exact change_release b _ id channel
      · exact .of_subset (List.Subset.refl _) rfl
  | dispatch frame =>
      change Change b (b.dispatch frame) channel
      unfold dispatch
      split
      · exact .of_subset (owners_deliver_subset b _ _) (outbound_deliver b _ _)
      · exact .of_subset (owners_deliver_subset b _ _) (outbound_deliver b _ _)
      · exact .of_subset (List.Subset.refl _) rfl
  | send frame =>
      have hchannels : (b.send frame).2.channels = b.channels := by
        rw [channels, channels, owners_send]
      refine .quiet ?_ fun howned => hchannels ▸ howned
      change (b.send frame).2.claims channel = b.claims channel
      rw [claims, outbound_send, List.filterMap_append, claims]
      cases b.isOpen <;> simp [hhand frame rfl]
  | failAll failure => exact .of_subset (List.nil_subset _) (outbound_postAll b.owners b _)
  | clear => exact .of_subset (List.nil_subset _) rfl
  | drop id => exact .of_subset (List.Subset.refl _) rfl
  | next id => exact .of_subset (List.Subset.refl _) rfl
  | closeOutbound => exact .of_subset (List.Subset.refl _) rfl

theorem Believed.run {ops : List Operation} (h : b.Believed channel)
    (hhand : ∀ frame, .send frame ∈ ops → frame.claim? channel = none) :
    (b.run ops).Believed channel := by
  induction ops generalizing b with
  | nil => exact h
  | cons op ops ih =>
      have hchange : Change b (b.perform op) channel :=
        change_perform b op fun frame heq => hhand frame (by simp [heq])
      exact ih (h.of_change hchange) fun frame hmem => hhand frame (List.mem_cons_of_mem op hmem)

/-- As long as nobody sends claims on a channel by hand, the endpoint was told
last that the channel is taken whenever somebody owns it. -/
theorem owned_channel_claimed_last (stamp : Int64) (ops : List Operation) (channel : String)
    (hhand : ∀ frame, .send frame ∈ ops → frame.claim? channel = none)
    (howned : channel ∈ (run { stamp } ops).channels) :
    ((run { stamp } ops).claims channel).getLast? = some .taken := by
  have hinitial : Believed { stamp } channel := by
    intro hmem
    simp [channels] at hmem
  exact hinitial.run hhand howned

/-- A channel changes hands, is given up again and again, and is lost in between. -/
theorem claimed_last_past_old_handles :
    let ops : List Operation :=
      [.subscribe "logs", .subscribe "logs", .unsubscribe 0, .unsubscribe 1, .unsubscribe 1,
        .unsubscribe 0, .subscribe "logs", .subscribe "status", .drop 3,
        .dispatch (.event "status" .null), .send (.heartbeat 7), .failAll .closed,
        .unsubscribe 2, .subscribe "logs", .unsubscribe 2, .closeOutbound, .subscribe "logs",
        .unsubscribe 3]
    (∀ frame, .send frame ∈ ops → frame.claim? "logs" = none) ∧
      "logs" ∈ (run {} ops).channels ∧
      ((run {} ops).claims "logs").getLast? = some .taken := by
  intro ops
  have hhand : ∀ frame, .send frame ∈ ops → frame.claim? "logs" = none := by
    intro frame hmem
    have hframe : frame = .heartbeat 7 := by simpa [ops] using hmem
    rw [hframe]
    rfl
  have howned : "logs" ∈ (run {} ops).channels := by decide +kernel
  exact ⟨hhand, howned, owned_channel_claimed_last 0 ops "logs" hhand howned⟩

end DevMachine.Channel.Bus

import DevMachine.Channel.Bus
import Mathlib.Data.List.Nodup
import Mathlib.Tactic.Common

/-!
# Single operations of the bus

The table of owners names each channel and each subscription at most once, and
a subscription owns no channel but its own.  Under this invariant an operation
is described by what it does to one subscription: to its mailbox and to whether
it owns its channel.
-/

namespace DevMachine.Channel

def Mailbox.receive (item : Item) (box : Mailbox) : Mailbox :=
  if box.dropped then box else { box with items := box.items ++ [item] }

namespace Bus

/-- A call on the bus or on one of its subscriptions. -/
inductive Operation
  | subscribe (channel : String)
  | unsubscribe (id : Nat)
  | drop (id : Nat)
  | next (id : Nat)
  | dispatch (frame : Frame)
  | send (frame : Frame)
  | failAll (failure : Failure)
  | clear
  | closeOutbound

def perform (b : Bus) : Operation → Bus
  | .subscribe channel => (b.subscribe channel).2
  | .unsubscribe id => b.unsubscribe id
  | .drop id => b.drop id
  | .next id => (b.next id).2
  | .dispatch frame => b.dispatch frame
  | .send frame => (b.send frame).2
  | .failAll failure => b.failAll failure
  | .clear => b.clear
  | .closeOutbound => b.closeOutbound

def run (b : Bus) (ops : List Operation) : Bus := ops.foldl perform b

/-- Each channel has one owner at most, each subscription owns one channel at
most, and that is the channel it was made for. -/
structure WellFormed (b : Bus) : Prop where
  channels : (b.owners.map Prod.fst).Nodup
  ids : (b.owners.map Prod.snd).Nodup
  own : ∀ entry ∈ b.owners, (b.mailboxes[entry.2]?).map Mailbox.channel = some entry.1

theorem wellFormed_initial (stamp : Int64) : WellFormed { stamp } := by
  constructor <;> simp

variable {b : Bus} {channel : String} {id : Nat}

theorem owner?_eq_some_iff (hb : b.WellFormed) :
    b.owner? channel = some id ↔ (channel, id) ∈ b.owners := by
  unfold owner?
  rw [Option.map_eq_some_iff]
  constructor
  · rintro ⟨entry, hfind, rfl⟩
    have hmem := List.mem_of_find?_eq_some hfind
    have hkey : entry.1 = channel := by simpa using List.find?_some hfind
    rw [← hkey]
    exact hmem
  · intro hmem
    cases hfind : b.owners.find? (·.1 = channel) with
    | none =>
        have hnone := List.find?_eq_none.mp hfind (channel, id) hmem
        simp at hnone
    | some entry =>
        have hentry := List.mem_of_find?_eq_some hfind
        have hkey : entry.1 = channel := by simpa using List.find?_some hfind
        have heq := List.inj_on_of_nodup_map hb.channels hentry hmem hkey
        exact ⟨entry, rfl, by rw [heq]⟩

theorem owns_eq_true_iff : b.owns id = true ↔ ∃ channel, (channel, id) ∈ b.owners := by
  simp [owns]

theorem owns_iff (hb : b.WellFormed) {box : Mailbox} (hbox : b.mailboxes[id]? = some box) :
    b.owns id = true ↔ b.owner? box.channel = some id := by
  rw [owns_eq_true_iff, owner?_eq_some_iff hb]
  constructor
  · rintro ⟨c, hmem⟩
    have hown := hb.own _ hmem
    rw [hbox, Option.map_some, Option.some.injEq] at hown
    rw [hown]
    exact hmem
  · exact fun hmem => ⟨_, hmem⟩

/-- What is found in a table from which one key was removed. -/
theorem find?_filter_ne (entries : List (String × Nat)) (c channel : String) :
    ((entries.filter (·.1 ≠ c)).find? (·.1 = channel)).map (·.2) =
      if channel = c then none else (entries.find? (·.1 = channel)).map (·.2) := by
  rw [List.find?_filter]
  split
  next heq =>
    subst heq
    rw [Option.map_eq_none_iff, List.find?_eq_none]
    simp
  next hne =>
    congr 2
    funext entry
    by_cases hentry : entry.1 = channel <;> simp [hentry, hne]

@[simp] theorem owner?_forget (b : Bus) (c channel : String) :
    (b.forget c).owner? channel = if channel = c then none else b.owner? channel :=
  find?_filter_ne b.owners c channel

@[simp] theorem owner?_setOwner (b : Bus) (c channel : String) (id : Nat) :
    (b.setOwner c id).owner? channel = if channel = c then some id else b.owner? channel := by
  have hforget := owner?_forget b c channel
  unfold owner? at hforget ⊢
  unfold setOwner
  rw [List.find?_cons]
  by_cases heq : channel = c
  · simp [heq]
  · rw [if_neg heq] at hforget ⊢
    simp only [Ne.symm heq, decide_false]
    exact hforget

theorem WellFormed.forget (hb : b.WellFormed) (c : String) : (b.forget c).WellFormed where
  channels := hb.channels.sublist (List.filter_sublist.map _)
  ids := hb.ids.sublist (List.filter_sublist.map _)
  own := fun entry hentry => hb.own entry (List.mem_filter.mp hentry).1

theorem wellFormed_clear (b : Bus) : b.clear.WellFormed := by
  constructor <;> simp [clear]

theorem WellFormed.of_mailboxes {b' : Bus} (hb : b.WellFormed) (howners : b'.owners = b.owners)
    (hmailboxes : ∀ (j : Nat) (channel : String),
      (b.mailboxes[j]?).map Mailbox.channel = some channel →
        (b'.mailboxes[j]?).map Mailbox.channel = some channel) : b'.WellFormed where
  channels := by
    rw [howners]
    exact hb.channels
  ids := by
    rw [howners]
    exact hb.ids
  own := by
    rw [howners]
    exact fun entry hentry => hmailboxes _ _ (hb.own entry hentry)

theorem channel_updateMailbox (b : Bus) (id j : Nat) {f : Mailbox → Mailbox}
    (hf : ∀ box, (f box).channel = box.channel) :
    ((b.updateMailbox id f).mailboxes[j]?).map Mailbox.channel =
      (b.mailboxes[j]?).map Mailbox.channel := by
  have hcomp : Mailbox.channel ∘ f = Mailbox.channel := funext hf
  by_cases hj : id = j <;> simp [updateMailbox, hj, hcomp]

theorem WellFormed.updateMailbox (hb : b.WellFormed) (id : Nat) {f : Mailbox → Mailbox}
    (hf : ∀ box, (f box).channel = box.channel) : (b.updateMailbox id f).WellFormed := by
  have howners : (b.updateMailbox id f).owners = b.owners := rfl
  apply hb.of_mailboxes howners
  intro j channel hchannel
  rw [channel_updateMailbox b id j hf]
  exact hchannel

theorem post_eq (b : Bus) (id : Nat) (item : Item) :
    b.post id item = b.updateMailbox id (Mailbox.receive item) := rfl

theorem receive_channel (item : Item) (box : Mailbox) :
    (box.receive item).channel = box.channel := by
  unfold Mailbox.receive
  split <;> rfl

theorem mailbox_updateMailbox_self (b : Bus) (id : Nat) (f : Mailbox → Mailbox) :
    (b.updateMailbox id f).mailboxes[id]? = (b.mailboxes[id]?).map f := by
  simp [updateMailbox]

theorem mailbox_updateMailbox_ne (b : Bus) {id j : Nat} (h : j ≠ id) (f : Mailbox → Mailbox) :
    (b.updateMailbox j f).mailboxes[id]? = b.mailboxes[id]? := by
  simp [updateMailbox, h]

theorem mailbox_postAll_of_not_mem {entries : List (String × Nat)} {b : Bus} {item : Item}
    (hid : id ∉ entries.map Prod.snd) :
    (entries.foldl (fun b entry => b.post entry.2 item) b).mailboxes[id]? = b.mailboxes[id]? := by
  induction entries generalizing b with
  | nil => rfl
  | cons entry entries ih =>
      simp only [List.map_cons, List.mem_cons, not_or] at hid
      rw [List.foldl_cons, ih hid.2, post_eq, mailbox_updateMailbox_ne b (Ne.symm hid.1)]

theorem mailbox_postAll_of_mem {entries : List (String × Nat)} {b : Bus} {item : Item}
    (hnodup : (entries.map Prod.snd).Nodup) (hid : id ∈ entries.map Prod.snd) :
    (entries.foldl (fun b entry => b.post entry.2 item) b).mailboxes[id]? =
      (b.mailboxes[id]?).map (Mailbox.receive item) := by
  induction entries generalizing b with
  | nil => simp at hid
  | cons entry entries ih =>
      rw [List.map_cons, List.nodup_cons] at hnodup
      rw [List.foldl_cons]
      by_cases heq : entry.2 = id
      · rw [mailbox_postAll_of_not_mem (heq ▸ hnodup.1), post_eq, heq,
          mailbox_updateMailbox_self]
      · have hmem : id ∈ entries.map Prod.snd := by
          rw [List.map_cons, List.mem_cons] at hid
          exact hid.resolve_left (Ne.symm heq)
        rw [ih hnodup.2 hmem, post_eq, mailbox_updateMailbox_ne b heq]

/-! ## The invariant is kept -/

theorem owners_send (b : Bus) (frame : Frame) : (b.send frame).2.owners = b.owners := by
  unfold send
  split <;> rfl

theorem mailboxes_send (b : Bus) (frame : Frame) : (b.send frame).2.mailboxes = b.mailboxes := by
  unfold send
  split <;> rfl

theorem WellFormed.send (hb : b.WellFormed) (frame : Frame) : (b.send frame).2.WellFormed :=
  hb.of_mailboxes (owners_send b frame) fun j channel h => by rwa [mailboxes_send]

theorem subscribe_of_open (hopen : b.isOpen = true) (channel : String) :
    b.subscribe channel = (.ok b.mailboxes.length,
      (Bus.addMailbox { b with outbound := b.outbound ++ [Frame.subscribe channel b.stamp] }
        { channel := channel }).setOwner channel b.mailboxes.length) := by
  simp [subscribe, Bus.send, hopen]

theorem subscribe_of_closed (hclosed : b.isOpen = false) (channel : String) :
    b.subscribe channel = (.error .closed, b) := by
  simp [subscribe, Bus.send, hclosed]

theorem mailboxes_subscribe_of_open (hopen : b.isOpen = true) (channel : String) :
    (b.subscribe channel).2.mailboxes = b.mailboxes ++ [{ channel := channel }] := by
  rw [subscribe_of_open hopen]
  rfl

theorem WellFormed.subscribe (hb : b.WellFormed) (channel : String) :
    (b.subscribe channel).2.WellFormed := by
  cases hopen : b.isOpen with
  | false =>
      rw [subscribe_of_closed hopen]
      exact hb
  | true =>
      have hforget := hb.forget channel
      have howners : (b.subscribe channel).2.owners =
          (channel, b.mailboxes.length) :: (b.forget channel).owners := by
        rw [subscribe_of_open hopen]
        rfl
      have hmailboxes := mailboxes_subscribe_of_open hopen channel
      have hold : ∀ entry ∈ (b.forget channel).owners, entry.2 < b.mailboxes.length := by
        intro entry hentry
        have hown := hforget.own entry hentry
        cases hbox : b.mailboxes[entry.2]? with
        | none =>
            change (b.mailboxes[entry.2]?).map Mailbox.channel = some entry.1 at hown
            simp [hbox] at hown
        | some box => exact (List.getElem?_eq_some_iff.mp hbox).1
      constructor
      · rw [howners, List.map_cons, List.nodup_cons]
        refine ⟨?_, hforget.channels⟩
        simp [Bus.forget]
      · rw [howners, List.map_cons, List.nodup_cons]
        refine ⟨?_, hforget.ids⟩
        intro hmem
        obtain ⟨entry, hentry, heq⟩ := List.mem_map.mp hmem
        exact absurd (hold entry hentry) (by rw [heq]; exact Nat.lt_irrefl _)
      · rw [howners, hmailboxes]
        intro entry hentry
        rcases List.mem_cons.mp hentry with rfl | hentry
        · simp
        · rw [List.getElem?_append_left (hold entry hentry)]
          exact hforget.own entry hentry

theorem WellFormed.release (hb : b.WellFormed) (channel : String) (id : Nat) :
    (b.release channel id).WellFormed := by
  unfold Bus.release
  split
  · split
    · exact (hb.forget channel).send _
    · exact hb
  · exact hb.send _

theorem WellFormed.unsubscribe (hb : b.WellFormed) (id : Nat) : (b.unsubscribe id).WellFormed := by
  unfold Bus.unsubscribe
  split
  · exact hb.release _ id
  · exact hb

theorem WellFormed.post (hb : b.WellFormed) (id : Nat) (item : Item) :
    (b.post id item).WellFormed := hb.updateMailbox id (receive_channel item)

theorem WellFormed.deliver (hb : b.WellFormed) (channel : String) (item : Item) :
    (b.deliver channel item).WellFormed := by
  unfold Bus.deliver
  split
  · split
    · exact hb.forget channel
    · exact hb.post _ item
  · exact hb

theorem WellFormed.dispatch (hb : b.WellFormed) (frame : Frame) :
    (b.dispatch frame).WellFormed := by
  unfold Bus.dispatch
  split
  · exact hb.deliver _ _
  · exact hb.deliver _ _
  · exact hb

theorem WellFormed.perform (hb : b.WellFormed) (op : Operation) : (b.perform op).WellFormed := by
  cases op with
  | subscribe channel => exact hb.subscribe channel
  | unsubscribe id => exact hb.unsubscribe id
  | drop id => exact hb.updateMailbox id fun _ => rfl
  | next id => exact hb.updateMailbox id fun _ => rfl
  | dispatch frame => exact hb.dispatch frame
  | send frame => exact hb.send frame
  | failAll failure => exact wellFormed_clear _
  | clear => exact wellFormed_clear b
  | closeOutbound => exact hb.of_mailboxes rfl fun _ _ => id

theorem length_mailboxes_postAll (entries : List (String × Nat)) (b : Bus) (item : Item) :
    (entries.foldl (fun b entry => b.post entry.2 item) b).mailboxes.length =
      b.mailboxes.length := by
  induction entries generalizing b with
  | nil => rfl
  | cons entry entries ih =>
      rw [List.foldl_cons, ih]
      exact List.length_modify _ _ _

theorem mailboxes_release (b : Bus) (channel : String) (id : Nat) :
    (b.release channel id).mailboxes = b.mailboxes := by
  unfold release
  split
  · split
    · exact mailboxes_send _ _
    · rfl
  · exact mailboxes_send _ _

theorem mailboxes_unsubscribe (b : Bus) (id : Nat) :
    (b.unsubscribe id).mailboxes = b.mailboxes := by
  unfold unsubscribe
  split
  · exact mailboxes_release b _ id
  · rfl

theorem length_mailboxes_deliver (b : Bus) (channel : String) (item : Item) :
    (b.deliver channel item).mailboxes.length = b.mailboxes.length := by
  unfold deliver
  split
  · split
    · rfl
    · exact List.length_modify _ _ _
  · rfl

theorem length_mailboxes_le_perform (b : Bus) (op : Operation) :
    b.mailboxes.length ≤ (b.perform op).mailboxes.length := by
  cases op with
  | subscribe channel =>
      change _ ≤ (b.subscribe channel).2.mailboxes.length
      cases hopen : b.isOpen with
      | false => simp [subscribe_of_closed hopen]
      | true => simp [mailboxes_subscribe_of_open hopen]
  | unsubscribe id =>
      have hsame := congrArg List.length (mailboxes_unsubscribe b id)
      exact Nat.le_of_eq hsame.symm
  | dispatch frame =>
      change _ ≤ (b.dispatch frame).mailboxes.length
      unfold dispatch
      split
      · exact Nat.le_of_eq (length_mailboxes_deliver b _ _).symm
      · exact Nat.le_of_eq (length_mailboxes_deliver b _ _).symm
      · exact Nat.le_refl _
  | send frame =>
      have hsame := congrArg List.length (mailboxes_send b frame)
      exact Nat.le_of_eq hsame.symm
  | failAll failure => exact Nat.le_of_eq (length_mailboxes_postAll b.owners b _).symm
  | drop id => exact Nat.le_of_eq (List.length_modify _ _ _).symm
  | next id => exact Nat.le_of_eq (List.length_modify _ _ _).symm
  | clear => exact Nat.le_refl _
  | closeOutbound => exact Nat.le_refl _

theorem WellFormed.run (hb : b.WellFormed) (ops : List Operation) : (b.run ops).WellFormed := by
  induction ops generalizing b with
  | nil => exact hb
  | cons op ops ih => exact ih (hb.perform op)

end Bus

end DevMachine.Channel

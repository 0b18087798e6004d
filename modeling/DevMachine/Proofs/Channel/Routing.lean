import DevMachine.Proofs.Channel.Bus

/-!
# Exact routing

A subscription owns its channel from the moment it is made until the first
operation that ends it.  While it owns the channel every event and every error of
the channel is put into its mailbox, and afterwards nothing is.  Both facts are
shown for one operation, and a run follows by induction on the operations.
-/

namespace DevMachine.Channel.Bus

open Json (Value)

/-- The item that an operation routes to a channel. -/
def Operation.item? (channel : String) : Operation → Option Item
  | .dispatch (.event c body) => if c = channel then some (.ok body) else none
  | .dispatch (.error (some c) message) =>
    if c = channel then some (.error (.remote c message)) else none
  | _ => none

/-- The item that an operation leaves with every subscription it ends. -/
def Operation.farewell? : Operation → Option Item
  | .failAll failure => some (.error failure)
  | _ => none

/-- Whether an operation ends the subscription `id` of a channel.  Subscribing
succeeds as long as the outbound side is open. -/
def Operation.ends (channel : String) (id : Nat) (isOpen : Bool) : Operation → Bool
  | .subscribe c => isOpen && c = channel
  | .unsubscribe j => j = id
  | .failAll _ => true
  | .clear => true
  | _ => false

def Operation.closes : Operation → Bool
  | .closeOutbound => true
  | _ => false

theorem Operation.item?_eq_none_of_ends {channel : String} {id : Nat} {isOpen : Bool}
    (op : Operation) (hends : op.ends channel id isOpen = true) : op.item? channel = none := by
  cases op with
  | dispatch frame => cases hends
  | _ => rfl

theorem Operation.farewell?_eq_none_of_not_ends {channel : String} {id : Nat} {isOpen : Bool}
    (op : Operation) (hends : op.ends channel id isOpen = false) : op.farewell? = none := by
  cases op with
  | failAll failure => cases hends
  | _ => rfl

/-- The operations before the first one that ends a subscription, and that one. -/
def lifetime (channel : String) (id : Nat) (isOpen : Bool) :
    List Operation → List Operation × Option Operation
  | [] => ([], none)
  | op :: ops =>
    if op.ends channel id isOpen then ([], some op)
    else
      let rest := lifetime channel id (isOpen && !op.closes) ops
      (op :: rest.1, rest.2)

/-- The items meant for a subscription that lived through these operations. -/
def routed (channel : String) (life : List Operation × Option Operation) : List Item :=
  life.1.filterMap (Operation.item? channel) ++ (life.2.bind Operation.farewell?).toList

def yielded (id : Nat) (b : Bus) : Operation → List Item
  | .next j =>
    if j = id then
      match b.reading id with
      | .item item => [item]
      | _ => []
    else []
  | _ => []

/-- The items that a run hands to the reader of a subscription. -/
def yields (id : Nat) (b : Bus) : List Operation → List Item
  | [] => []
  | op :: ops => b.yielded id op ++ (b.perform op).yields id ops

/-- What a reader finds whose remaining items are known. -/
def readingOf (isOver : Bool) : List Item → Reading
  | item :: _ => .item item
  | [] => if isOver then .ended else .waiting

/-! ## One operation -/

/-- A subscription to a channel that was not dropped, and what it has not read. -/
def Holds (b : Bus) (channel : String) (id : Nat) (items : List Item) : Prop :=
  b.mailboxes[id]? = some { channel := channel, items := items }

variable {b : Bus} {channel : String} {id : Nat} {items : List Item} {op : Operation}

theorem Holds.owns_eq (hheld : b.Holds channel id items) (hb : b.WellFormed) :
    b.owns id = decide (b.owner? channel = some id) := by
  have howns := owns_iff hb hheld
  rw [Bool.eq_iff_iff, decide_eq_true_eq]
  exact howns

theorem Holds.reading_eq (hheld : b.Holds channel id items) :
    b.reading id = readingOf (!b.owns id) items := by
  unfold reading
  rw [hheld]
  cases items with
  | nil => cases howns : b.owns id <;> simp [readingOf]
  | cons item items => rfl

theorem Holds.lt_length (hheld : b.Holds channel id items) : id < b.mailboxes.length :=
  (List.getElem?_eq_some_iff.mp hheld).1

theorem Holds.isDropped_eq (hheld : b.Holds channel id items) : b.isDropped id = false := by
  unfold isDropped
  rw [hheld]
  rfl

theorem Holds.of_mailboxes {b' : Bus} (hheld : b.Holds channel id items)
    (hmailboxes : b'.mailboxes = b.mailboxes) : b'.Holds channel id items := by
  unfold Holds
  rw [hmailboxes]
  exact hheld

theorem Holds.updateMailbox_ne (hheld : b.Holds channel id items) {j : Nat} (h : j ≠ id)
    (f : Mailbox → Mailbox) : (b.updateMailbox j f).Holds channel id items := by
  unfold Holds
  rw [mailbox_updateMailbox_ne b h]
  exact hheld

theorem Holds.post_self (hheld : b.Holds channel id items) (item : Item) :
    (b.post id item).Holds channel id (items ++ [item]) := by
  unfold Holds
  rw [post_eq, mailbox_updateMailbox_self, hheld]
  rfl

theorem Holds.take_self (hheld : b.Holds channel id items) :
    (b.next id).2.Holds channel id items.tail := by
  unfold Holds next
  rw [mailbox_updateMailbox_self, hheld]
  rfl

/-- An item reaches a subscription exactly if that owns the channel. -/
theorem Holds.deliver (hheld : b.Holds channel id items) (hb : b.WellFormed) (c : String)
    (item : Item) :
    (b.deliver c item).Holds channel id
      (items ++ if b.owns id ∧ c = channel then [item] else []) := by
  rw [hheld.owns_eq hb]
  unfold Bus.deliver
  cases howner : b.owner? c with
  | none =>
      have hnot : ¬(b.owner? channel = some id ∧ c = channel) := by
        rintro ⟨hown, rfl⟩
        simp [howner] at hown
      simpa [hnot] using hheld
  | some j =>
      by_cases hj : j = id
      · subst hj
        have hc : c = channel := by
          have hown := hb.own _ ((owner?_eq_some_iff hb).mp howner)
          have hbox : b.mailboxes[j]? = some { channel := channel, items := items } := hheld
          simpa [hbox] using hown.symm
        subst hc
        have hposted := hheld.post_self item
        simpa [howner, hheld.isDropped_eq] using hposted
      · have hnot : ¬(b.owner? channel = some id ∧ c = channel) := by
          rintro ⟨hown, rfl⟩
          rw [howner, Option.some.injEq] at hown
          exact hj hown
        have hsame :
            (if b.isDropped j then b.forget c else b.post j item).Holds channel id items := by
          split
          · exact hheld.of_mailboxes rfl
          · exact hheld.updateMailbox_ne hj _
        simpa [hnot] using hsame

theorem Holds.failAll (hheld : b.Holds channel id items) (hb : b.WellFormed)
    (failure : Failure) :
    (b.failAll failure).Holds channel id
      (items ++ if b.owns id then [.error failure] else []) := by
  unfold Holds Bus.failAll Bus.clear
  by_cases howns : b.owns id = true
  · have hmem : id ∈ b.owners.map Prod.snd := by
      obtain ⟨c, hc⟩ := owns_eq_true_iff.mp howns
      exact List.mem_map.mpr ⟨(c, id), hc, rfl⟩
    rw [if_pos howns]
    change (b.owners.foldl _ b).mailboxes[id]? = _
    rw [mailbox_postAll_of_mem hb.ids hmem, hheld]
    rfl
  · have hnot : id ∉ b.owners.map Prod.snd := by
      intro hmem
      obtain ⟨entry, hentry, rfl⟩ := List.mem_map.mp hmem
      exact howns (owns_eq_true_iff.mpr ⟨entry.1, hentry⟩)
    rw [if_neg howns, List.append_nil]
    change (b.owners.foldl _ b).mailboxes[id]? = _
    rw [mailbox_postAll_of_not_mem hnot]
    exact hheld

/-- The items that an operation puts into the mailbox of a subscription. -/
def received (b : Bus) (channel : String) (id : Nat) (op : Operation) : List Item :=
  if b.owns id then (op.item? channel).toList ++ op.farewell?.toList else []

theorem received_eq_nil (hitem : op.item? channel = none) (hfarewell : op.farewell? = none) :
    b.received channel id op = [] := by
  unfold received
  rw [hitem, hfarewell]
  exact ite_self []

theorem yielded_next (hheld : b.Holds channel id items) :
    b.yielded id (.next id) = items.take 1 := by
  have hread : b.yielded id (.next id) = match b.reading id with
      | .item item => [item]
      | _ => [] := if_pos rfl
  rw [hread, hheld.reading_eq]
  cases items with
  | nil => cases howns : b.owns id <;> rfl
  | cons item items => rfl

theorem Holds.subscribe (hheld : b.Holds channel id items) (c : String) :
    (b.subscribe c).2.Holds channel id items := by
  cases hopen : b.isOpen with
  | false =>
      rw [subscribe_of_closed hopen]
      exact hheld
  | true =>
      unfold Holds
      rw [mailboxes_subscribe_of_open hopen, List.getElem?_append_left hheld.lt_length]
      exact hheld

theorem Holds.dispatch (hheld : b.Holds channel id items) (hb : b.WellFormed) (frame : Frame) :
    (b.dispatch frame).Holds channel id (items ++ b.received channel id (.dispatch frame)) := by
  have hother (hitem : (Operation.dispatch frame).item? channel = none) :
      b.Holds channel id (items ++ b.received channel id (.dispatch frame)) := by
    rw [received_eq_nil hitem rfl, List.append_nil]
    exact hheld
  have hevent (c : String) (item : Item)
      (hitem : (Operation.dispatch frame).item? channel = if c = channel then some item else none) :
      (b.deliver c item).Holds channel id (items ++ b.received channel id (.dispatch frame)) := by
    have hdelivered := hheld.deliver hb c item
    unfold received
    rw [hitem]
    by_cases howns : b.owns id = true <;> by_cases hc : c = channel <;>
      simpa [Operation.farewell?, howns, hc] using hdelivered
  cases frame with
  | event c body => exact hevent c _ rfl
  | error about message =>
      cases about with
      | none => exact hother rfl
      | some c => exact hevent c _ rfl
  | _ => exact hother rfl

/-- What the reader gets and what it has not read yet make up what it had
before and what the operation adds. -/
theorem Holds.perform (hheld : b.Holds channel id items) (hb : b.WellFormed)
    (hop : op ≠ .drop id) :
    ∃ rest, (b.perform op).Holds channel id rest ∧
      b.yielded id op ++ rest = items ++ b.received channel id op := by
  have hadded (hrest : (b.perform op).Holds channel id (items ++ b.received channel id op))
      (hyielded : b.yielded id op = []) :
      ∃ rest, (b.perform op).Holds channel id rest ∧
        b.yielded id op ++ rest = items ++ b.received channel id op :=
    ⟨_, hrest, by rw [hyielded, List.nil_append]⟩
  have hsame (hrest : (b.perform op).Holds channel id items) (hyielded : b.yielded id op = [])
      (hreceived : b.received channel id op = []) :
      ∃ rest, (b.perform op).Holds channel id rest ∧
        b.yielded id op ++ rest = items ++ b.received channel id op :=
    ⟨items, hrest, by rw [hyielded, hreceived, List.nil_append, List.append_nil]⟩
  cases op with
  | subscribe c => exact hsame (hheld.subscribe c) rfl (received_eq_nil rfl rfl)
  | unsubscribe j =>
      have hheld' := hheld.of_mailboxes (mailboxes_unsubscribe b j)
      exact hsame hheld' rfl (received_eq_nil rfl rfl)
  | drop j =>
      have hj : j ≠ id := fun h => hop (by rw [h])
      exact hsame (hheld.updateMailbox_ne hj _) rfl (received_eq_nil rfl rfl)
  | next j =>
      by_cases hj : j = id
      · subst hj
        refine ⟨items.tail, hheld.take_self, ?_⟩
        rw [yielded_next hheld, received_eq_nil rfl rfl, List.append_nil, ← List.drop_one]
        exact List.take_append_drop 1 items
      · have hyielded : b.yielded id (.next j) = [] := if_neg hj
        exact hsame (hheld.updateMailbox_ne hj _) hyielded (received_eq_nil rfl rfl)
  | dispatch frame => exact hadded (hheld.dispatch hb frame) rfl
  | send frame =>
      have hheld' := hheld.of_mailboxes (mailboxes_send b frame)
      exact hsame hheld' rfl (received_eq_nil rfl rfl)
  | failAll failure => exact hadded (hheld.failAll hb failure) rfl
  | clear => exact hsame hheld rfl (received_eq_nil rfl rfl)
  | closeOutbound => exact hsame hheld rfl (received_eq_nil rfl rfl)

theorem isOpen_send (b : Bus) (frame : Frame) : (b.send frame).2.isOpen = b.isOpen := by
  unfold send
  split <;> rfl

theorem isOpen_postAll (entries : List (String × Nat)) (b : Bus) (item : Item) :
    (entries.foldl (fun b entry => b.post entry.2 item) b).isOpen = b.isOpen := by
  induction entries generalizing b with
  | nil => rfl
  | cons entry entries ih => exact ih (b.post entry.2 item)

theorem isOpen_release (b : Bus) (channel : String) (id : Nat) :
    (b.release channel id).isOpen = b.isOpen := by
  unfold release
  split
  · split
    · exact isOpen_send _ _
    · rfl
  · exact isOpen_send _ _

theorem isOpen_deliver (b : Bus) (channel : String) (item : Item) :
    (b.deliver channel item).isOpen = b.isOpen := by
  unfold deliver
  split
  · split <;> rfl
  · rfl

theorem isOpen_dispatch (b : Bus) (frame : Frame) : (b.dispatch frame).isOpen = b.isOpen := by
  unfold dispatch
  split
  · exact isOpen_deliver b _ _
  · exact isOpen_deliver b _ _
  · rfl

theorem isOpen_perform (b : Bus) (op : Operation) :
    (b.perform op).isOpen = (b.isOpen && !op.closes) := by
  have hplain (h : (b.perform op).isOpen = b.isOpen) (hcloses : op.closes = false) :
      (b.perform op).isOpen = (b.isOpen && !op.closes) := by
    rw [h, hcloses, Bool.not_false, Bool.and_true]
  cases op with
  | subscribe c =>
      refine hplain ?_ rfl
      change (b.subscribe c).2.isOpen = b.isOpen
      cases hopen : b.isOpen with
      | false => rw [subscribe_of_closed hopen, hopen]
      | true =>
          rw [subscribe_of_open hopen]
          exact hopen
  | unsubscribe j =>
      refine hplain ?_ rfl
      change (b.unsubscribe j).isOpen = b.isOpen
      unfold unsubscribe
      split
      · exact isOpen_release b _ j
      · rfl
  | dispatch frame => exact hplain (isOpen_dispatch b frame) rfl
  | send frame => exact hplain (isOpen_send b frame) rfl
  | failAll failure => exact hplain (isOpen_postAll b.owners b _) rfl
  | drop j => exact hplain rfl rfl
  | next j => exact hplain rfl rfl
  | clear => exact hplain rfl rfl
  | closeOutbound => exact (Bool.and_false b.isOpen).symm

theorem owner?_release (b : Bus) (c channel : String) (id : Nat) :
    (b.release c id).owner? channel =
      if channel = c ∧ b.owner? c = some id then none else b.owner? channel := by
  have hsend (b : Bus) (frame : Frame) : (b.send frame).2.owner? channel = b.owner? channel := by
    unfold owner?
    rw [owners_send]
  unfold release
  cases howner : b.owner? c with
  | none => simp [hsend]
  | some j =>
      by_cases hj : j = id
      · subst hj
        simp [hsend]
      · simp [hj]

theorem owns_unsubscribe_self (hb : b.WellFormed) {box : Mailbox}
    (hbox : b.mailboxes[id]? = some box) : (b.unsubscribe id).owns id = false := by
  have hbox' : (b.unsubscribe id).mailboxes[id]? = some box := by
    rw [mailboxes_unsubscribe]
    exact hbox
  have howns := owns_iff (hb.unsubscribe id) hbox'
  have hrelease : b.unsubscribe id = b.release box.channel id := by simp [unsubscribe, hbox]
  rw [Bool.eq_false_iff]
  intro htrue
  rw [howns, hrelease, owner?_release] at htrue
  by_cases howner : b.owner? box.channel = some id <;> simp [howner] at htrue

theorem owns_unsubscribe_ne (hb : b.WellFormed) {box : Mailbox}
    (hbox : b.mailboxes[id]? = some box) {j : Nat} (hj : j ≠ id) :
    (b.unsubscribe j).owns id = b.owns id := by
  have hbox' : (b.unsubscribe j).mailboxes[id]? = some box := by
    rw [mailboxes_unsubscribe]
    exact hbox
  rw [Bool.eq_iff_iff, owns_iff (hb.unsubscribe j) hbox', owns_iff hb hbox]
  unfold unsubscribe
  cases hother : b.mailboxes[j]? with
  | none => rfl
  | some other =>
      rw [owner?_release]
      by_cases howner : box.channel = other.channel ∧ b.owner? other.channel = some j
      · simp [howner, hj]
      · rw [if_neg howner]

theorem owner?_deliver (b : Bus) (c channel : String) (item : Item) :
    (b.deliver c item).owner? channel =
      if channel = c ∧ (b.owner? c).elim false b.isDropped then none
      else b.owner? channel := by
  unfold deliver
  cases howner : b.owner? c with
  | none => simp
  | some j =>
      cases hdropped : b.isDropped j with
      | false =>
          have hpost : (b.post j item).owner? channel = b.owner? channel := rfl
          simp [hdropped, hpost]
      | true => by_cases hchannel : channel = c <;> simp [hdropped, hchannel]

theorem Holds.owns_subscribe (hheld : b.Holds channel id items) (hb : b.WellFormed) (c : String) :
    (b.subscribe c).2.owns id = (b.owns id && !(b.isOpen && c = channel)) := by
  rw [(hheld.subscribe c).owns_eq (hb.subscribe c), hheld.owns_eq hb]
  cases hopen : b.isOpen with
  | false => simp [subscribe_of_closed hopen]
  | true =>
      have hnew : b.mailboxes.length ≠ id := Nat.ne_of_gt hheld.lt_length
      rw [subscribe_of_open hopen, owner?_setOwner]
      by_cases hc : channel = c
      · simp [hc, hnew]
      · have hadd : ∀ b : Bus, (b.addMailbox { channel := c }).owner? channel =
            b.owner? channel := fun _ => rfl
        have hout : Bus.owner? { b with outbound := b.outbound ++ [Frame.subscribe c b.stamp] }
            channel = b.owner? channel := rfl
        simp [hc, Ne.symm hc, hadd, hout]

theorem Holds.owns_deliver (hheld : b.Holds channel id items) (hb : b.WellFormed) (c : String)
    (item : Item) : (b.deliver c item).owns id = b.owns id := by
  rw [(hheld.deliver hb c item).owns_eq (hb.deliver c item), hheld.owns_eq hb, owner?_deliver]
  by_cases hown : b.owner? channel = some id
  · by_cases hc : channel = c
    · subst hc
      simp [hown, hheld.isDropped_eq]
    · simp [hc]
  · rw [decide_eq_false hown, decide_eq_false_iff_not]
    split
    · simp
    · exact hown

/-- A subscription that was not dropped keeps its channel until an operation
ends it. -/
theorem Holds.owns_perform (hheld : b.Holds channel id items) (hb : b.WellFormed) (op : Operation) :
    (b.perform op).owns id = (b.owns id && !op.ends channel id b.isOpen) := by
  have hsame (howns : (b.perform op).owns id = b.owns id)
      (hends : op.ends channel id b.isOpen = false) :
      (b.perform op).owns id = (b.owns id && !op.ends channel id b.isOpen) := by
    rw [howns, hends, Bool.not_false, Bool.and_true]
  cases op with
  | subscribe c => exact hheld.owns_subscribe hb c
  | unsubscribe j =>
      change (b.unsubscribe j).owns id = (b.owns id && !decide (j = id))
      by_cases hj : j = id
      · subst hj
        simp [owns_unsubscribe_self hb hheld]
      · simp [owns_unsubscribe_ne hb hheld hj, hj]
  | dispatch frame =>
      refine hsame ?_ rfl
      change (b.dispatch frame).owns id = b.owns id
      unfold Bus.dispatch
      split
      · exact hheld.owns_deliver hb _ _
      · exact hheld.owns_deliver hb _ _
      · rfl
  | failAll failure => simp [Operation.ends, Bus.perform, Bus.failAll, Bus.clear, owns]
  | clear => simp [Operation.ends, Bus.perform, Bus.clear, owns]
  | send frame =>
      refine hsame ?_ rfl
      change (b.send frame).2.owns id = b.owns id
      unfold owns
      rw [owners_send]
  | drop j => exact hsame rfl rfl
  | next j => exact hsame rfl rfl
  | closeOutbound => exact hsame rfl rfl

/-! ## Runs -/

theorem Holds.run_of_not_owns {ops : List Operation} (hheld : b.Holds channel id items)
    (hb : b.WellFormed) (howns : b.owns id = false) (hops : .drop id ∉ ops) :
    ∃ rest, (b.run ops).Holds channel id rest ∧ b.yields id ops ++ rest = items ∧
      (b.run ops).owns id = false := by
  induction ops generalizing b items with
  | nil => exact ⟨items, hheld, rfl, howns⟩
  | cons op ops ih =>
      have hop : op ≠ .drop id := fun h => hops (by simp [h])
      obtain ⟨rest, hrest, heq⟩ := hheld.perform hb hop
      have hnone : b.received channel id op = [] := by simp [received, howns]
      have howns' : (b.perform op).owns id = false := by
        rw [hheld.owns_perform hb op, howns, Bool.false_and]
      have hops' : .drop id ∉ ops := fun h => hops (List.mem_cons_of_mem op h)
      obtain ⟨last, hlast, hyields, hover⟩ := ih hrest (hb.perform op) howns' hops'
      refine ⟨last, hlast, ?_, hover⟩
      calc b.yields id (op :: ops) ++ last
          = b.yielded id op ++ ((b.perform op).yields id ops ++ last) := by
            rw [yields, List.append_assoc]
        _ = items := by rw [hyields, heq, hnone, List.append_nil]

/-- A subscription that owns its channel gets what is routed to it. -/
theorem Holds.run {ops : List Operation} (hheld : b.Holds channel id items) (hb : b.WellFormed)
    (howns : b.owns id = true) (hops : .drop id ∉ ops) :
    ∃ rest, (b.run ops).Holds channel id rest ∧
      b.yields id ops ++ rest = items ++ routed channel (lifetime channel id b.isOpen ops) ∧
      (b.run ops).owns id = (lifetime channel id b.isOpen ops).2.isNone := by
  induction ops generalizing b items with
  | nil => exact ⟨items, hheld, by simp [yields, lifetime, routed], howns⟩
  | cons op ops ih =>
      have hop : op ≠ .drop id := fun h => hops (by simp [h])
      have hops' : .drop id ∉ ops := fun h => hops (List.mem_cons_of_mem op h)
      obtain ⟨rest, hrest, heq⟩ := hheld.perform hb hop
      have howns' := hheld.owns_perform hb op
      rw [howns, Bool.true_and] at howns'
      have hreceived : b.received channel id op =
          (op.item? channel).toList ++ op.farewell?.toList := if_pos howns
      cases hends : op.ends channel id b.isOpen with
      | true =>
          rw [hends] at howns'
          obtain ⟨last, hlast, hyields, hover⟩ :=
            hrest.run_of_not_owns (hb.perform op) howns' hops'
          have hlife : lifetime channel id b.isOpen (op :: ops) = ([], some op) := if_pos hends
          have hitem : op.item? channel = none := op.item?_eq_none_of_ends hends
          refine ⟨last, hlast, ?_, by rw [hlife]; exact hover⟩
          rw [yields, List.append_assoc, hyields, heq, hreceived, hitem, hlife]
          rfl
      | false =>
          rw [hends] at howns'
          obtain ⟨last, hlast, hyields, hover⟩ := ih hrest (hb.perform op) howns' hops'
          rw [isOpen_perform] at hyields hover
          have hlife : lifetime channel id b.isOpen (op :: ops) =
              (op :: (lifetime channel id (b.isOpen && !op.closes) ops).1,
                (lifetime channel id (b.isOpen && !op.closes) ops).2) := by
            rw [lifetime, if_neg (by simp [hends])]
          have hfarewell : op.farewell? = none := op.farewell?_eq_none_of_not_ends hends
          refine ⟨last, hlast, ?_, by rw [hlife]; exact hover⟩
          rw [yields, List.append_assoc, hyields, ← List.append_assoc, heq, hreceived, hfarewell,
            hlife, List.append_assoc]
          congr 1
          cases hitem : op.item? channel <;> simp [routed, hitem]

theorem open_of_subscribe (hmade : (b.subscribe channel).1 = .ok id) :
    b.isOpen = true ∧ b.mailboxes.length = id := by
  cases hopen : b.isOpen with
  | true => exact ⟨rfl, by simpa [subscribe_of_open hopen] using hmade⟩
  | false => simp [subscribe_of_closed hopen] at hmade

theorem holds_subscribe (hb : b.WellFormed) (hmade : (b.subscribe channel).1 = .ok id) :
    (b.subscribe channel).2.Holds channel id [] ∧ (b.subscribe channel).2.owns id = true ∧
      (b.subscribe channel).2.isOpen = true := by
  obtain ⟨hopen, hid⟩ := open_of_subscribe hmade
  have hheld : (b.subscribe channel).2.Holds channel id [] := by
    unfold Holds
    rw [mailboxes_subscribe_of_open hopen, ← hid, List.getElem?_concat_length]
  have howner : (b.subscribe channel).2.owner? channel = some id := by
    rw [subscribe_of_open hopen, owner?_setOwner, if_pos rfl, hid]
  have hopen' : (b.subscribe channel).2.isOpen = true := by
    have hkept := isOpen_perform b (.subscribe channel)
    rw [hopen] at hkept
    exact hkept
  refine ⟨hheld, ?_, hopen'⟩
  rw [hheld.owns_eq (hb.subscribe channel), howner, decide_eq_true rfl]

/-- Whatever happened before a subscription was made and whatever happens
afterwards, its reader gets the items routed to it one by one, then waits while
the subscription owns its channel, and finds the end when it does not. -/
theorem subscription_reads_what_is_routed (stamp : Int64) (before after : List Operation)
    (channel : String) (id : Nat)
    (hmade : ((run { stamp } before).subscribe channel).1 = .ok id)
    (hkept : .drop id ∉ after) :
    let b := ((run { stamp } before).subscribe channel).2
    let life := lifetime channel id true after
    let read := b.yields id after
    read <+: routed channel life ∧
      (b.run after).reading id =
        readingOf life.2.isSome ((routed channel life).drop read.length) := by
  intro b life read
  have hb : (run { stamp } before).WellFormed := (wellFormed_initial stamp).run before
  obtain ⟨hheld, howns, hopen⟩ := holds_subscribe hb hmade
  obtain ⟨rest, hrest, hread, hover⟩ := hheld.run (hb.subscribe channel) howns hkept
  rw [hopen, List.nil_append] at hread
  rw [hopen] at hover
  change read ++ rest = routed channel life at hread
  refine ⟨⟨rest, hread⟩, ?_⟩
  rw [hrest.reading_eq, hover, ← hread, List.drop_left]
  congr 1
  exact Option.not_isNone _

/-- A reader of the channel `logs` is one item behind when everything fails. -/
theorem subscription_reads_until_failure :
    let before : List Operation := [.subscribe "status"]
    let after : List Operation :=
      [.dispatch (.event "logs" .null), .dispatch (.event "status" .null), .next 1,
        .unsubscribe 0, .drop 0, .dispatch (.error (some "logs") "gone"), .next 1,
        .failAll .closed, .subscribe "logs", .dispatch (.event "logs" .null)]
    let b := ((run {} before).subscribe "logs").2
    ((run {} before).subscribe "logs").1 = .ok 1 ∧ .drop 1 ∉ after ∧
      b.yields 1 after <+:
        [.ok .null, .error (.remote "logs" "gone"), .error .closed] ∧
      (b.run after).reading 1 = .item (.error .closed) := by
  intro before after b
  have hmade : ((run {} before).subscribe "logs").1 = .ok 1 := rfl
  have hkept : .drop 1 ∉ after := by simp [after]
  have hrouted : routed "logs" (lifetime "logs" 1 true after) =
      [.ok .null, .error (.remote "logs" "gone"), .error .closed] := rfl
  have hread : (b.yields 1 after).length = 2 := by decide +kernel
  obtain ⟨hbegins, hreading⟩ :=
    subscription_reads_what_is_routed 0 before after "logs" 1 hmade hkept
  rw [hrouted] at hbegins hreading
  refine ⟨hmade, hkept, hbegins, ?_⟩
  rw [hreading, hread]
  rfl

end DevMachine.Channel.Bus

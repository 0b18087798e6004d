import DevMachine.Proofs.Channel.Queues

/-!
# Part of a bus

Some channels of a bus make up a part of it: their frames, their owners and the
subscriptions made for them.  Taking the part leaves the rest out, so the
subscriptions that stay have new numbers, in the same order.  An operation on a
channel of the part does the same in the part, and one on any other channel
leaves the part as it is.
-/

namespace DevMachine.Channel

section Lists

variable {α β : Type} (p : String → Bool)

/-- The entries of a list that belong to channels of the part.  The channels
say to which one each entry belongs. -/
def keep : List String → List α → List α
  | c :: cs, x :: xs => if p c then x :: keep cs xs else keep cs xs
  | _, _ => []

/-- Whether the entry with this number is not left out.  A number without an
entry stays such a number. -/
def stays (cs : List String) (i : Nat) : Bool := (cs[i]?).all p

/-- The number that a number becomes in the part. -/
def place (cs : List String) (i : Nat) : Nat := (cs.take i).countP p + (i - cs.length)

variable {p} {c : String} {cs more : List String} {i j : Nat} {l : List α}

@[simp] theorem keep_cons (x : α) :
    keep p (c :: cs) (x :: l) = if p c then x :: keep p cs l else keep p cs l := rfl

@[simp] theorem stays_zero : stays p (c :: cs) 0 = p c := rfl

@[simp] theorem stays_succ : stays p (c :: cs) (i + 1) = stays p cs i := rfl

@[simp] theorem place_nil : place p [] i = i := by simp [place]

@[simp] theorem place_zero : place p cs 0 = 0 := by simp [place]

@[simp] theorem place_succ :
    place p (c :: cs) (i + 1) = place p cs i + if p c then 1 else 0 := by
  simp only [place, List.take_succ_cons, List.countP_cons, List.length_cons]
  omega

theorem stays_eq (hi : cs[i]? = some c) : stays p cs i = p c := by simp [stays, hi]

theorem place_length : place p cs cs.length = cs.countP p := by simp [place]

theorem place_inj (hi : stays p cs i = true) (hj : stays p cs j = true) :
    place p cs i = place p cs j ↔ i = j := by
  refine ⟨?_, fun heq => by rw [heq]⟩
  induction cs generalizing i j with
  | nil => simp
  | cons c cs ih =>
      intro heq
      cases i with
      | zero =>
          have hc : p c = true := hi
          cases j with
          | zero => rfl
          | succ j => simp [hc] at heq
      | succ i =>
          cases j with
          | zero =>
              have hc : p c = true := hj
              simp [hc] at heq
          | succ j =>
              rw [place_succ, place_succ, Nat.add_right_cancel_iff] at heq
              rw [ih hi hj heq]

theorem place_append (hi : i ≤ cs.length) : place p (cs ++ more) i = place p cs i := by
  simp only [place, List.take_append_of_le_length hi, List.length_append]
  omega

theorem stays_append (hi : i < cs.length) : stays p (cs ++ more) i = stays p cs i := by
  rw [stays, List.getElem?_append_left hi, stays]

theorem getElem?_of_isPrefix {cs' : List String} (hgrown : cs <+: cs') (hi : i < cs.length) :
    cs'[i]? = cs[i]? := by
  obtain ⟨more, rfl⟩ := hgrown
  exact List.getElem?_append_left hi

theorem place_of_isPrefix {cs' : List String} (hgrown : cs <+: cs') (hi : i ≤ cs.length) :
    place p cs' i = place p cs i := by
  obtain ⟨more, rfl⟩ := hgrown
  exact place_append hi

theorem getElem?_of_mem_keep {x : α} (hx : x ∈ keep p cs l) :
    ∃ (i : Nat) (c : String), l[i]? = some x ∧ cs[i]? = some c ∧ p c = true := by
  induction cs generalizing l with
  | nil => simp [keep] at hx
  | cons c cs ih =>
      cases l with
      | nil => simp [keep] at hx
      | cons y l =>
          have hlater (hx : x ∈ keep p cs l) :
              ∃ (i : Nat) (c' : String),
                (y :: l)[i]? = some x ∧ (c :: cs)[i]? = some c' ∧ p c' = true := by
            obtain ⟨i, c', hi⟩ := ih hx
            exact ⟨i + 1, c', by simpa using hi⟩
          rw [keep_cons] at hx
          split at hx
          next hc =>
            rcases List.mem_cons.mp hx with rfl | hx
            · exact ⟨0, c, rfl, rfl, hc⟩
            · exact hlater hx
          next => exact hlater hx

theorem mem_of_mem_keep {x : α} (hx : x ∈ keep p cs l) : x ∈ l := by
  obtain ⟨i, -, hi, -⟩ := getElem?_of_mem_keep hx
  exact List.mem_of_getElem? hi

theorem length_keep (hl : l.length = cs.length) : (keep p cs l).length = cs.countP p := by
  induction cs generalizing l with
  | nil => simp [keep]
  | cons c cs ih =>
      obtain ⟨x, l, rfl⟩ := List.exists_cons_of_length_eq_add_one hl
      have hrest := ih (l := l) (by simpa using hl)
      rw [List.countP_cons, keep_cons]
      split <;> simp_all

/-- What is found under a number is found under the new one in the part. -/
theorem getElem?_keep (hl : l.length = cs.length) (hi : stays p cs i = true) :
    (keep p cs l)[place p cs i]? = l[i]? := by
  induction cs generalizing l i with
  | nil => simp [List.length_eq_zero_iff.mp hl, keep]
  | cons c cs ih =>
      obtain ⟨x, l, rfl⟩ := List.exists_cons_of_length_eq_add_one hl
      cases i with
      | zero =>
          have hc : p c = true := hi
          simp [hc]
      | succ i =>
          have hrest := ih (l := l) (by simpa using hl) hi
          rw [place_succ, keep_cons]
          split <;> simpa using hrest

theorem keep_modify (f : α → α) (hi : stays p cs i = true) :
    keep p cs (l.modify i f) = (keep p cs l).modify (place p cs i) f := by
  induction cs generalizing l i with
  | nil => simp [keep]
  | cons c cs ih =>
      cases l with
      | nil => simp [keep]
      | cons x l =>
          cases i with
          | zero =>
              have hc : p c = true := hi
              simp [hc]
          | succ i =>
              have hrest := ih (l := l) hi
              rw [List.modify_succ_cons, keep_cons, keep_cons, hrest, place_succ]
              split <;> simp

theorem keep_modify_of_leaves (f : α → α) (hi : stays p cs i = false) :
    keep p cs (l.modify i f) = keep p cs l := by
  induction cs generalizing l i with
  | nil => simp [keep]
  | cons c cs ih =>
      cases l with
      | nil => simp [keep]
      | cons x l =>
          cases i with
          | zero =>
              have hc : p c = false := hi
              simp [hc]
          | succ i => rw [List.modify_succ_cons, keep_cons, keep_cons, ih hi]

theorem keep_append {l' : List α} (hl : l.length = cs.length) :
    keep p (cs ++ more) (l ++ l') = keep p cs l ++ keep p more l' := by
  induction cs generalizing l with
  | nil => simp [List.length_eq_zero_iff.mp hl, keep]
  | cons c cs ih =>
      obtain ⟨x, l, rfl⟩ := List.exists_cons_of_length_eq_add_one hl
      have hrest := ih (l := l) (by simpa using hl)
      simp only [List.cons_append, keep_cons, hrest]
      split <;> rfl

/-- The numbers in the part are those of the entries that stay, in order. -/
theorem map_place_range :
    ((List.range cs.length).filter (stays p cs)).map (place p cs) = List.range (cs.countP p) := by
  induction cs with
  | nil => rfl
  | cons c cs ih =>
      have hfilter : ((List.range cs.length).map Nat.succ).filter (stays p (c :: cs)) =
          ((List.range cs.length).filter (stays p cs)).map Nat.succ := List.filter_map
      have hmap (l : List Nat) : (l.map Nat.succ).map (place p (c :: cs)) =
          (l.map (place p cs)).map (· + if p c then 1 else 0) := by
        rw [List.map_map, List.map_map]
        exact List.map_congr_left fun i _ => place_succ
      rw [List.length_cons, List.range_succ_eq_map, List.filter_cons, hfilter, List.countP_cons]
      cases hc : p c with
      | true =>
          have hfirst : stays p (c :: cs) 0 = true := hc
          rw [if_pos hfirst, List.map_cons, hmap, ih, hc, if_pos rfl, List.range_succ_eq_map]
          simp
      | false =>
          have hfirst : stays p (c :: cs) 0 = false := hc
          rw [if_neg (by simp [hfirst]), hmap, ih, hc]
          simp

/-- A choice among all entries that looks the same in the part. -/
theorem map_place_filter_range {q q' : Nat → Bool}
    (hq : ∀ i < cs.length, stays p cs i = true → q i = q' (place p cs i)) :
    (((List.range cs.length).filter q).filter (stays p cs)).map (place p cs) =
      (List.range (cs.countP p)).filter q' := by
  rw [← map_place_range, List.filter_map, List.filter_filter, List.filter_filter]
  congr 1
  apply List.filter_congr
  intro i hi
  cases hstays : stays p cs i with
  | false => simp
  | true => simp [hq i (List.mem_range.mp hi) hstays]

end Lists

/-! ## The part of a bus -/

/-- The channel that a frame is about. -/
def Frame.channel? : Frame → Option String
  | .subscribe c _ | .unsubscribe c _ | .event c _ => some c
  | .error c _ => c
  | .heartbeat _ | .heartbeatResponse _ => none

/-- The entries of a table that stay, with the new numbers. -/
def partOfTable (p : String → Bool) (number : Nat → Nat) (table : List (String × Nat)) :
    List (String × Nat) :=
  (table.filter fun entry => p entry.1).map fun entry => (entry.1, number entry.2)

section Tables

variable {p : String → Bool} {number number' : Nat → Nat} {table : List (String × Nat)}
  {channel : String}

theorem find?_partOfTable :
    ((partOfTable p number table).find? (·.1 = channel)).map (·.2) =
      if p channel then ((table.find? (·.1 = channel)).map (·.2)).map number else none := by
  induction table with
  | nil => simp [partOfTable]
  | cons entry table ih =>
      unfold partOfTable at ih ⊢
      by_cases heq : entry.1 = channel
      · cases hp : p channel with
        | true => simp [heq, hp]
        | false => simpa [heq, hp] using ih
      · cases hp : p entry.1 with
        | true => simpa [heq, hp] using ih
        | false => simpa [heq, hp] using ih

theorem partOfTable_filter_ne :
    partOfTable p number (table.filter (·.1 ≠ channel)) =
      (partOfTable p number table).filter (·.1 ≠ channel) := by
  unfold partOfTable
  rw [List.filter_map, List.filter_filter, List.filter_filter]
  congr 1
  exact List.filter_congr fun entry _ => Bool.and_comm _ _

theorem filter_ne_partOfTable (hp : p channel = false) :
    (partOfTable p number table).filter (·.1 ≠ channel) = partOfTable p number table := by
  rw [List.filter_eq_self]
  intro entry hentry
  obtain ⟨entry', hentry', rfl⟩ := List.mem_map.mp hentry
  have hp' := (List.mem_filter.mp hentry').2
  simp only [ne_eq, decide_eq_true_eq]
  rintro rfl
  simp [hp] at hp'

theorem partOfTable_cons (id : Nat) :
    partOfTable p number ((channel, id) :: table) =
      if p channel then (channel, number id) :: partOfTable p number table
      else partOfTable p number table := by
  unfold partOfTable
  rw [List.filter_cons]
  split <;> rfl

theorem partOfTable_congr (h : ∀ entry ∈ table, number entry.2 = number' entry.2) :
    partOfTable p number table = partOfTable p number' table := by
  unfold partOfTable
  apply List.map_congr_left
  intro entry hentry
  rw [h entry (List.mem_filter.mp hentry).1]

end Tables

namespace Bus

def subscribed (b : Bus) : List String := b.mailboxes.map Mailbox.channel

/-- The frames, owners and subscriptions of some channels. -/
def part (p : String → Bool) (b : Bus) : Bus :=
  { b with
    outbound := b.outbound.filter fun frame => frame.channel?.all p
    owners := partOfTable p (place p b.subscribed) b.owners
    mailboxes := keep p b.subscribed b.mailboxes }

variable {p : String → Bool} {b b' : Bus} {c channel : String} {id : Nat}

theorem owner?_part (b : Bus) (channel : String) :
    (b.part p).owner? channel =
      if p channel then (b.owner? channel).map (place p b.subscribed) else none :=
  find?_partOfTable

theorem length_subscribed (b : Bus) : b.mailboxes.length = b.subscribed.length :=
  (List.length_map _).symm

theorem mailbox_part (hid : stays p b.subscribed id = true) :
    (b.part p).mailboxes[place p b.subscribed id]? = b.mailboxes[id]? :=
  getElem?_keep b.length_subscribed hid

theorem length_mailboxes_part (p : String → Bool) (b : Bus) :
    (b.part p).mailboxes.length = b.subscribed.countP p := length_keep b.length_subscribed

theorem getElem?_subscribed (b : Bus) (id : Nat) :
    b.subscribed[id]? = b.mailboxes[id]?.map Mailbox.channel := List.getElem?_map

theorem WellFormed.subscribed (hb : b.WellFormed) {entry : String × Nat}
    (hentry : entry ∈ b.owners) : b.subscribed[entry.2]? = some entry.1 := by
  rw [getElem?_subscribed, hb.own entry hentry]

theorem WellFormed.subscribed_owner? (hb : b.WellFormed) (howner : b.owner? channel = some id) :
    b.subscribed[id]? = some channel := hb.subscribed ((owner?_eq_some_iff hb).mp howner)

theorem owns_part (hb : b.WellFormed) (hid : stays p b.subscribed id = true) :
    (b.part p).owns (place p b.subscribed id) = b.owns id := by
  rw [Bool.eq_iff_iff, owns_eq_true_iff, owns_eq_true_iff]
  constructor
  · rintro ⟨c, hmem⟩
    obtain ⟨entry, hentry, heq⟩ := List.mem_map.mp hmem
    obtain ⟨hentry, hc⟩ := List.mem_filter.mp hentry
    have hstays := (stays_eq (hb.subscribed hentry)).trans hc
    have hsame := (place_inj hstays hid).mp (Prod.mk.inj heq).2
    exact ⟨entry.1, hsame ▸ hentry⟩
  · rintro ⟨c, hmem⟩
    have hc := stays_eq (p := p) (hb.subscribed hmem)
    exact ⟨c, List.mem_map.mpr ⟨(c, id), List.mem_filter.mpr ⟨hmem, hc ▸ hid⟩, rfl⟩⟩

theorem subscribed_updateMailbox (b : Bus) (id : Nat) {f : Mailbox → Mailbox}
    (hf : ∀ box, (f box).channel = box.channel) :
    (b.updateMailbox id f).subscribed = b.subscribed := by
  apply List.ext_getElem?
  intro j
  rw [getElem?_subscribed, getElem?_subscribed, channel_updateMailbox b id j hf]

theorem part_updateMailbox {f : Mailbox → Mailbox} (hf : ∀ box, (f box).channel = box.channel)
    (hid : stays p b.subscribed id = true) :
    (b.updateMailbox id f).part p = (b.part p).updateMailbox (place p b.subscribed id) f := by
  rw [part, subscribed_updateMailbox b id hf]
  simp only [updateMailbox, keep_modify f hid, part]

theorem part_updateMailbox_of_leaves {f : Mailbox → Mailbox}
    (hf : ∀ box, (f box).channel = box.channel) (hid : stays p b.subscribed id = false) :
    (b.updateMailbox id f).part p = b.part p := by
  rw [part, subscribed_updateMailbox b id hf]
  simp only [updateMailbox, keep_modify_of_leaves f hid, part]

theorem part_forget (b : Bus) (c : String) : (b.forget c).part p = (b.part p).forget c := by
  simp only [part, forget, partOfTable_filter_ne]
  rfl

theorem part_forget_of_leaves (hc : p c = false) : (b.forget c).part p = b.part p := by
  rw [part_forget]
  simp only [part, forget, filter_ne_partOfTable hc]

theorem send_part (b : Bus) (frame : Frame) : ((b.part p).send frame).1 = (b.send frame).1 := by
  change (if b.isOpen then _ else _ : Except Failure Unit × Bus).1 = _
  unfold send
  cases b.isOpen <;> rfl

theorem part_send {frame : Frame} (hframe : frame.channel?.all p = true) :
    (b.send frame).2.part p = ((b.part p).send frame).2 := by
  have hopen : (b.part p).isOpen = b.isOpen := rfl
  unfold send
  rw [hopen]
  split
  · simp [part, hframe, subscribed]
  · rfl

theorem part_send_of_leaves {frame : Frame} (hframe : frame.channel?.all p = false) :
    (b.send frame).2.part p = b.part p := by
  unfold send
  split
  · simp [part, hframe, subscribed]
  · rfl

theorem part_release (hb : b.WellFormed) (hc : b.subscribed[id]? = some c) (hp : p c = true) :
    (b.release c id).part p = (b.part p).release c (place p b.subscribed id) := by
  have hframe : (Frame.unsubscribe c b.stamp).channel?.all p = true := hp
  unfold release
  rw [owner?_part, if_pos hp]
  cases howner : b.owner? c with
  | none => exact part_send hframe
  | some current =>
      have hstays := (stays_eq (hb.subscribed_owner? howner)).trans hp
      have hsame : place p b.subscribed current = place p b.subscribed id ↔ current = id :=
        place_inj hstays ((stays_eq hc).trans hp)
      simp only [Option.map_some, hsame]
      split
      · exact (part_send hframe).trans (by rw [part_forget]; rfl)
      · rfl

theorem part_release_of_leaves (hp : p c = false) : (b.release c id).part p = b.part p := by
  have hframe : (Frame.unsubscribe c b.stamp).channel?.all p = false := hp
  unfold release
  split
  · split
    · rw [part_send_of_leaves hframe, part_forget_of_leaves hp]
    · rfl
  · exact part_send_of_leaves hframe

theorem part_unsubscribe (hb : b.WellFormed) (hid : stays p b.subscribed id = true) :
    (b.unsubscribe id).part p = (b.part p).unsubscribe (place p b.subscribed id) := by
  unfold unsubscribe
  rw [mailbox_part hid]
  cases hbox : b.mailboxes[id]? with
  | none => rfl
  | some box =>
      have hc : b.subscribed[id]? = some box.channel := by rw [getElem?_subscribed, hbox]; rfl
      exact part_release hb hc ((stays_eq hc).symm.trans hid)

theorem part_unsubscribe_of_leaves (hid : stays p b.subscribed id = false) :
    (b.unsubscribe id).part p = b.part p := by
  unfold unsubscribe
  cases hbox : b.mailboxes[id]? with
  | none => rfl
  | some box =>
      have hc : b.subscribed[id]? = some box.channel := by rw [getElem?_subscribed, hbox]; rfl
      exact part_release_of_leaves ((stays_eq hc).symm.trans hid)

theorem subscribed_unsubscribe (b : Bus) (id : Nat) :
    (b.unsubscribe id).subscribed = b.subscribed := by
  rw [subscribed, mailboxes_unsubscribe, subscribed]

theorem part_drop (hid : stays p b.subscribed id = true) :
    (b.drop id).part p = (b.part p).drop (place p b.subscribed id) :=
  part_updateMailbox (fun _ => rfl) hid

theorem part_drop_of_leaves (hid : stays p b.subscribed id = false) :
    (b.drop id).part p = b.part p := part_updateMailbox_of_leaves (fun _ => rfl) hid

theorem subscribed_drop (b : Bus) (id : Nat) : (b.drop id).subscribed = b.subscribed :=
  subscribed_updateMailbox b id fun _ => rfl

theorem part_deliver (hb : b.WellFormed) (hp : p c = true) (item : Item) :
    (b.deliver c item).part p = (b.part p).deliver c item := by
  unfold deliver
  rw [owner?_part, if_pos hp]
  cases howner : b.owner? c with
  | none => rfl
  | some id =>
      have hstays := (stays_eq (hb.subscribed_owner? howner)).trans hp
      have hdropped : (b.part p).isDropped (place p b.subscribed id) = b.isDropped id := by
        rw [isDropped, mailbox_part hstays, isDropped]
      simp only [Option.map_some, hdropped]
      split
      · exact part_forget b c
      · exact part_updateMailbox (receive_channel item) hstays

theorem part_deliver_of_leaves (hb : b.WellFormed) (hp : p c = false) (item : Item) :
    (b.deliver c item).part p = b.part p := by
  unfold deliver
  cases howner : b.owner? c with
  | none => rfl
  | some id =>
      have hleaves := (stays_eq (hb.subscribed_owner? howner)).trans hp
      dsimp only
      split
      · exact part_forget_of_leaves hp
      · exact part_updateMailbox_of_leaves (receive_channel item) hleaves

theorem part_postAll {entries : List (String × Nat)} {item : Item}
    (hentries : ∀ entry ∈ entries, b.subscribed[entry.2]? = some entry.1) :
    (entries.foldl (fun b entry => b.post entry.2 item) b).part p =
      (partOfTable p (place p b.subscribed) entries).foldl (fun b entry => b.post entry.2 item)
        (b.part p) := by
  induction entries generalizing b with
  | nil => rfl
  | cons entry entries ih =>
      obtain ⟨c, id⟩ := entry
      have hsame : (b.post id item).subscribed = b.subscribed :=
        subscribed_updateMailbox b id (receive_channel item)
      have hstays := stays_eq (p := p) (hentries _ List.mem_cons_self)
      have hrest := ih (b := b.post id item) fun entry hentry => by
        rw [hsame]
        exact hentries entry (List.mem_cons_of_mem _ hentry)
      rw [List.foldl_cons, hrest, hsame, partOfTable_cons, post_eq]
      cases hp : p c with
      | true =>
          rw [part_updateMailbox (receive_channel item) (hstays.trans hp)]
          rfl
      | false =>
          rw [part_updateMailbox_of_leaves (receive_channel item) (hstays.trans hp)]
          rfl

theorem subscribed_subscribe_of_open (hopen : b.isOpen = true) (channel : String) :
    (b.subscribe channel).2.subscribed = b.subscribed ++ [channel] := by
  rw [subscribed, mailboxes_subscribe_of_open hopen, List.map_append]
  rfl

theorem part_subscribe (hb : b.WellFormed) (channel : String) :
    (b.subscribe channel).2.part p =
      if p channel then ((b.part p).subscribe channel).2 else b.part p := by
  cases hopen : b.isOpen with
  | false =>
      have hopen' : (b.part p).isOpen = false := hopen
      rw [subscribe_of_closed hopen, subscribe_of_closed hopen', ite_self]
  | true =>
      have hopen' : (b.part p).isOpen = true := hopen
      have hsubscribed := subscribed_subscribe_of_open hopen channel
      -- the numbers that are there already stay as they are
      have hnumbers : ∀ entry ∈ b.owners.filter (·.1 ≠ channel),
          place p (b.subscribed ++ [channel]) entry.2 = place p b.subscribed entry.2 := by
        intro entry hentry
        have hid := hb.subscribed (List.mem_filter.mp hentry).1
        exact place_append (Nat.le_of_lt (List.getElem?_eq_some_iff.mp hid).1)
      have hnew : place p (b.subscribed ++ [channel]) b.mailboxes.length =
          (b.part p).mailboxes.length := by
        rw [length_mailboxes_part, length_subscribed, place_append (Nat.le_refl _), place_length]
      rw [part, hsubscribed, subscribe_of_open hopen, subscribe_of_open hopen']
      simp only [addMailbox, setOwner, forget, partOfTable_cons, partOfTable_congr hnumbers,
        partOfTable_filter_ne, keep_append b.length_subscribed, hnew]
      cases hp : p channel with
      | true => simp [part, hp, Frame.channel?, keep]
      | false =>
          rw [filter_ne_partOfTable hp]
          simp [part, hp, Frame.channel?, keep]

/-! ## Operations -/

/-- The channel that a call is about. -/
def Operation.channel? (b : Bus) : Operation → Option String
  | .subscribe channel => some channel
  | .unsubscribe id | .drop id | .next id => b.subscribed[id]?
  | .dispatch frame | .send frame => frame.channel?
  | .failAll _ | .clear | .closeOutbound => none

/-- The same call on the part of a bus. -/
def Operation.inPart (p : String → Bool) (b : Bus) : Operation → Operation
  | .unsubscribe id => .unsubscribe (place p b.subscribed id)
  | .drop id => .drop (place p b.subscribed id)
  | .next id => .next (place p b.subscribed id)
  | op => op

/-- A call about channels of the part, or about all channels, does the same in
the part. -/
theorem part_perform (hb : b.WellFormed) {op : Operation} (hop : (op.channel? b).all p = true) :
    (b.perform op).part p = (b.part p).perform (op.inPart p b) := by
  cases op with
  | subscribe channel => exact (part_subscribe hb channel).trans (if_pos hop)
  | unsubscribe id => exact part_unsubscribe hb hop
  | drop id => exact part_drop hop
  | next id => exact part_updateMailbox (fun _ => rfl) hop
  | dispatch frame =>
      cases frame with
      | event c body => exact part_deliver hb hop _
      | error c message =>
          cases c with
          | none => rfl
          | some c => exact part_deliver hb hop _
      | _ => rfl
  | send frame => exact part_send hop
  | failAll failure =>
      change ((b.owners.foldl _ b).clear).part p = ((b.part p).owners.foldl _ (b.part p)).clear
      have hposted :
          (b.owners.foldl (fun b entry => b.post entry.2 (.error failure)) b).part p = _ :=
        part_postAll fun entry hentry => hb.subscribed hentry
      exact congrArg clear hposted
  | clear => rfl
  | closeOutbound => rfl

theorem part_perform_of_leaves (hb : b.WellFormed) {op : Operation}
    (hop : (op.channel? b).all p = false) : (b.perform op).part p = b.part p := by
  cases op with
  | subscribe channel =>
      have hp : p channel = false := hop
      exact (part_subscribe hb channel).trans (if_neg (by simp [hp]))
  | unsubscribe id => exact part_unsubscribe_of_leaves hop
  | drop id => exact part_drop_of_leaves hop
  | next id => exact part_updateMailbox_of_leaves (fun _ => rfl) hop
  | dispatch frame =>
      cases frame with
      | event c body => exact part_deliver_of_leaves hb hop _
      | error c message =>
          cases c with
          | none => rfl
          | some c => exact part_deliver_of_leaves hb hop _
      | _ => rfl
  | send frame => exact part_send_of_leaves hop
  | _ => cases hop

theorem subscribed_deliver (b : Bus) (c : String) (item : Item) :
    (b.deliver c item).subscribed = b.subscribed := by
  unfold deliver
  split
  · split
    · rfl
    · exact subscribed_updateMailbox b _ (receive_channel item)
  · rfl

theorem subscribed_postAll (entries : List (String × Nat)) (b : Bus) (item : Item) :
    (entries.foldl (fun b entry => b.post entry.2 item) b).subscribed = b.subscribed := by
  induction entries generalizing b with
  | nil => rfl
  | cons entry entries ih =>
      rw [List.foldl_cons, ih]
      exact subscribed_updateMailbox b _ (receive_channel item)

theorem subscribed_grows (b : Bus) (op : Operation) :
    b.subscribed <+: (b.perform op).subscribed := by
  have hsame {cs : List String} (h : cs = b.subscribed) : b.subscribed <+: cs :=
    h ▸ List.prefix_rfl
  cases op with
  | subscribe channel =>
      cases hopen : b.isOpen with
      | false => exact hsame (by rw [perform, subscribe_of_closed hopen])
      | true =>
          have hnew : (b.perform (.subscribe channel)).subscribed = b.subscribed ++ [channel] :=
            subscribed_subscribe_of_open hopen channel
          exact hnew ▸ List.prefix_append _ _
  | unsubscribe id => exact hsame (subscribed_unsubscribe b id)
  | drop id => exact hsame (subscribed_drop b id)
  | next id => exact hsame (subscribed_updateMailbox b id fun _ => rfl)
  | dispatch frame =>
      apply hsame
      change (b.dispatch frame).subscribed = b.subscribed
      unfold dispatch
      split
      · exact subscribed_deliver b _ _
      · exact subscribed_deliver b _ _
      · rfl
  | send frame => exact hsame (by rw [perform, subscribed, mailboxes_send, subscribed])
  | failAll failure => exact hsame (subscribed_postAll b.owners b _)
  | clear => exact hsame rfl
  | closeOutbound => exact hsame rfl

theorem reading_part (hb : b.WellFormed) (hid : stays p b.subscribed id = true) :
    (b.part p).reading (place p b.subscribed id) = b.reading id := by
  unfold reading
  rw [mailbox_part hid, owns_part hb hid]

end Bus

end DevMachine.Channel

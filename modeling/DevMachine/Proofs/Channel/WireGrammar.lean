import DevMachine.Channel.Frame
import Mathlib.Data.List.Count

/-!
# The grammar of frames

Which documents spell a frame is said here without the reader: the layout of
each kind, its fields with their values in the order of declaration, and the two
forms in which a layout can be given.  The reader takes exactly these documents,
and of an object it looks at the kind and the fields of that kind alone.
-/

namespace DevMachine.Channel.Frame

open Json

/-- The kinds of frames with their fields, in order, and the frame they make. -/
inductive Layout : (kind : String) → (fields : List Member) → Frame → Prop
  | subscribe (channel : String) (n : Whole) (t : Int64) (ht : n.val = t.toInt) :
    Layout "subscribe" [("channel", .string channel), ("timestamp", .number (.whole n))]
      (.subscribe channel t)
  | unsubscribe (channel : String) (n : Whole) (t : Int64) (ht : n.val = t.toInt) :
    Layout "unsubscribe" [("channel", .string channel), ("timestamp", .number (.whole n))]
      (.unsubscribe channel t)
  | heartbeat (n : Whole) (t : Int64) (ht : n.val = t.toInt) :
    Layout "heartbeat" [("timestamp", .number (.whole n))] (.heartbeat t)
  | event (channel : String) (body : Value) :
    Layout "event" [("channel", .string channel), ("body", body)] (.event channel body)
  | errorOf (channel message : String) :
    Layout "error" [("channel", .string channel), ("error", .string message)]
      (.error (some channel) message)
  | error (message : String) :
    Layout "error" [("channel", .null), ("error", .string message)] (.error none message)
  | heartbeatResponse (n : Whole) (t : Int64) (ht : n.val = t.toInt) :
    Layout "heartbeat_response" [("timestamp", .number (.whole n))] (.heartbeatResponse t)

/-- A key is given exactly once, and with this value. -/
def GivenOnce (key : String) (v : Value) (members : List Member) : Prop :=
  (key, v) ∈ members ∧ (members.map (·.1)).count key = 1

/-- The documents that spell a frame. -/
inductive Spells : Node → Frame → Prop
  /-- An array of the kind and the fields in their order. -/
  | items {kind : String} {fields : List Member} {f : Frame} (hlayout : Layout kind fields f) :
    Spells (.items (.string kind :: fields.map (·.2))) f
  /-- An object with the kind and each field once. -/
  | members {kind : String} {fields members : List Member} {f : Frame}
    (hlayout : Layout kind fields f) (hkind : GivenOnce "type" (.string kind) members)
    (hfields : ∀ field ∈ fields, GivenOnce field.1 field.2 members) :
    Spells (.members members) f
  /-- An object of an error may leave the channel out. -/
  | noChannel {members : List Member} {message : String}
    (hkind : GivenOnce "type" (.string "error") members)
    (hchannel : "channel" ∉ members.map (·.1))
    (herror : GivenOnce "error" (.string message) members) :
    Spells (.members members) (.error none message)

theorem timestamp?_eq_some_iff {v : Value} {t : Int64} :
    timestamp? v = some t ↔ ∃ n : Whole, v = .number (.whole n) ∧ n.val = t.toInt := by
  constructor
  · intro h
    unfold timestamp? Value.int? at h
    split at h
    next n hn =>
      split at hn
      next w =>
        obtain rfl := Option.some.inj hn
        split at h
        next hlt =>
          obtain rfl := Option.some.inj h
          have hlower := w.lower
          unfold signedLimit at hlt
          have hback : (Int64.ofInt w.val).toInt = w.val :=
            Int64.toInt_ofInt_of_le (by simpa using hlower) (by simpa using hlt)
          exact ⟨w, rfl, hback.symm⟩
        · cases h
      · cases hn
    · cases h
  · rintro ⟨n, rfl, hn⟩
    have hlt : t.toInt < signedLimit := t.toInt_lt
    simp only [timestamp?, Value.int?, hn, if_pos hlt, Int64.ofInt_toInt]

theorem map_timestamp?_eq_some_iff {v : Value} {make : Int64 → Frame} {f : Frame} :
    (timestamp? v).map make = some f ↔
      ∃ (n : Whole) (t : Int64), v = .number (.whole n) ∧ n.val = t.toInt ∧ make t = f := by
  simp only [Option.map_eq_some_iff, timestamp?_eq_some_iff]
  constructor
  · rintro ⟨t, ⟨n, hv, hn⟩, hf⟩
    exact ⟨n, t, hv, hn, hf⟩
  · rintro ⟨n, t, hv, hn, hf⟩
    exact ⟨t, ⟨n, hv, hn⟩, hf⟩

theorem optionalChannel?_eq_some_iff {v : Value} {channel : Option String} :
    optionalChannel? v = some channel ↔ v = channel.elim .null .string := by
  constructor
  · intro h
    unfold optionalChannel? at h
    split at h <;> cases h <;> rfl
  · rintro rfl
    cases channel <;> rfl

theorem ofFields_eq_some_iff {kind : String} {values : List Value} {f : Frame} :
    ofFields kind values = some f ↔
      ∃ fields, Layout kind fields f ∧ values = fields.map (·.2) := by
  constructor
  · intro h
    unfold ofFields at h
    split at h
    next channel v =>
      obtain ⟨n, t, rfl, hn, rfl⟩ := map_timestamp?_eq_some_iff.mp h
      exact ⟨_, .subscribe channel n t hn, rfl⟩
    next channel v =>
      obtain ⟨n, t, rfl, hn, rfl⟩ := map_timestamp?_eq_some_iff.mp h
      exact ⟨_, .unsubscribe channel n t hn, rfl⟩
    next v =>
      obtain ⟨n, t, rfl, hn, rfl⟩ := map_timestamp?_eq_some_iff.mp h
      exact ⟨_, .heartbeat n t hn, rfl⟩
    next channel body =>
      obtain rfl := Option.some.inj h
      exact ⟨_, .event channel body, rfl⟩
    next v message =>
      obtain ⟨channel, hchannel, rfl⟩ := Option.map_eq_some_iff.mp h
      obtain rfl := optionalChannel?_eq_some_iff.mp hchannel
      cases channel with
      | none => exact ⟨_, .error message, rfl⟩
      | some channel => exact ⟨_, .errorOf channel message, rfl⟩
    next v =>
      obtain ⟨n, t, rfl, hn, rfl⟩ := map_timestamp?_eq_some_iff.mp h
      exact ⟨_, .heartbeatResponse n t hn, rfl⟩
    next => cases h
  · rintro ⟨fields, hlayout, rfl⟩
    cases hlayout with
    | event channel body => rfl
    | errorOf channel message => rfl
    | error message => rfl
    | subscribe channel n t ht => exact map_timestamp?_eq_some_iff.mpr ⟨n, t, rfl, ht, rfl⟩
    | unsubscribe channel n t ht => exact map_timestamp?_eq_some_iff.mpr ⟨n, t, rfl, ht, rfl⟩
    | heartbeat n t ht => exact map_timestamp?_eq_some_iff.mpr ⟨n, t, rfl, ht, rfl⟩
    | heartbeatResponse n t ht => exact map_timestamp?_eq_some_iff.mpr ⟨n, t, rfl, ht, rfl⟩

variable {key : String} {members : List Member}

theorem mem_valuesOf_iff {v : Value} : v ∈ valuesOf key members ↔ (key, v) ∈ members := by
  unfold valuesOf
  simp only [List.mem_map, List.mem_filter, decide_eq_true_eq]
  constructor
  · rintro ⟨⟨k, u⟩, ⟨hm, rfl⟩, rfl⟩
    exact hm
  · exact fun h => ⟨(key, v), ⟨h, rfl⟩, rfl⟩

theorem length_valuesOf (key : String) (members : List Member) :
    (valuesOf key members).length = (members.map (·.1)).count key := by
  rw [valuesOf, List.length_map, ← List.countP_eq_length_filter, List.count, List.countP_map]
  rfl

theorem givenOnce_iff {v : Value} : GivenOnce key v members ↔ valuesOf key members = [v] := by
  rw [GivenOnce, ← mem_valuesOf_iff, ← length_valuesOf]
  constructor
  · rintro ⟨hv, hlength⟩
    obtain ⟨u, hu⟩ := List.length_eq_one_iff.mp hlength
    rw [hu, List.mem_singleton] at hv
    rw [hu, hv]
  · intro h
    simp [h]

theorem not_mem_keys_iff : key ∉ members.map (·.1) ↔ valuesOf key members = [] := by
  rw [← List.count_eq_zero, ← length_valuesOf, List.length_eq_zero_iff]

theorem single?_eq_some_iff {v : Value} :
    single? key members = some v ↔ GivenOnce key v members := by
  rw [givenOnce_iff, single?]
  split
  next u hu => simp [hu]
  next hnot =>
    simp only [reduceCtorEq, false_iff]
    exact hnot v

theorem errorChannel?_eq_some_iff {v : Value} :
    errorChannel? members = some v ↔
      GivenOnce "channel" v members ∨ (v = .null ∧ "channel" ∉ members.map (·.1)) := by
  rw [givenOnce_iff, not_mem_keys_iff, errorChannel?]
  cases valuesOf "channel" members with
  | nil => simp [eq_comm]
  | cons u values => cases values <;> simp

/-- The fields of a layout are found where each of them is given once, and of an
error also where the channel is left out. -/
theorem Layout.fieldsAmong_eq_some_iff {kind : String} {fields : List Member} {f : Frame}
    (hlayout : Layout kind fields f) :
    fieldsAmong kind members = some (fields.map (·.2)) ↔
      (∀ field ∈ fields, GivenOnce field.1 field.2 members) ∨
        ∃ message, f = .error none message ∧ "channel" ∉ members.map (·.1) ∧
          GivenOnce "error" (.string message) members := by
  cases hlayout with
  | error message =>
      have hchannel := or_and_right (a := GivenOnce "channel" .null members)
        (b := "channel" ∉ members.map (·.1)) (c := GivenOnce "error" (.string message) members)
      simpa [fieldsAmong, Option.bind_eq_some_iff, single?_eq_some_iff,
        errorChannel?_eq_some_iff] using hchannel
  | _ =>
      simp [fieldsAmong, Option.bind_eq_some_iff, single?_eq_some_iff, errorChannel?_eq_some_iff]

/-! ## Reading a document -/

theorem ofMembers_eq_some_iff {f : Frame} :
    ofMembers members = some f ↔
      ∃ kind fields, Layout kind fields f ∧ GivenOnce "type" (.string kind) members ∧
        fieldsAmong kind members = some (fields.map (·.2)) := by
  constructor
  · intro h
    unfold ofMembers at h
    rw [Option.bind_eq_bind, Option.bind_eq_some_iff] at h
    obtain ⟨v, hkind, h⟩ := h
    rw [single?_eq_some_iff] at hkind
    split at h
    next kind =>
      rw [Option.bind_eq_bind, Option.bind_eq_some_iff] at h
      obtain ⟨values, hvalues, h⟩ := h
      obtain ⟨fields, hlayout, rfl⟩ := ofFields_eq_some_iff.mp h
      exact ⟨kind, fields, hlayout, hkind, hvalues⟩
    · cases h
  · rintro ⟨kind, fields, hlayout, hkind, hvalues⟩
    have hframe := ofFields_eq_some_iff.mpr ⟨fields, hlayout, rfl⟩
    simp [ofMembers, single?_eq_some_iff.mpr hkind, hvalues, hframe]

/-- The reader takes the documents of the grammar. -/
theorem ofNode_eq_some_iff {n : Node} {f : Frame} : ofNode n = some f ↔ Spells n f := by
  constructor
  · intro h
    unfold ofNode at h
    split at h
    next members =>
      obtain ⟨kind, fields, hlayout, hkind, hvalues⟩ := ofMembers_eq_some_iff.mp h
      rcases hlayout.fieldsAmong_eq_some_iff.mp hvalues with
        hfields | ⟨message, rfl, hchannel, herror⟩
      · exact .members hlayout hkind hfields
      · cases hlayout
        exact .noChannel hkind hchannel herror
    next kind values =>
      obtain ⟨fields, hlayout, rfl⟩ := ofFields_eq_some_iff.mp h
      exact .items hlayout
    · cases h
  · intro h
    cases h with
    | items hlayout => exact ofFields_eq_some_iff.mpr ⟨_, hlayout, rfl⟩
    | members hlayout hkind hfields =>
        exact ofMembers_eq_some_iff.mpr
          ⟨_, _, hlayout, hkind, hlayout.fieldsAmong_eq_some_iff.mpr (.inl hfields)⟩
    | @noChannel members message hkind hchannel herror =>
        have hlayout := Layout.error message
        exact ofMembers_eq_some_iff.mpr ⟨_, _, hlayout, hkind,
          hlayout.fieldsAmong_eq_some_iff.mpr (.inr ⟨message, rfl, hchannel, herror⟩)⟩

/-- The names of the fields of a kind. -/
def fieldNames (kind : String) : List String :=
  if kind = "subscribe" ∨ kind = "unsubscribe" then ["channel", "timestamp"]
  else if kind = "heartbeat" ∨ kind = "heartbeat_response" then ["timestamp"]
  else if kind = "event" then ["channel", "body"]
  else if kind = "error" then ["channel", "error"]
  else []

/-- The kinds that an object names. -/
def kindsNamed (members : List Member) : List String :=
  (valuesOf "type" members).filterMap Value.string?

/-- The members that are known: the kind and the fields of the kind. -/
def knownMembers (members : List Member) : List Member :=
  members.filter fun m => m.1 = "type" ∨ m.1 ∈ (kindsNamed members).flatMap fieldNames

theorem Layout.names_eq {kind : String} {fields : List Member} {f : Frame}
    (hlayout : Layout kind fields f) : fields.map (·.1) = fieldNames kind := by
  cases hlayout <;> rfl

theorem mem_kindsNamed_iff {kind : String} :
    kind ∈ kindsNamed members ↔ ("type", .string kind) ∈ members := by
  unfold kindsNamed
  rw [List.mem_filterMap, ← mem_valuesOf_iff]
  constructor
  · rintro ⟨v, hv, heq⟩
    cases v with
    | string s => cases heq; exact hv
    | _ => cases heq
  · exact fun h => ⟨.string kind, h, rfl⟩

/-- The values of a key are all among the members that matter when the key
does. -/
theorem valuesOf_perm {p q : Member → Bool} {others : List Member}
    (hperm : (members.filter p).Perm (others.filter q))
    (hp : ∀ m ∈ members, m.1 = key → p m = true) (hq : ∀ m ∈ others, m.1 = key → q m = true) :
    (valuesOf key members).Perm (valuesOf key others) := by
  have hsame {p : Member → Bool} {ms : List Member} (hp : ∀ m ∈ ms, m.1 = key → p m = true) :
      (ms.filter p).filter (fun m => m.1 = key) = ms.filter fun m => m.1 = key := by
    rw [List.filter_filter]
    refine List.filter_congr fun m hm => ?_
    by_cases hkey : m.1 = key
    · simp [hkey, hp m hm hkey]
    · simp [hkey]
  have hkeys := hperm.filter fun m => m.1 = key
  rw [hsame hp, hsame hq] at hkeys
  exact hkeys.map _

theorem Spells.of_known {others : List Member} {f : Frame} (h : Spells (.members members) f)
    (hperm : (knownMembers members).Perm (knownMembers others)) : Spells (.members others) f := by
  -- the kind is known on both sides, and so are the fields of the kind that is named
  have htype : (valuesOf "type" members).Perm (valuesOf "type" others) :=
    valuesOf_perm hperm (fun m _ hm => by simp [hm]) fun m _ hm => by simp [hm]
  have hkinds {kind : String} (hkind : GivenOnce "type" (.string kind) members) :
      GivenOnce "type" (.string kind) others := by
    rw [givenOnce_iff] at hkind ⊢
    rw [hkind] at htype
    exact htype.symm.eq_singleton
  have hvalues {kind : String} (hkind : GivenOnce "type" (.string kind) members) (key : String)
      (hkey : key ∈ fieldNames kind) :
      (valuesOf key members).Perm (valuesOf key others) := by
    have hnamed {ms : List Member} (hkind : GivenOnce "type" (.string kind) ms) (m : Member)
        (hm : m.1 = key) : m.1 ∈ (kindsNamed ms).flatMap fieldNames :=
      List.mem_flatMap.mpr ⟨kind, mem_kindsNamed_iff.mpr hkind.1, hm ▸ hkey⟩
    exact valuesOf_perm hperm (fun m _ hm => by simp [hnamed hkind m hm])
      fun m _ hm => by simp [hnamed (hkinds hkind) m hm]
  have hgiven {kind key : String} {v : Value} (hkind : GivenOnce "type" (.string kind) members)
      (hkey : key ∈ fieldNames kind) (h : GivenOnce key v members) : GivenOnce key v others := by
    have hperm := hvalues hkind key hkey
    rw [givenOnce_iff] at h ⊢
    rw [h] at hperm
    exact hperm.symm.eq_singleton
  cases h with
  | members hlayout hkind hfields =>
      refine .members hlayout (hkinds hkind) fun field hfield => ?_
      have hkey := List.mem_map_of_mem (f := (·.1)) hfield
      rw [hlayout.names_eq] at hkey
      exact hgiven hkind hkey (hfields field hfield)
  | noChannel hkind hchannel herror =>
      have hchannels := hvalues hkind "channel" (by decide)
      rw [not_mem_keys_iff.mp hchannel] at hchannels
      exact .noChannel (hkinds hkind) (not_mem_keys_iff.mpr hchannels.symm.eq_nil)
        (hgiven hkind (by decide) herror)

theorem parse_eq_some_iff {text : String} {f : Frame} :
    parse text = some f ↔ ∃ n, readNode text = some n ∧ Spells n f := by
  simp only [parse, Option.bind_eq_some_iff, ofNode_eq_some_iff]

/-- A text is a frame exactly when the document that it holds spells one, and of
an object only the known members count, in any order. -/
theorem frames_are_what_documents_spell :
    (∀ text f, parse text = some f ↔ ∃ n, readNode text = some n ∧ Spells n f) ∧
      ∀ text text' members others, readNode text = some (.members members) →
        readNode text' = some (.members others) →
        (knownMembers members).Perm (knownMembers others) → parse text = parse text' := by
  refine ⟨fun _ _ => parse_eq_some_iff, ?_⟩
  intro text text' members others htext htext' hperm
  apply Option.ext
  intro f
  constructor
  · intro h
    obtain ⟨n, hn, hspells⟩ := parse_eq_some_iff.mp h
    obtain rfl := Option.some.inj (htext.symm.trans hn)
    exact parse_eq_some_iff.mpr ⟨_, htext', hspells.of_known hperm⟩
  · intro h
    obtain ⟨n, hn, hspells⟩ := parse_eq_some_iff.mp h
    obtain rfl := Option.some.inj (htext'.symm.trans hn)
    exact parse_eq_some_iff.mpr ⟨_, htext, hspells.of_known hperm.symm⟩

/-- Neither a repeated field of another kind nor the order makes a difference. -/
theorem frames_are_what_documents_spell_among_noise :
    let text := "\x7b\"type\":\"event\",\"channel\":\"logs\",\"body\":[7]\x7d"
    let noisy :=
      "\x7b\"error\":1,\"body\":[7],\"error\":[],\"channel\":\"logs\",\"type\":\"event\"\x7d"
    let body : Value := .array [.ofNat 7]
    ∃ members others, readNode text = some (.members members) ∧
      readNode noisy = some (.members others) ∧
      (knownMembers members).Perm (knownMembers others) ∧
      parse text = some (.event "logs" body) ∧ parse text = parse noisy := by
  intro text noisy body
  let known : List Member :=
    [("type", .string "event"), ("channel", .string "logs"), ("body", body)]
  let others : List Member :=
    [("error", .ofNat 1), ("body", body), ("error", .array []), ("channel", .string "logs"),
      ("type", .string "event")]
  have htext : readNode text = some (.members known) := by
    simp only [text, known, body]
    rfl
  have hnoisy : readNode noisy = some (.members others) := by
    simp only [noisy, others, body]
    rfl
  have hperm : (knownMembers known).Perm (knownMembers others) := by
    have hreverse : knownMembers others = (knownMembers known).reverse := rfl
    rw [hreverse]
    exact (List.reverse_perm _).symm
  have hspells : Spells (.members known) (.event "logs" body) := by
    refine .members (.event "logs" body) ?_ ?_
    · simp [GivenOnce, known]
    · simp [GivenOnce, known]
  have hframe := frames_are_what_documents_spell.1 text (.event "logs" body)
  exact ⟨known, others, htext, hnoisy, hperm, hframe.mpr ⟨_, htext, hspells⟩,
    frames_are_what_documents_spell.2 text noisy known others htext hnoisy hperm⟩

end DevMachine.Channel.Frame

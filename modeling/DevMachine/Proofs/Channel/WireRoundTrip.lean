import DevMachine.Proofs.Channel.WireGrammar
import DevMachine.Proofs.Json.RoundTrip
import Mathlib.Data.List.Nodup

/-!
# Frames come back as they were written

A frame whose body holds no double and nests within the reader's bound is read
back from its text.  A body that was read is within the bound and in order by
itself, so writing what was read gives a text that reading and writing leave
alone.
-/

namespace DevMachine.Channel.Frame

open Json

/-- The body of an event. -/
def body? : Frame → Option Value
  | .event _ body => some body
  | _ => none

theorem exists_timestampValue_eq (t : Int64) :
    ∃ n : Whole, timestampValue t = .number (.whole n) ∧ n.val = t.toInt := by
  have hlower := t.le_toInt
  have hupper := t.toInt_lt
  refine ⟨{ val := t.toInt, lower := by simpa using hlower, upper := by omega }, ?_, rfl⟩
  unfold timestampValue Value.ofInt Whole.ofInt?
  rw [dif_pos ⟨by simpa using hlower, by omega⟩]

/-- Fields are written as they are laid out, but for the channel of an error of
no channel. -/
theorem layout_fields {f : Frame} (hchannel : ∀ message, f ≠ .error none message) :
    Layout f.kind f.fields f := by
  have htime (t : Int64) := exists_timestampValue_eq t
  cases f with
  | subscribe channel t =>
      obtain ⟨n, heq, hn⟩ := htime t
      rw [fields, heq]
      exact .subscribe channel n t hn
  | unsubscribe channel t =>
      obtain ⟨n, heq, hn⟩ := htime t
      rw [fields, heq]
      exact .unsubscribe channel n t hn
  | heartbeat t =>
      obtain ⟨n, heq, hn⟩ := htime t
      rw [fields, heq]
      exact .heartbeat n t hn
  | event channel body => exact .event channel body
  | error channel message =>
      cases channel with
      | none => exact absurd rfl (hchannel message)
      | some channel => exact .errorOf channel message
  | heartbeatResponse t =>
      obtain ⟨n, heq, hn⟩ := htime t
      rw [fields, heq]
      exact .heartbeatResponse n t hn

theorem givenOnce_of_nodup {key : String} {v : Value} {members : List Member}
    (hkeys : (members.map (·.1)).Nodup) (hmem : (key, v) ∈ members) :
    GivenOnce key v members :=
  ⟨hmem, List.count_eq_one_of_mem hkeys (List.mem_map_of_mem (f := (·.1)) hmem)⟩

theorem nodup_keys (f : Frame) : ((("type", .string f.kind) :: f.fields).map (·.1)).Nodup := by
  cases f with
  | error channel message => cases channel <;> simp [fields]
  | _ => simp [fields]

theorem spells_written (f : Frame) :
    Spells (.members (("type", .string f.kind) :: f.fields)) f := by
  have hgiven {key : String} {v : Value} (hmem : (key, v) ∈ ("type", .string f.kind) :: f.fields) :=
    givenOnce_of_nodup (nodup_keys f) hmem
  by_cases hchannel : ∀ message, f ≠ .error none message
  · exact .members (layout_fields hchannel) (hgiven List.mem_cons_self)
      fun field hfield => hgiven (List.mem_cons_of_mem _ hfield)
  · -- no channel is written by leaving the field out
    push Not at hchannel
    obtain ⟨message, rfl⟩ := hchannel
    refine .noChannel (hgiven List.mem_cons_self) (by simp [fields]) (hgiven ?_)
    exact List.mem_cons_of_mem _ List.mem_cons_self

theorem lossless_of_plain {v : Value} (hplain : v.Plain) (hexact : ∀ x, v ≠ .number (.real x)) :
    v.depth ≤ 126 ∧ v.Ordered ∧ v.Exact := by
  refine ⟨by simp [hplain.depth_eq], hplain.ordered, ?_⟩
  intro x
  rw [hplain.parts_eq, List.mem_singleton]
  exact fun heq => hexact x heq.symm

theorem lossless_of_mem_fields {f : Frame}
    (hbody : ∀ body ∈ f.body?, body.depth ≤ 126 ∧ body.Ordered ∧ body.Exact) :
    ∀ m ∈ ("type", .string f.kind) :: f.fields,
      m.2.depth ≤ 126 ∧ m.2.Ordered ∧ m.2.Exact := by
  have htext (s : String) := lossless_of_plain (v := .string s) trivial (by simp)
  have htime (t : Int64) : (timestampValue t).depth ≤ 126 ∧ (timestampValue t).Ordered ∧
      (timestampValue t).Exact := by
    obtain ⟨n, heq, -⟩ := exists_timestampValue_eq t
    rw [heq]
    exact lossless_of_plain trivial (by simp)
  cases f with
  | event channel body => simp [fields, htext, hbody body rfl]
  | error channel message => cases channel <;> simp [fields, htext]
  | _ => simp [fields, htext, htime]

theorem parse_render {f : Frame}
    (hbody : ∀ body ∈ f.body?, body.depth ≤ 126 ∧ body.Ordered ∧ body.Exact) :
    parse f.render = some f :=
  parse_eq_some_iff.mpr ⟨_, readNode_membersChars (lossless_of_mem_fields hbody), spells_written f⟩

theorem Spells.body_mem_values {n : Node} {f : Frame} (h : Spells n f) :
    ∀ body ∈ f.body?, body ∈ n.values := by
  intro body hbody
  cases h with
  | items hlayout =>
      cases hlayout with
      | event channel inside =>
          obtain rfl := Option.some.inj hbody
          simp [Node.values]
      | _ => cases hbody
  | members hlayout hkind hfields =>
      cases hlayout with
      | event channel inside =>
          obtain rfl := Option.some.inj hbody
          have hgiven := hfields ("body", inside) (by simp)
          exact List.mem_map_of_mem (f := (·.2)) hgiven.1
      | _ => cases hbody
  | noChannel => cases hbody

theorem depth_le_and_ordered_of_parse {text : String} {f : Frame} (h : parse text = some f) :
    ∀ body ∈ f.body?, body.depth ≤ 126 ∧ body.Ordered := by
  obtain ⟨n, hn, hspells⟩ := parse_eq_some_iff.mp h
  exact fun body hbody =>
    depth_le_and_ordered_of_readNode hn body (hspells.body_mem_values body hbody)

/-- A frame without doubles is read back from its text, and the text of a frame
that was read is a normal form. -/
theorem written_frames_are_read_back :
    (∀ f : Frame, (∀ body ∈ f.body?, body.depth ≤ 126 ∧ body.Ordered ∧ body.Exact) →
      parse f.render = some f) ∧
    ∀ text f, parse text = some f → (∀ body ∈ f.body?, body.Exact) →
      parse f.render = some f ∧ ∀ g, parse f.render = some g → g = f ∧ g.render = f.render := by
  refine ⟨fun f hbody => parse_render hbody, ?_⟩
  intro text f htext hexact
  have hread : parse f.render = some f := by
    apply parse_render
    intro body hbody
    obtain ⟨hdepth, hordered⟩ := depth_le_and_ordered_of_parse htext body hbody
    exact ⟨hdepth, hordered, hexact body hbody⟩
  refine ⟨hread, ?_⟩
  intro g hg
  obtain rfl := Option.some.inj (hread.symm.trans hg)
  exact ⟨rfl, rfl⟩

/-- The largest integer and escaped characters come back in the body of an event,
and the array form of a heartbeat comes back as an object. -/
theorem written_frames_are_read_back_at_limits :
    let body : Value := .object
      [("line", .array [.string "\x01\\\"\n", .object []]),
        ("num", .number (.whole { val := 18446744073709551615 }))]
    let f : Frame := .event "out" body
    let text := "[\"heartbeat\", -9223372036854775808]"
    let g : Frame := .heartbeat Int64.minValue
    (body.depth ≤ 126 ∧ body.Ordered ∧ body.Exact) ∧ parse f.render = some f ∧
      parse text = some g ∧ parse g.render = some g := by
  intro body f text g
  have hbody : body.depth ≤ 126 ∧ body.Ordered ∧ body.Exact := by
    refine ⟨by decide, ?_, ?_⟩
    · have hkeys : "line" < "num" := by decide +kernel
      intro members hmembers
      simp only [body, Value.parts, membersParts, itemsParts, List.mem_append, List.mem_cons,
        List.not_mem_nil, Value.object.injEq, reduceCtorEq, or_false, false_or] at hmembers
      rcases hmembers with rfl | rfl
      · simpa [Ascending] using hkeys
      · exact List.Pairwise.nil
    · intro x
      simp [body, Value.parts, membersParts, itemsParts]
  have htext : parse text = some g := by
    simp only [text, g]
    rfl
  obtain ⟨hwritten, hread⟩ := written_frames_are_read_back
  refine ⟨hbody, hwritten f ?_, htext, (hread text g htext ?_).1⟩
  · intro inside hinside
    obtain rfl := Option.some.inj hinside
    exact hbody
  · intro inside hinside
    cases hinside

end DevMachine.Channel.Frame

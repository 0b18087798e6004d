import DevMachine.Proofs.Channel.WireGrammar
import DevMachine.Proofs.Json.Grammar
import DevMachine.Proofs.Logs.ReassemblyRun

/-!
# Payloads of log messages

What a payload says is what its members say, and of members with one key the last
one counts.  However it is written, a number of 64 bits and a line that is a string
come through as they are, a line of another kind as text that can be read again.
-/

namespace DevMachine

open Channel.Frame (GivenOnce givenOnce_iff mem_valuesOf_iff valuesOf)

namespace Json

variable {v : Value} {members : List Member} {text : String}

theorem findMember?_insertMember (key other : String) (v : Value) (members : List Member) :
    findMember? key (insertMember other v members) =
      if other = key then some v else findMember? key members := by
  induction members with
  | nil => rfl
  | cons m members ih =>
      obtain ⟨k, u⟩ := m
      rw [insertMember]
      split
      next heq =>
        subst heq
        by_cases hkey : other = key <;> simp [findMember?, hkey]
      next hne =>
        split
        · rfl
        next =>
          by_cases hk : k = key
          · have hother : other ≠ key := fun h => hne (h.trans hk.symm)
            simp [findMember?, hk, hother]
          · simp [findMember?, hk, ih]

theorem member?_ofMembers (key : String) (members : List Member) :
    (Value.ofMembers members).member? key = (valuesOf key members).getLast? := by
  -- from the last member on, which is put in after all others
  change findMember? key (members.foldl (fun kept m => insertMember m.1 m.2 kept) []) = _
  induction members using List.reverseRecOn with
  | nil => rfl
  | append_singleton members m ih =>
      rw [List.foldl_append, List.foldl_cons, List.foldl_nil, findMember?_insertMember, ih]
      unfold valuesOf
      rw [List.filter_append, List.map_append, List.getLast?_append]
      by_cases hm : m.1 = key <;> simp [hm]

theorem uint64?_eq_some_iff {n : UInt64} :
    v.uint64? = some n ↔ v = .number (.whole (.ofUInt64 n)) := by
  constructor
  · intro h
    unfold Value.uint64? Value.int? at h
    split at h
    next k hk =>
      split at hk
      next w =>
        obtain rfl := Option.some.inj hk
        obtain ⟨val, hlower, hupper⟩ := w
        dsimp only at h
        split at h
        next hle =>
          obtain rfl := Option.some.inj h
          have hval : ((UInt64.ofNat val.toNat).toNat : Int) = val := by
            rw [UInt64.toNat_ofNat']
            omega
          simp only [Whole.ofUInt64, hval]
        · cases h
      · cases hk
    · cases h
  · rintro rfl
    simp [Value.uint64?, Value.int?, Whole.ofUInt64]

theorem read_render (hdepth : v.depth ≤ maxLevels) (hordered : v.Ordered) (hexact : v.Exact) :
    read v.render = some v := by
  have hvalue : value (126 + 1) (v.chars ++ []) = some (v, []) :=
    value_chars hdepth hordered hexact fun c hc => nomatch hc
  have hspace := skipSpace_chars hexact []
  rw [List.append_nil] at hvalue hspace
  rw [value] at hvalue
  obtain ⟨⟨n, r⟩, hnode, heq⟩ := Option.map_eq_some_iff.mp hvalue
  cases heq
  have hlevels : maxLevels - 1 = 126 := rfl
  rw [read, readNode, Value.render, String.toList_ofList, hspace, hlevels, hnode]
  rfl

end Json

namespace Logs

open Json

variable {payload : String} {ms : List Member}

theorem read_of_documentText (hdocument : DocumentText (.members ms) payload.toList) :
    read payload = some (.ofMembers ms) := by
  rw [Json.read, readNode_eq_some_iff.mpr hdocument]
  rfl

/-- The number that members give, 0 where they give none that fits. -/
def numberGiven (ms : List Member) : UInt64 :=
  ((valuesOf "num" ms).getLast?.bind Value.uint64?).getD 0

/-- The message of a payload is told by the last members of the two keys. -/
theorem parse_of_documentText (hdocument : DocumentText (.members ms) payload.toList) {line : Value}
    (hline : (valuesOf "line" ms).getLast? = some line) :
    Message.parse payload = .ok { number := numberGiven ms, text := lineText line } := by
  obtain ⟨kept, hkept, -⟩ := Value.exists_ofMembers_eq ms
  have hfind (key : String) : findMember? key kept = (valuesOf key ms).getLast? := by
    rw [← member?_ofMembers, hkept]
    rfl
  rw [Message.parse, read_of_documentText hdocument, hkept]
  simp only [Message.ofValue, hfind, hline, lineNumber, numberGiven]

theorem getLast?_of_givenOnce {key : String} {v : Value} (h : GivenOnce key v ms) :
    (valuesOf key ms).getLast? = some v := by
  rw [givenOnce_iff.mp h]
  rfl

theorem numberGiven_of_getLast? {n : UInt64}
    (h : (valuesOf "num" ms).getLast? = some (.number (.whole (.ofUInt64 n)))) :
    numberGiven ms = n := by
  rw [numberGiven, h, Option.bind_some, uint64?_eq_some_iff.mpr rfl, Option.getD_some]

theorem numberGiven_eq_zero
    (h : ∀ n, (valuesOf "num" ms).getLast? ≠ some (.number (.whole (.ofUInt64 n)))) :
    numberGiven ms = 0 := by
  unfold numberGiven
  cases hlast : (valuesOf "num" ms).getLast? with
  | none => rfl
  | some v =>
      have hnone : v.uint64? = none := by
        rw [Option.eq_none_iff_forall_ne_some]
        intro n hn
        rw [uint64?_eq_some_iff.mp hn] at hlast
        exact h n hlast
      rw [Option.bind_some, hnone, Option.getD_none]

theorem depth_le_and_ordered_of_line (hdocument : DocumentText (.members ms) payload.toList)
    {line : Value} (hline : line ∈ valuesOf "line" ms) :
    line.depth ≤ maxLevels ∧ line.Ordered := by
  have hvalues := depth_le_and_ordered_of_readNode (readNode_eq_some_iff.mpr hdocument)
  have hmem : line ∈ (Node.members ms).values :=
    List.mem_map.mpr ⟨_, mem_valuesOf_iff.mp hline, rfl⟩
  obtain ⟨hdepth, hordered⟩ := hvalues line hmem
  exact ⟨Nat.le_succ_of_le hdepth, hordered⟩

theorem lineText_of_ne {line : Value} (hnull : line ≠ .null) (hstring : ∀ s, line ≠ .string s) :
    lineText line = line.render := by
  cases line with
  | null => exact absurd rfl hnull
  | string s => exact absurd rfl (hstring s)
  | _ => rfl

theorem accept_number_zero (ops : List Reassembly.Operation) (text : String) :
    (Reassembly.after {} ops).accept { number := 0, text } = ([], Reassembly.after {} ops) :=
  Reassembly.accept_of_le (Reassembly.after_wellFormed Reassembly.wellFormed_initial ops)
    UInt64.zero_le

/-- However a payload is written, its number and its line are what its members
say; a line of another kind is not lost, and without a number of 64 bits the
message has no effect. -/
theorem payloads_decoded_without_loss :
    (∀ n t, NumberText (.whole (.ofUInt64 n)) t ↔ t = Nat.toDigits 10 n.toNat) ∧
    ∀ (payload : String) (ms : List Member), DocumentText (.members ms) payload.toList →
      (∀ n s, GivenOnce "num" (.number (.whole (.ofUInt64 n))) ms →
        GivenOnce "line" (.string s) ms →
          Message.parse payload = .ok { number := n, text := s }) ∧
      ∀ line, (valuesOf "line" ms).getLast? = some line →
        (line ≠ .null → (∀ s, line ≠ .string s) → line.Exact →
          ∃ m, Message.parse payload = .ok m ∧ read m.text = some line) ∧
        ((∀ n, (valuesOf "num" ms).getLast? ≠ some (.number (.whole (.ofUInt64 n)))) →
          Message.parse payload = .ok { number := 0, text := lineText line } ∧
          ∀ ops, (Reassembly.after {} ops).accept { number := 0, text := lineText line } =
            ([], Reassembly.after {} ops)) := by
  refine ⟨?_, fun payload ms hdocument => ⟨?_, fun line hline => ⟨?_, ?_⟩⟩⟩
  · intro n t
    have hpositive : ¬((n.toNat : Int) < 0) := by omega
    rw [numberText_whole_iff, Whole.ofUInt64, wholeChars, if_neg hpositive, Int.natAbs_natCast]
  · intro n s hnumber hline
    rw [parse_of_documentText hdocument (getLast?_of_givenOnce hline),
      numberGiven_of_getLast? (getLast?_of_givenOnce hnumber)]
    rfl
  · intro hnull hstring hexact
    obtain ⟨hdepth, hordered⟩ :=
      depth_le_and_ordered_of_line hdocument (List.mem_of_getLast? hline)
    refine ⟨_, parse_of_documentText hdocument hline, ?_⟩
    rw [lineText_of_ne hnull hstring]
    exact read_render hdepth hordered hexact
  · intro hnumber
    rw [parse_of_documentText hdocument hline, numberGiven_eq_zero hnumber]
    exact ⟨rfl, fun ops => accept_number_zero ops _⟩

/-- Spaces, escapes and other members make no difference, and a line that is an
array is read back although its number is no good. -/
theorem payloads_decoded_without_loss_past_spaces_and_escapes :
    let payload := " \x7b\"rest\" : [1, -2],\n\t\"li\\u006ee\":\"\\ud83d\\ude00\\/\"," ++
      " \"num\" :18446744073709551615 \x7d"
    let other := "\x7b\"num\":-1,\"line\":[ 7,\x7b\"b\":null,\"a\":\"x\"\x7d]\x7d"
    let line : Value :=
      .array [.number (.whole (.ofUInt64 7)), .object [("a", .string "x"), ("b", .null)]]
    let message : Message := { number := 0, text := lineText line }
    Message.parse payload = .ok { number := 18446744073709551615, text := "😀/" } ∧
      (∃ m, Message.parse other = .ok m ∧ read m.text = some line) ∧
      Message.parse other = .ok message ∧
      (Reassembly.after {} []).accept message = ([], Reassembly.after {} []) := by
  intro payload other line message
  let members : List Member :=
    [("rest", .array [.ofInt 1, .ofInt (-2)]), ("line", .string "😀/"),
      ("num", .number (.whole (.ofUInt64 18446744073709551615)))]
  let others : List Member := [("num", .ofInt (-1)), ("line", line)]
  have hpayload : readNode payload = some (.members members) := by
    simp only [payload, members]
    rfl
  have hother : readNode other = some (.members others) := by
    simp only [other, others, line]
    rfl
  have hmembers := (payloads_decoded_without_loss.2 payload members
    (readNode_eq_some_iff.mp hpayload)).1 18446744073709551615 "😀/"
  obtain ⟨hline, hnumber⟩ := (payloads_decoded_without_loss.2 other others
    (readNode_eq_some_iff.mp hother)).2 line rfl
  have hgood : ∀ n, (valuesOf "num" others).getLast? ≠ some (.number (.whole (.ofUInt64 n))) := by
    intro n h
    have hlast : (valuesOf "num" others).getLast? = some (.ofInt (-1)) := rfl
    have hsome := uint64?_eq_some_iff.mpr (Option.some.inj (hlast.symm.trans h))
    have hnone : (Value.ofInt (-1)).uint64? = none := rfl
    cases hnone.symm.trans hsome
  refine ⟨hmembers ?_ ?_, hline ?_ ?_ ?_, (hnumber hgood).1, (hnumber hgood).2 []⟩
  · simp [GivenOnce, members]
  · simp [GivenOnce, members]
  · simp [line]
  · simp [line]
  · intro x
    simp [line, Value.parts, itemsParts, membersParts]

end Logs

end DevMachine

import DevMachine.Proofs.Text.Decoding
import DevMachine.Proofs.Text.MaximalSubparts
import Mathlib.Data.List.Basic

/-!
# Lines may be cut before they are decoded

A line feed or carriage return octet stands for its character wherever it comes, and no
other octets give one of these characters.  So the segments of the octets are decoded to
the pieces of the text, and a carriage return ends a segment iff its character ends the
piece.
-/

namespace DevMachine.Text

/-- The pieces of a text between its line feed characters. -/
def cutText (text : String) : List String := (text.split '\n').toList.map String.Slice.copy

/-- Drops one carriage return character from the end of a piece. -/
def dropReturnChar (piece : String) : String :=
  if piece.toList.getLast? = some '\r' then String.ofList piece.toList.dropLast else piece

/-- The lines of a whole text; behind its last line feed character there is none when
nothing follows it. -/
def textLines (text : String) : List String :=
  let cut := cutText text
  (if cut.getLast? = some "" then cut.dropLast else cut).map dropReturnChar

namespace Utf8

theorem decodeLossy_eq_empty_iff {octets : Octets} : decodeLossy octets = "" ↔ octets = [] := by
  simp [decodeLossy, pieces, piecesFrom_eq_nil_iff]

theorem of_decodeLossy_append {octets : Octets} {front back : List Char} {c : Char}
    (hc : c ≠ '\ufffd') (h : (decodeLossy octets).toList = front ++ c :: back) :
    ∃ before after, octets = before ++ (String.utf8EncodeChar c ++ after) ∧
      (decodeLossy after).toList = back := by
  simp only [decodeLossy, String.toList_ofList] at h ⊢
  obtain ⟨ps, qs, hpieces, -, hqs⟩ := List.map_eq_append_iff.mp h
  obtain ⟨piece, rs, rfl, hshown, hrs⟩ := List.map_eq_cons_iff.mp hqs
  obtain rfl : piece = .scalar c := by
    cases piece with
    | scalar c' => exact congrArg Piece.scalar hshown
    | malformed => exact absurd hshown.symm hc
  obtain ⟨before, after, rfl, hafter⟩ := (spelled_iff.mpr hpieces.symm).of_append
  exact ⟨before, after, rfl, by rw [← spelled_iff.mp hafter, hrs]⟩

/-- A line feed stays where it is between what is decoded on its two sides. -/
theorem decodeLossy_line (line rest : Octets) :
    (decodeLossy (line ++ 0x0a :: rest)).toList =
      (decodeLossy line).toList ++ '\n' :: (decodeLossy rest).toList :=
  decodeLossy_append_ascii (by decide) line rest

theorem lineFeed_not_mem_decodeLossy {octets : Octets} (hopen : 0x0a ∉ octets) :
    '\n' ∉ (decodeLossy octets).toList := by
  intro hmem
  obtain ⟨front, back, htext⟩ := List.append_of_mem hmem
  obtain ⟨before, after, rfl, -⟩ := of_decodeLossy_append (by decide) htext
  exact hopen (List.mem_append_right _ (List.mem_append_left _ List.mem_cons_self))

theorem getLast?_decodeLossy_eq_return_iff {octets : Octets} :
    (decodeLossy octets).toList.getLast? = some '\r' ↔ octets.getLast? = some 0x0d := by
  constructor
  · intro htext
    obtain ⟨front, hfront⟩ := List.getLast?_eq_some_iff.mp htext
    obtain ⟨before, after, rfl, hafter⟩ := of_decodeLossy_append (by decide) hfront
    obtain rfl : after = [] := decodeLossy_eq_empty_iff.mp (String.toList_eq_nil_iff.mp hafter)
    exact List.getLast?_concat
  · intro hoctets
    obtain ⟨front, rfl⟩ := List.getLast?_eq_some_iff.mp hoctets
    rw [decodeLossy_append_ascii (by decide)]
    exact List.getLast?_concat

end Utf8

theorem dropReturnChar_decodeLossy (segment : Octets) :
    dropReturnChar (Utf8.decodeLossy segment) = lineText segment := by
  simp only [dropReturnChar, lineText, dropReturn, Utf8.getLast?_decodeLossy_eq_return_iff]
  split
  next hreturn =>
    obtain ⟨front, rfl⟩ := List.getLast?_eq_some_iff.mp hreturn
    have hfront : (Utf8.decodeLossy (front ++ [0x0d])).toList =
        (Utf8.decodeLossy front).toList ++ ['\r'] :=
      Utf8.decodeLossy_append_ascii (by decide) front []
    rw [hfront, List.dropLast_concat, List.dropLast_concat, String.ofList_toList]
  next => rfl

theorem map_lineText (cut : List Octets) :
    cut.map lineText = (cut.map Utf8.decodeLossy).map dropReturnChar := by
  rw [List.map_map]
  exact List.map_congr_left fun segment _ => (dropReturnChar_decodeLossy segment).symm

theorem cutText_decodeLossy (octets : Octets) :
    cutText (Utf8.decodeLossy octets) = (octets.splitOn 0x0a).map Utf8.decodeLossy := by
  rw [cutText, String.toList_split_char]
  induction octets using induction_on_lines with
  | unfinished line hopen =>
      rw [List.splitOn_eq_singleton hopen,
        List.splitOn_eq_singleton (Utf8.lineFeed_not_mem_decodeLossy hopen), List.map_singleton,
        List.map_singleton, String.ofList_toList]
  | ended line hopen rest ih =>
      rw [Utf8.decodeLossy_line, List.splitOn_append_cons_self_of_not_mem hopen,
        List.splitOn_append_cons_self_of_not_mem (Utf8.lineFeed_not_mem_decodeLossy hopen),
        List.map_cons, List.map_cons, String.ofList_toList, ih]

theorem lineTexts_eq_pieces (octets : Octets) :
    (octets.splitOn 0x0a).map lineText =
      (cutText (Utf8.decodeLossy octets)).map dropReturnChar := by
  rw [cutText_decodeLossy, map_lineText]

theorem wholeLines_eq_textLines (octets : Octets) :
    wholeLines octets = textLines (Utf8.decodeLossy octets) := by
  have hlast : ((octets.splitOn 0x0a).map Utf8.decodeLossy).getLast? = some "" ↔
      (octets.splitOn 0x0a).getLast? = some [] := by
    simp [List.getLast?_map, Option.map_eq_some_iff, Utf8.decodeLossy_eq_empty_iff]
  simp only [textLines, cutText_decodeLossy, hlast, wholeLines, segments]
  split
  next =>
    rw [← List.map_dropLast]
    exact map_lineText _
  next => exact map_lineText _

theorem count_lineText {c : Char} (hreturn : c ≠ '\r') (segment : Octets) :
    (lineText segment).toList.count c = (Utf8.decodeLossy segment).toList.count c := by
  rw [← dropReturnChar_decodeLossy, dropReturnChar]
  split
  next hlast =>
    obtain ⟨front, hfront⟩ := List.getLast?_eq_some_iff.mp hlast
    simp [hfront, hreturn.symm]
  next => rfl

theorem sum_count_lineTexts {c : Char} (hfeed : c ≠ '\n') (hreturn : c ≠ '\r')
    (octets : Octets) :
    ((octets.splitOn 0x0a).map fun segment => (lineText segment).toList.count c).sum =
      (Utf8.decodeLossy octets).toList.count c := by
  induction octets using induction_on_lines with
  | unfinished line hopen =>
      rw [List.splitOn_eq_singleton hopen, List.map_singleton, List.sum_singleton,
        count_lineText hreturn]
  | ended line hopen rest ih =>
      rw [Utf8.decodeLossy_line, List.splitOn_append_cons_self_of_not_mem hopen, List.map_cons,
        List.sum_cons, ih, count_lineText hreturn, List.count_append,
        List.count_cons_of_ne hfeed.symm]

/-- Every line feed ends a line, and there is another line when something follows the last
of them. -/
theorem length_wholeLines (octets : Octets) :
    (wholeLines octets).length =
      octets.count 0x0a + if (0x0a :: octets).getLast? = some 0x0a then 0 else 1 := by
  induction octets using induction_on_lines with
  | unfinished line hopen =>
      rw [wholeLines_of_not_mem hopen, List.count_eq_zero_of_not_mem hopen, Nat.zero_add]
      by_cases hempty : line = []
      · rw [hempty]
        rfl
      · have hlast : (0x0a :: line).getLast? ≠ some 0x0a := by
          rw [List.getLast?_cons_of_ne_nil hempty]
          exact fun hfeed => hopen (List.mem_of_getLast? hfeed)
        rw [if_neg hempty, if_neg hlast]
        rfl
  | ended line hopen rest ih =>
      rw [wholeLines_line hopen, List.length_cons, ih, List.count_append,
        List.count_eq_zero_of_not_mem hopen, List.count_cons_self, ← List.cons_append,
        List.getLast?_append_cons]
      omega

namespace Utf8.BrokenOff

variable {unit : Octets} {b : UInt8}

theorem ascii_not_mem (h : BrokenOff unit) (hb : b < 0x80) : b ∉ unit := by
  intro hmem
  obtain ⟨front, rest, rfl⟩ := List.append_of_mem hmem
  have hpieces := pieces_append_ascii hb front rest
  rw [h.pieces_eq] at hpieces
  have hscalar : Piece.scalar (Char.ofNat b.toNat) ∈ [Piece.malformed] := by
    rw [hpieces]
    simp
  simp at hscalar

/-- It is shown as one replacement character and leaves the ASCII octet behind it alone. -/
theorem decodeLossy_append (h : BrokenOff unit) (hb : b < 0x80) (front rest : Octets) :
    decodeLossy (front ++ unit ++ b :: rest) =
      decodeLossy front ++ "\ufffd" ++
        (String.singleton (Char.ofNat b.toNat) ++ decodeLossy rest) := by
  have hunit : (decodeLossy (front ++ unit)).toList = (decodeLossy front).toList ++ ['\ufffd'] := by
    simp [decodeLossy, h.pieces_append, Piece.shown]
  rw [← String.toList_inj, decodeLossy_append_ascii hb, hunit]
  simp

theorem length_wholeLines_append (h : BrokenOff unit) (front rest : Octets) :
    (wholeLines (front ++ unit ++ b :: rest)).length =
      (wholeLines (front ++ b :: rest)).length := by
  have hcount : unit.count 0x0a = 0 :=
    List.count_eq_zero_of_not_mem (h.ascii_not_mem (by decide))
  have hlast (front : Octets) : (0x0a :: (front ++ b :: rest)).getLast? = (b :: rest).getLast? :=
    List.getLast?_append_cons (0x0a :: front) b rest
  rw [length_wholeLines, length_wholeLines, hlast, hlast]
  simp only [List.count_append, hcount, Nat.add_zero]

end Utf8.BrokenOff

/-- Cutting octets into lines and decoding each gives the lines of the decoded whole: for all
segments, and for a stream in chunks, whose last line is left out when it is empty.  What breaks
off in front of a line feed or carriage return costs neither that octet nor a line and is one
replacement character. -/
theorem lines_are_lines_of_text (octets : Octets) :
    (∀ (part : Octets) (text : String), Utf8.Shows part text ↔ text = Utf8.decodeLossy part) ∧
    (octets.splitOn 0x0a).map lineText =
      (cutText (Utf8.decodeLossy octets)).map dropReturnChar ∧
    (∀ chunks : List Octets, chunks.flatten = octets →
      LineBuffer.takeIn {} chunks = (textLines (Utf8.decodeLossy octets), {})) ∧
    (∀ c : Char, c ≠ '\n' → c ≠ '\r' →
      ((octets.splitOn 0x0a).map fun segment => (lineText segment).toList.count c).sum =
        (Utf8.decodeLossy octets).toList.count c) ∧
    ∀ (front unit rest : Octets) (b : UInt8), Utf8.BrokenOff unit → b = 0x0a ∨ b = 0x0d →
      octets = front ++ unit ++ b :: rest →
        Utf8.decodeLossy octets = Utf8.decodeLossy front ++ "\ufffd" ++
          (String.singleton (Char.ofNat b.toNat) ++ Utf8.decodeLossy rest) ∧
        (wholeLines octets).length = (wholeLines (front ++ b :: rest)).length := by
  refine ⟨fun _ _ => Utf8.shows_iff, lineTexts_eq_pieces octets, ?_, ?_, ?_⟩
  · rintro chunks rfl
    rw [← wholeLines_eq_textLines]
    exact LineBuffer.takeIn_eq List.not_mem_nil chunks
  · intro c hfeed hreturn
    exact sum_count_lineTexts hfeed hreturn octets
  · rintro front unit rest b hunit hb rfl
    have hascii : b < 0x80 := by
      rcases hb with rfl | rfl <;> decide
    exact ⟨hunit.decodeLossy_append hascii front rest, hunit.length_wholeLines_append front rest⟩

/-- A sequence breaks off before a line feed and one before a carriage return, both cut into
chunks, and a line feed that is too long is none. -/
theorem lines_are_lines_of_text_past_broken_sequences :
    let rest : Octets := [0x0a, 0xc0, 0x8a, 0xc3, 0xa9]
    let front : Octets := [0x61, 0xe2, 0x82, 0x0a]
    let chunks : List Octets := [[0x61, 0xe2], [0x82, 0x0a, 0xf0], [], [0x9f, 0x98, 0x0d], rest]
    let text := Utf8.decodeLossy chunks.flatten
    Utf8.BrokenOff [0xf0, 0x9f, 0x98] ∧
      chunks.flatten = front ++ [0xf0, 0x9f, 0x98] ++ 0x0d :: rest ∧
      text = Utf8.decodeLossy front ++ "\ufffd" ++ ("\r" ++ Utf8.decodeLossy rest) ∧
      textLines text = ["a\ufffd", "\ufffd", "\ufffd\ufffdé"] ∧ text.toList.count '\ufffd' = 4 := by
  intro rest front chunks text
  have hunit : Utf8.BrokenOff [0xf0, 0x9f, 0x98] := ⟨by decide, '😀', [0x80], by decide, by decide⟩
  have hoctets : chunks.flatten = front ++ [0xf0, 0x9f, 0x98] ++ 0x0d :: rest := rfl
  obtain ⟨-, -, hbuffer, hcount, hbroken⟩ := lines_are_lines_of_text chunks.flatten
  have hlines : LineBuffer.takeIn {} chunks = (["a\ufffd", "\ufffd", "\ufffd\ufffdé"], {}) := by
    decide +kernel
  refine ⟨hunit, hoctets, (hbroken front _ rest 0x0d hunit (.inr rfl) hoctets).1, ?_, ?_⟩
  · rw [hbuffer chunks rfl] at hlines
    exact congrArg Prod.fst hlines
  · rw [← hcount '\ufffd' (by decide) (by decide)]
    decide +kernel

end DevMachine.Text

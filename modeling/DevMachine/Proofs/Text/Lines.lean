import DevMachine.Text.Lines

/-!
# Lines do not depend on chunks

A line buffer holds the octets behind the last line feed, and none of them is a
line feed.  It follows octet by octet that what was given out, together with
the lines of what is held and what is still to come, is always the lines of the
whole stream.
-/

namespace DevMachine.Text

/-- The segments between line feeds; behind the last one there is none when
nothing follows it. -/
def segments (octets : Octets) : List Octets :=
  let cut := octets.splitOn 0x0a
  if cut.getLast? = some [] then cut.dropLast else cut

/-- The lines of a whole octet stream. -/
def wholeLines (octets : Octets) : List String :=
  (segments octets).map fun segment => Utf8.decodeLossy (dropReturn segment)

/-- The lines that have ended with a line feed. -/
def endedLines (octets : Octets) : List String :=
  (octets.splitOn 0x0a).dropLast.map fun segment => Utf8.decodeLossy (dropReturn segment)

/-- Octets are a line that has not ended, or one with its line feed in front of others. -/
@[elab_as_elim]
theorem induction_on_lines {motive : Octets → Prop}
    (unfinished : ∀ line, 0x0a ∉ line → motive line)
    (ended : ∀ line, 0x0a ∉ line → ∀ rest, motive rest → motive (line ++ 0x0a :: rest))
    (octets : Octets) : motive octets := by
  by_cases hmem : 0x0a ∈ octets
  · obtain ⟨line, rest, heq, hopen⟩ := List.eq_append_cons_of_mem hmem
    have hshorter : rest.length < octets.length := by
      rw [heq, List.length_append, List.length_cons]
      omega
    rw [heq]
    exact ended line hopen rest (induction_on_lines unfinished ended rest)
  · exact unfinished octets hmem
termination_by octets.length

theorem wholeLines_of_not_mem {octets : Octets} (hopen : 0x0a ∉ octets) :
    wholeLines octets = if octets = [] then [] else [lineText octets] := by
  unfold wholeLines segments
  rw [List.splitOn_eq_singleton hopen]
  by_cases hempty : octets = []
  · simp [hempty]
  · simp [hempty, lineText]

theorem wholeLines_line {line : Octets} (hopen : 0x0a ∉ line) (rest : Octets) :
    wholeLines (line ++ 0x0a :: rest) = lineText line :: wholeLines rest := by
  have hne : rest.splitOn 0x0a ≠ [] := List.splitOn_ne_nil _ _
  have hlast : (line :: rest.splitOn 0x0a).getLast? = (rest.splitOn 0x0a).getLast? :=
    List.getLast?_cons_of_ne_nil hne
  simp only [wholeLines, segments, List.splitOn_append_cons_self_of_not_mem hopen, hlast,
    List.dropLast_cons_of_ne_nil hne]
  split <;> rfl

theorem endedLines_of_not_mem {octets : Octets} (hopen : 0x0a ∉ octets) :
    endedLines octets = [] := by
  rw [endedLines, List.splitOn_eq_singleton hopen]
  rfl

theorem endedLines_line {line : Octets} (hopen : 0x0a ∉ line) (rest : Octets) :
    endedLines (line ++ 0x0a :: rest) = lineText line :: endedLines rest := by
  rw [endedLines, List.splitOn_append_cons_self_of_not_mem hopen,
    List.dropLast_cons_of_ne_nil (List.splitOn_ne_nil _ _)]
  rfl

theorem cutLines_of_not_mem {octets : Octets} (hopen : 0x0a ∉ octets) :
    cutLines octets = ([], octets) := by
  induction octets with
  | nil => rfl
  | cons b octets ih =>
      simp only [List.mem_cons, not_or] at hopen
      obtain ⟨hb, hrest⟩ := hopen
      rw [cutLines, ih hrest]
      simp [Ne.symm hb]

theorem cutLines_line {line : Octets} (hopen : 0x0a ∉ line) (rest : Octets) :
    cutLines (line ++ 0x0a :: rest) = (line :: (cutLines rest).1, (cutLines rest).2) := by
  induction line with
  | nil => rfl
  | cons b line ih =>
      simp only [List.mem_cons, not_or] at hopen
      obtain ⟨hb, hrest⟩ := hopen
      rw [List.cons_append, cutLines, ih hrest]
      simp [Ne.symm hb]

namespace LineBuffer

/-- No line has ended in the octets that are held. -/
def Open (buffer : LineBuffer) : Prop := 0x0a ∉ buffer.unfinished

theorem push_nil {buffer : LineBuffer} (hopen : buffer.Open) : buffer.push [] = ([], buffer) := by
  rw [push, List.append_nil, cutLines_of_not_mem hopen]
  rfl

/-- A line feed gives out what was held, any other octet is held too. -/
theorem push_cons {buffer : LineBuffer} (hopen : buffer.Open) (b : UInt8) (chunk : Octets) :
    buffer.push (b :: chunk) =
      if b = 0x0a then
        (lineText buffer.unfinished :: (push {} chunk).1, (push {} chunk).2)
      else push { unfinished := buffer.unfinished ++ [b] } chunk := by
  split
  next hb =>
    subst hb
    simp only [push, cutLines_line hopen]
    rfl
  next hb => simp only [push, List.append_assoc, List.singleton_append]

/-- What a chunk gives out stands in front of the lines of what is left, whatever
counts as a line behind the last line feed. -/
theorem push_spec {lines : Octets → List String}
    (hlines : ∀ line : Octets, 0x0a ∉ line → ∀ rest : Octets,
      lines (line ++ 0x0a :: rest) = lineText line :: lines rest)
    {buffer : LineBuffer} (hopen : buffer.Open) (chunk rest : Octets) :
    (buffer.push chunk).2.Open ∧
      lines (buffer.unfinished ++ (chunk ++ rest)) =
        (buffer.push chunk).1 ++ lines ((buffer.push chunk).2.unfinished ++ rest) := by
  induction chunk generalizing buffer with
  | nil =>
      rw [push_nil hopen]
      exact ⟨hopen, rfl⟩
  | cons b chunk ih =>
      rw [push_cons hopen]
      by_cases hb : b = 0x0a
      · subst hb
        have hfresh : Open {} := List.not_mem_nil
        obtain ⟨hafter, hrest⟩ := ih hfresh
        rw [if_pos rfl]
        refine ⟨hafter, ?_⟩
        rw [List.cons_append, hlines _ hopen, List.cons_append, ← hrest]
        rfl
      · have hheld : Open { unfinished := buffer.unfinished ++ [b] } := by
          simpa [Open, Ne.symm hb] using hopen
        obtain ⟨hafter, hrest⟩ := ih hheld
        rw [if_neg hb]
        refine ⟨hafter, ?_⟩
        rw [← hrest, List.append_assoc, List.cons_append, List.singleton_append]

/-- Takes in chunks one after the other. -/
def pushAll (buffer : LineBuffer) : List Octets → List String × LineBuffer
  | [] => ([], buffer)
  | chunk :: chunks =>
    let (lines, buffer) := buffer.push chunk
    let (more, buffer) := buffer.pushAll chunks
    (lines ++ more, buffer)

/-- Takes in a stream in chunks up to its end. -/
def takeIn (buffer : LineBuffer) (chunks : List Octets) : List String × LineBuffer :=
  let (lines, buffer) := buffer.pushAll chunks
  let (last, buffer) := buffer.finish
  (lines ++ last.toList, buffer)

/-- Takes in streams one after the other, each in chunks of its own. -/
def takeInEach (buffer : LineBuffer) : List (List Octets) → List (List String) × LineBuffer
  | [] => ([], buffer)
  | chunks :: streams =>
    let (lines, buffer) := buffer.takeIn chunks
    let (more, buffer) := buffer.takeInEach streams
    (lines :: more, buffer)

theorem takeIn_eq {buffer : LineBuffer} (hopen : buffer.Open) (chunks : List Octets) :
    buffer.takeIn chunks = (wholeLines (buffer.unfinished ++ chunks.flatten), {}) := by
  induction chunks generalizing buffer with
  | nil =>
      rw [List.flatten_nil, List.append_nil, wholeLines_of_not_mem hopen]
      simp only [takeIn, pushAll, finish, List.nil_append, Prod.mk.injEq, and_true]
      by_cases hempty : buffer.unfinished = [] <;> simp [hempty]
  | cons chunk chunks ih =>
      obtain ⟨hafter, hlines⟩ := push_spec (fun _ => wholeLines_line) hopen chunk chunks.flatten
      have hrest := ih hafter
      simp only [takeIn, Prod.mk.injEq] at hrest
      rw [List.flatten_cons, hlines, ← hrest.1]
      simp only [takeIn, pushAll, List.append_assoc, Prod.mk.injEq, true_and]
      exact hrest.2

/-- Before the end the lines that have ended have been given out. -/
theorem pushAll_eq {buffer : LineBuffer} (hopen : buffer.Open) (chunks : List Octets) :
    (buffer.pushAll chunks).1 = endedLines (buffer.unfinished ++ chunks.flatten) := by
  induction chunks generalizing buffer with
  | nil =>
      rw [List.flatten_nil, List.append_nil, endedLines_of_not_mem hopen]
      rfl
  | cons chunk chunks ih =>
      obtain ⟨hafter, hlines⟩ := push_spec (fun _ => endedLines_line) hopen chunk chunks.flatten
      rw [List.flatten_cons, hlines, ← ih hafter]
      rfl

/-- However streams are cut into chunks, each gives the lines of the whole, and the
buffer is as new after it. -/
theorem streams_give_whole_lines (streams : List (List Octets)) :
    takeInEach {} streams = (streams.map fun chunks => wholeLines chunks.flatten, {}) := by
  induction streams with
  | nil => rfl
  | cons chunks streams ih =>
      have hfirst : takeIn {} chunks = (wholeLines chunks.flatten, {}) :=
        takeIn_eq List.not_mem_nil chunks
      simp only [takeInEach, hfirst, ih, List.map_cons]

/-- A carriage return, its line feed and a character are cut apart. -/
example : takeInEach {} [[[0x61, 0x0d], [0x0a, 0xc3], [], [0xa9]], [[0x0d]]] =
    ([["a", "é"], [""]], {}) := by decide +kernel

end LineBuffer

end DevMachine.Text

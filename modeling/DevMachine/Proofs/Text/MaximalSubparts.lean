import DevMachine.Proofs.Text.Sequences

/-!
# One replacement character for each maximal subpart

Octets fall into the sequences of characters and, where none begins, into maximal
subparts: the longest front that breaks off inside some sequence, or one octet where
there is no such front.  There is only one way to spell octets like this, and the
decoder's is one.
-/

namespace DevMachine.Text.Utf8

/-- Octets that break off inside the sequence of a character. -/
def BrokenOff (unit : Octets) : Prop :=
  unit ≠ [] ∧ ∃ (c : Char) (lacking : Octets),
    lacking ≠ [] ∧ String.utf8EncodeChar c = unit ++ lacking

/-- The malformed unit in front of the rest, where no character begins. -/
structure MaximalSubpart (unit rest : Octets) : Prop where
  no_character : ∀ c : Char, ¬String.utf8EncodeChar c <+: unit ++ rest
  brokenOff_or_single : BrokenOff unit ∨ unit.length = 1
  longest : ∀ longer, longer <+: unit ++ rest → BrokenOff longer → longer.length ≤ unit.length

/-- The octets are spelled by these pieces. -/
inductive Spelled : Octets → List Piece → Prop
  | nil : Spelled [] []
  | scalar (c : Char) {rest : Octets} {ps : List Piece} (hrest : Spelled rest ps) :
      Spelled (String.utf8EncodeChar c ++ rest) (.scalar c :: ps)
  | malformed {unit rest : Octets} {ps : List Piece} (hunit : MaximalSubpart unit rest)
      (hrest : Spelled rest ps) : Spelled (unit ++ rest) (.malformed :: ps)

/-- The text shows the characters of the octets and one replacement character for each
maximal subpart. -/
def Shows (octets : Octets) (text : String) : Prop :=
  ∃ ps, Spelled octets ps ∧ text = String.ofList (ps.map Piece.shown)

namespace MaximalSubpart

variable {unit rest unit' rest' : Octets}

theorem ne_nil (h : MaximalSubpart unit rest) : unit ≠ [] := by
  rintro rfl
  rcases h.brokenOff_or_single with ⟨hne, -⟩ | hone
  · exact hne rfl
  · cases hone

theorem length_le (h : MaximalSubpart unit rest) (h' : MaximalSubpart unit' rest')
    (heq : unit ++ rest = unit' ++ rest') : unit.length ≤ unit'.length := by
  rcases h.brokenOff_or_single with hbroken | hone
  · exact h'.longest unit ⟨rest, heq⟩ hbroken
  · rw [hone]
    exact List.length_pos_iff.mpr h'.ne_nil

theorem unique (h : MaximalSubpart unit rest) (h' : MaximalSubpart unit' rest')
    (heq : unit ++ rest = unit' ++ rest') : unit = unit' ∧ rest = rest' :=
  List.append_inj heq (Nat.le_antisymm (h.length_le h' heq) (h'.length_le h heq.symm))

end MaximalSubpart

namespace Spelled

variable {octets rest : Octets} {ps : List Piece}

theorem eq_nil (h : Spelled [] ps) : ps = [] := by
  generalize hoctets : ([] : Octets) = octets at h
  cases h with
  | nil => rfl
  | scalar c _ => exact absurd (List.append_eq_nil_iff.mp hoctets.symm).1 (encode_ne_nil c)
  | malformed hunit _ => exact absurd (List.append_eq_nil_iff.mp hoctets.symm).1 hunit.ne_nil

theorem of_encode_append {c : Char} (h : Spelled (String.utf8EncodeChar c ++ rest) ps) :
    ∃ ps', ps = .scalar c :: ps' ∧ Spelled rest ps' := by
  generalize hoctets : String.utf8EncodeChar c ++ rest = octets at h
  cases h with
  | nil => exact absurd (List.append_eq_nil_iff.mp hoctets).1 (encode_ne_nil c)
  | scalar c' hrest' =>
      obtain ⟨rfl, rfl⟩ := encode_append_inj hoctets
      exact ⟨_, rfl, hrest'⟩
  | malformed hunit' _ => exact absurd ⟨rest, hoctets⟩ (hunit'.no_character c)

theorem of_maximalSubpart {unit : Octets} (hunit : MaximalSubpart unit rest)
    (h : Spelled (unit ++ rest) ps) : ∃ ps', ps = .malformed :: ps' ∧ Spelled rest ps' := by
  generalize hoctets : unit ++ rest = octets at h
  cases h with
  | nil => exact absurd (List.append_eq_nil_iff.mp hoctets).1 hunit.ne_nil
  | @scalar c' rest' _ _ => exact absurd ⟨rest', hoctets.symm⟩ (hunit.no_character c')
  | malformed hunit' hrest' =>
      obtain ⟨rfl, rfl⟩ := hunit.unique hunit' hoctets
      exact ⟨_, rfl, hrest'⟩

theorem unique {qs : List Piece} (h : Spelled octets ps) (h' : Spelled octets qs) : ps = qs := by
  induction h generalizing qs with
  | nil => exact h'.eq_nil.symm
  | scalar c _ ih =>
      obtain ⟨qs, rfl, hrest⟩ := h'.of_encode_append
      rw [ih hrest]
  | malformed hunit _ ih =>
      obtain ⟨qs, rfl, hrest⟩ := of_maximalSubpart hunit h'
      rw [ih hrest]

/-- A character among the pieces stands for its sequence among the octets. -/
theorem of_append {front back : List Piece} {c : Char}
    (h : Spelled octets (front ++ .scalar c :: back)) :
    ∃ before after, octets = before ++ (String.utf8EncodeChar c ++ after) ∧
      Spelled after back := by
  generalize hps : front ++ .scalar c :: back = ps at h
  induction h generalizing front with
  | nil => simp at hps
  | @scalar c' rest ps hrest ih =>
      rcases List.append_eq_cons_iff.mp hps with ⟨-, heq⟩ | ⟨front', -, heq⟩
      · simp only [List.cons.injEq, Piece.scalar.injEq] at heq
        obtain ⟨rfl, rfl⟩ := heq
        exact ⟨[], rest, rfl, hrest⟩
      · obtain ⟨before, after, rfl, hafter⟩ := ih heq.symm
        exact ⟨String.utf8EncodeChar c' ++ before, after, (List.append_assoc ..).symm, hafter⟩
  | @malformed unit rest ps hunit hrest ih =>
      rcases List.append_eq_cons_iff.mp hps with ⟨-, heq⟩ | ⟨front', -, heq⟩
      · simp at heq
      · obtain ⟨before, after, rfl, hafter⟩ := ih heq.symm
        exact ⟨unit ++ before, after, (List.append_assoc ..).symm, hafter⟩

end Spelled

/-! ## The decoder spells -/

theorem no_character_of_pieces {octets : Octets} {ps : List Piece}
    (h : pieces octets = .malformed :: ps) (c : Char) : ¬String.utf8EncodeChar c <+: octets := by
  rintro ⟨rest, rfl⟩
  rw [pieces_encode_append] at h
  simp at h

theorem pieces_append_of_read {front : Octets} {begun : Option Unfinished}
    (h : read none front = ([], begun)) (rest : Octets) :
    pieces (front ++ rest) = piecesFrom begun rest := by
  rw [pieces, piecesFrom_append, h]
  rfl

theorem eq_nil_of_read {front : Octets} (h : read none front = ([], none)) : front = [] := by
  have hpieces := pieces_append_of_read h []
  rw [List.append_nil] at hpieces
  exact (piecesFrom_eq_nil_iff.mp hpieces).2

/-- What has been read of a begun sequence lacks the octets of a number that it expects. -/
theorem brokenOff_of_read {front : Octets} {u : Unfinished} (h : read none front = ([], some u)) :
    BrokenOff front := by
  have hu : u.Sound := sound_read front u (by rw [h]; rfl)
  obtain ⟨c, hc⟩ := hu.exists_expects
  refine ⟨?_, c, continuation u.missing c.toNat, ?_, ?_⟩
  · rintro rfl
    cases h
  · intro hnil
    have hlast := hu.piecesFrom_eq_scalar_iff.mpr ⟨hc, hnil.symm⟩
    simp [piecesFrom] at hlast
  · rw [eq_comm, ← pieces_eq_scalar_iff, pieces_append_of_read h]
    exact hu.piecesFrom_eq_scalar_iff.mpr ⟨hc, rfl⟩

/-- It is maximal where no octet follows that the sequence goes on with. -/
theorem maximalSubpart_of_read {front rest : Octets} {u : Unfinished}
    (h : read none front = ([], some u))
    (hrest : ∀ b ∈ rest.head?, ¬(u.low ≤ b ∧ b ≤ u.high)) : MaximalSubpart front rest := by
  have hpieces (more : Octets) (hmore : ∀ b ∈ more.head?, ¬(u.low ≤ b ∧ b ≤ u.high)) :
      ∃ ps, pieces (front ++ more) = .malformed :: ps := by
    rw [pieces_append_of_read h]
    cases more with
    | nil => exact ⟨[], rfl⟩
    | cons b more => exact ⟨_, piecesFrom_outside (hmore b rfl) more⟩
  obtain ⟨ps, hps⟩ := hpieces rest hrest
  refine ⟨no_character_of_pieces hps, .inl (brokenOff_of_read h), ?_⟩
  rintro longer hlonger ⟨-, c, lacking, -, hc⟩
  by_contra hlength
  -- the longer front has one of those octets too, and no character goes on with it
  obtain ⟨more, rfl⟩ : front <+: longer :=
    List.prefix_of_prefix_length_le (List.prefix_append front rest) hlonger (by omega)
  obtain ⟨b, more, rfl⟩ := List.exists_cons_of_ne_nil (l := more) (by rintro rfl; simp at hlength)
  obtain ⟨rest, rfl⟩ := (List.prefix_append_right_inj front).mp hlonger
  obtain ⟨ps, hps⟩ := hpieces (b :: more ++ lacking) hrest
  exact no_character_of_pieces hps c ⟨[], by rw [List.append_nil, hc, List.append_assoc]⟩

theorem maximalSubpart_of_start {b : UInt8} (h : start b = ([.malformed], none))
    (rest : Octets) : MaximalSubpart [b] rest := by
  have hpieces (more : Octets) : pieces (b :: more) = .malformed :: pieces more := by
    rw [pieces, piecesFrom_cons, step, h]
    rfl
  refine ⟨no_character_of_pieces (hpieces rest), .inr rfl, ?_⟩
  rintro longer hlonger ⟨hne, c, lacking, -, hc⟩
  obtain ⟨b', more, rfl⟩ := List.exists_cons_of_ne_nil hne
  obtain ⟨rfl, -⟩ := List.cons_prefix_cons.mp hlonger
  exact absurd ⟨[], (List.append_nil _).trans hc⟩
    (no_character_of_pieces (hpieces (more ++ lacking)) c)

theorem spelled_append_of_scalar {unit rest : Octets} {c : Char} (h : pieces unit = [.scalar c])
    (hrest : Spelled rest (pieces rest)) : Spelled (unit ++ rest) (pieces (unit ++ rest)) := by
  rw [pieces_append_of_scalar h, pieces_eq_scalar_iff.mp h]
  exact .scalar c hrest

/-- By induction on the octets behind a front that has been read without a piece. -/
theorem spelled_pieces_append {front : Octets} {begun : Option Unfinished}
    (h : read none front = ([], begun)) (octets : Octets) :
    Spelled (front ++ octets) (pieces (front ++ octets)) := by
  induction octets generalizing front begun with
  | nil =>
      cases begun with
      | none =>
          rw [eq_nil_of_read h]
          exact .nil
      | some u =>
          rw [pieces_append_of_read h]
          exact .malformed (maximalSubpart_of_read h (by simp)) .nil
  | cons b octets ih =>
      have hfresh : Spelled octets (pieces octets) := @ih [] none rfl
      have hstart : Spelled (b :: octets) (pieces (b :: octets)) := by
        have hpieces (more : Octets) :
            pieces (b :: more) = (start b).1 ++ piecesFrom (start b).2 more :=
          piecesFrom_cons none b more
        rcases start_cases b with ⟨-, hb⟩ | ⟨u, -, hb⟩ | ⟨-, hb⟩
        · have hone : pieces [b] = [.scalar (Char.ofNat b.toNat)] := by
            rw [hpieces, hb]
            rfl
          exact spelled_append_of_scalar hone hfresh
        · exact @ih [b] (some u) (by simp [read, step, hb])
        · rw [hpieces, hb]
          exact .malformed (maximalSubpart_of_start hb octets) hfresh
      cases begun with
      | none =>
          rw [eq_nil_of_read h]
          exact hstart
      | some u =>
          by_cases hb : u.low ≤ b ∧ b ≤ u.high
          · have hstep := step_within hb
            rw [List.append_cons]
            split at hstep
            next =>
              have hunit : pieces (front ++ [b]) =
                  [.scalar (Char.ofNat (u.bits * 64 + (b.toNat - 0x80)))] := by
                rw [pieces_append_of_read h, piecesFrom_cons, hstep]
                rfl
              exact spelled_append_of_scalar hunit hfresh
            next =>
              have hread : read none (front ++ [b]) = ([], some (u.next b)) := by
                rw [read_append, h]
                simp [read, hstep]
              exact ih hread
          · -- the octet is looked at afresh behind what broke off
            rw [pieces_append_of_read h, piecesFrom_outside hb]
            exact .malformed (maximalSubpart_of_read h (by simpa using hb)) hstart

theorem spelled_iff {octets : Octets} {ps : List Piece} :
    Spelled octets ps ↔ ps = pieces octets := by
  have hpieces : Spelled octets (pieces octets) := @spelled_pieces_append [] none rfl octets
  constructor
  · intro h
    exact h.unique hpieces
  · rintro rfl
    exact hpieces

theorem shows_iff {octets : Octets} {text : String} :
    Shows octets text ↔ text = decodeLossy octets := by
  simp only [Shows, spelled_iff, exists_eq_left, decodeLossy]

namespace BrokenOff

variable {unit : Octets}

theorem maximalSubpart (h : BrokenOff unit) : MaximalSubpart unit [] := by
  refine ⟨?_, .inl h, fun longer hlonger _ => by simpa using hlonger.length_le⟩
  obtain ⟨-, c, lacking, hlacking, hc⟩ := h
  rintro c' ⟨rest, hc'⟩
  rw [List.append_nil] at hc'
  rw [← hc', List.append_assoc] at hc
  obtain ⟨-, hrest⟩ := encode_append_inj ((List.append_nil _).trans hc)
  exact hlacking (List.append_eq_nil_iff.mp hrest.symm).2

theorem pieces_eq (h : BrokenOff unit) : pieces unit = [.malformed] := by
  have hspelled : Spelled (unit ++ []) [.malformed] := .malformed h.maximalSubpart .nil
  rw [List.append_nil] at hspelled
  exact (spelled_iff.mp hspelled).symm

theorem pieces_append (h : BrokenOff unit) (front : Octets) :
    pieces (front ++ unit) = pieces front ++ [.malformed] := by
  obtain ⟨b, more, rfl⟩ := List.exists_cons_of_ne_nil h.1
  rw [← h.pieces_eq]
  refine Interrupts.piecesFrom_append ?_ more
  intro u hu hin
  have hhigh : b.toNat ≤ 0xbf :=
    UInt8.le_iff_toNat_le.mp (UInt8.le_trans hin.2 (sound_read front u hu).high_le)
  obtain ⟨-, c, lacking, hlacking, hc⟩ := h
  rw [encode_eq, List.cons_append, List.cons.injEq] at hc
  rcases lead_cases c with ⟨hextra, -⟩ | ⟨-, hlow, -⟩
  · rw [hextra] at hc
    exact hlacking (List.append_eq_nil_iff.mp hc.2.symm).2
  · rw [hc.1] at hlow
    omega

end BrokenOff

end DevMachine.Text.Utf8

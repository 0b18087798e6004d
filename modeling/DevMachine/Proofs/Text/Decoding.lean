import DevMachine.Proofs.Text.Lines
import DevMachine.Proofs.Text.Sequences
import DevMachine.Text.Blank

/-!
# Decoding stops at every ASCII octet

A sequence that has begun goes on with octets above ASCII only.  An ASCII octet
therefore stands for itself wherever it comes, and what is decoded before it and
behind it does not depend on the other side.  Blank lines are a case of this:
whether a text is blank can be told line by line.
-/

namespace DevMachine.Text

namespace Utf8

/-- A sequence that has begun does not go on with an ASCII octet. -/
def AboveAscii (begun : Option Unfinished) : Prop := ∀ u ∈ begun, 0x80 ≤ u.low

theorem aboveAscii_read (octets : Octets) : AboveAscii (read none octets).2 :=
  fun u hu => (sound_read octets u hu).low_ge

theorem AboveAscii.interrupts {begun : Option Unfinished} (h : AboveAscii begun) {b : UInt8}
    (hb : b < 0x80) : Interrupts b begun :=
  fun u hu hin => UInt8.not_le.mpr hb (UInt8.le_trans (h u hu) hin.1)

theorem pieces_ascii {b : UInt8} (hb : b < 0x80) (rest : Octets) :
    pieces (b :: rest) = .scalar (Char.ofNat b.toNat) :: pieces rest := by
  have hstart : start b = ([.scalar (Char.ofNat b.toNat)], none) := if_pos hb
  rw [pieces, piecesFrom_cons, Utf8.step, hstart]
  rfl

theorem pieces_append_ascii {b : UInt8} (hb : b < 0x80) (octets rest : Octets) :
    pieces (octets ++ b :: rest) =
      pieces octets ++ .scalar (Char.ofNat b.toNat) :: pieces rest := by
  rw [← pieces_ascii hb]
  exact ((aboveAscii_read octets).interrupts hb).piecesFrom_append rest

theorem decodeLossy_append_ascii {b : UInt8} (hb : b < 0x80) (octets rest : Octets) :
    (decodeLossy (octets ++ b :: rest)).toList =
      (decodeLossy octets).toList ++ Char.ofNat b.toNat :: (decodeLossy rest).toList := by
  simp only [decodeLossy, String.toList_ofList, pieces_append_ascii hb, List.map_append,
    List.map_cons, Piece.shown]

end Utf8

theorem isBlank_append_ascii {b : UInt8} (hb : b < 0x80) (octets rest : Octets) :
    isBlank (Utf8.decodeLossy (octets ++ b :: rest)) =
      (isBlank (Utf8.decodeLossy octets) &&
        (isBlankChar (Char.ofNat b.toNat) && isBlank (Utf8.decodeLossy rest))) := by
  rw [isBlank, Utf8.decodeLossy_append_ascii hb, List.all_append, List.all_cons]
  rfl

/-- The carriage return at the end of a line is blank itself. -/
theorem isBlank_lineText (line : Octets) :
    isBlank (lineText line) = isBlank (Utf8.decodeLossy line) := by
  rw [lineText, dropReturn]
  split
  next hreturn =>
    obtain ⟨front, rfl⟩ := List.getLast?_eq_some_iff.mp hreturn
    rw [List.dropLast_concat, isBlank_append_ascii (by decide)]
    simp only [show isBlankChar (Char.ofNat (0x0d : UInt8).toNat) = true from rfl, Bool.true_and]
    exact (Bool.and_true _).symm
  next => rfl

/-- All lines of a stream are blank iff its whole text is. -/
theorem all_isBlank_wholeLines (octets : Octets) :
    (wholeLines octets).all isBlank = isBlank (Utf8.decodeLossy octets) := by
  induction octets using induction_on_lines with
  | unfinished line hopen =>
      rw [wholeLines_of_not_mem hopen]
      split
      next hempty => rw [hempty]; rfl
      next => rw [List.all_cons, isBlank_lineText]; exact Bool.and_true _
  | ended line hopen rest ih =>
      rw [wholeLines_line hopen, List.all_cons, isBlank_lineText,
        isBlank_append_ascii (by decide), ih]
      rfl

end DevMachine.Text

import DevMachine.Text.Utf8
import Mathlib.Algebra.Ring.Nat
import Mathlib.Tactic.Common

/-!
# Sequences of characters

A sequence that has begun is told by the numbers that can still come of it: every
octet narrows them down, and the range for the second octet leaves out just those that
are no scalar values or have a shorter sequence.  It follows that octets are read as
one character iff they are the sequence that encodes it.
-/

namespace DevMachine.Text.Utf8

theorem ofNat_eq_iff {code : Nat} {c : Char} (hcode : code.isValidChar) :
    Char.ofNat code = c ↔ code = c.toNat := by
  constructor
  · rintro rfl
    rw [Char.ofNat, dif_pos hcode]
    rfl
  · rintro rfl
    exact Char.ofNat_toNat c

/-- The octets behind the first one, with six bits of the number in each. -/
def continuation : Nat → Nat → Octets
  | 0, _ => []
  | missing + 1, code =>
    UInt8.ofNat (0x80 + code / 64 ^ missing % 64) :: continuation missing code

/-- How many octets stand behind the first one. -/
def extra (code : Nat) : Nat :=
  if code ≤ 0x7f then 0 else if code ≤ 0x7ff then 1 else if code ≤ 0xffff then 2 else 3

/-- How a first octet shows the number of octets behind it. -/
def mark : Nat → Nat
  | 0 => 0
  | 1 => 0xc0
  | 2 => 0xe0
  | _ => 0xf0

/-- The first octet, with the highest bits of the number. -/
def lead (code : Nat) : UInt8 := UInt8.ofNat (mark (extra code) + code / 64 ^ extra code)

theorem encode_eq (c : Char) :
    String.utf8EncodeChar c = lead c.toNat :: continuation (extra c.toNat) c.toNat := by
  have hvalid : c.toNat.isValidChar := c.valid
  simp only [Nat.isValidChar] at hvalid
  simp only [String.utf8EncodeChar, Char.toNat_val, lead, extra]
  split_ifs <;> simp [continuation, mark, ← UInt8.toNat_inj] <;> omega

theorem encode_ne_nil (c : Char) : String.utf8EncodeChar c ≠ [] := by
  simp [encode_eq]

theorem extra_cases (code : Nat) :
    (code < 0x80 ∧ extra code = 0 ∧ (lead code).toNat = code % 256) ∨
      (0x80 ≤ code ∧ code < 0x800 ∧ extra code = 1 ∧
        (lead code).toNat = (0xc0 + code / 64) % 256) ∨
      (0x800 ≤ code ∧ code < 0x10000 ∧ extra code = 2 ∧
        (lead code).toNat = (0xe0 + code / 4096) % 256) ∨
      (0x10000 ≤ code ∧ extra code = 3 ∧ (lead code).toNat = (0xf0 + code / 262144) % 256) := by
  simp only [lead, UInt8.toNat_ofNat']
  unfold extra
  split_ifs <;> simp [mark] <;> omega

/-- A first octet is ASCII or stands above all octets that others go on with. -/
theorem lead_cases (c : Char) :
    (extra c.toNat = 0 ∧ (lead c.toNat).toNat = c.toNat ∧ c.toNat < 0x80) ∨
      (0x80 ≤ c.toNat ∧ 0xc2 ≤ (lead c.toNat).toNat ∧ (lead c.toNat).toNat ≤ 0xf4) := by
  have hvalid : c.toNat.isValidChar := c.valid
  have hcode := extra_cases c.toNat
  simp only [Nat.isValidChar] at hvalid
  omega

namespace Unfinished

/-- The sequence can still become the one of this number. -/
@[mk_iff]
structure Expects (u : Unfinished) (code : Nat) : Prop where
  bits_eq : code / 64 ^ u.missing = u.bits
  low_le : u.low.toNat ≤ 0x80 + code / 64 ^ (u.missing - 1) % 64
  le_high : 0x80 + code / 64 ^ (u.missing - 1) % 64 ≤ u.high.toNat

/-- What every begun sequence is like: it goes on, and only scalar values can come of it. -/
structure Sound (u : Unfinished) : Prop where
  missing_pos : 0 < u.missing
  low_ge : 0x80 ≤ u.low
  low_le_high : u.low ≤ u.high
  high_le : u.high ≤ 0xbf
  isValidChar : ∀ code, u.Expects code → code.isValidChar

/-- The sequence after an octet that it goes on with. -/
def next (u : Unfinished) (b : UInt8) : Unfinished :=
  { bits := u.bits * 64 + (b.toNat - 0x80), missing := u.missing - 1 }

variable {u : Unfinished} {b : UInt8}

theorem Expects.within {code : Nat} (h : u.Expects code) :
    u.low ≤ UInt8.ofNat (0x80 + code / 64 ^ (u.missing - 1) % 64) ∧
      UInt8.ofNat (0x80 + code / 64 ^ (u.missing - 1) % 64) ≤ u.high := by
  have hlow := h.low_le
  have hhigh := h.le_high
  simp only [UInt8.le_iff_toNat_le, UInt8.toNat_ofNat']
  omega

theorem Sound.div_eq_iff (hu : u.Sound) (hb : u.low ≤ b ∧ b ≤ u.high) (code : Nat) :
    code / 64 ^ (u.missing - 1) = u.bits * 64 + (b.toNat - 0x80) ↔
      u.Expects code ∧ b = UInt8.ofNat (0x80 + code / 64 ^ (u.missing - 1) % 64) := by
  have hbounds : 0x80 ≤ u.low.toNat ∧ u.low.toNat ≤ b.toNat ∧ b.toNat ≤ u.high.toNat ∧
      u.high.toNat ≤ 0xbf := by
    simpa only [UInt8.le_iff_toNat_le] using ⟨hu.low_ge, hb.1, hb.2, hu.high_le⟩
  have hdiv : code / 64 ^ u.missing = code / 64 ^ (u.missing - 1) / 64 := by
    rw [Nat.div_div_eq_div_mul, ← Nat.pow_succ, Nat.succ_eq_add_one,
      Nat.sub_one_add_one (Nat.ne_of_gt hu.missing_pos)]
  rw [← UInt8.toNat_inj, UInt8.toNat_ofNat']
  constructor
  · intro hcode
    refine ⟨⟨?_, ?_, ?_⟩, ?_⟩ <;> omega
  · rintro ⟨⟨hbits, -, -⟩, hdigit⟩
    omega

theorem expects_next_iff (code : Nat) :
    (u.next b).Expects code ↔
      code / 64 ^ (u.missing - 1) = u.bits * 64 + (b.toNat - 0x80) := by
  refine ⟨fun h => h.bits_eq, fun h => ⟨h, ?_, ?_⟩⟩
  · exact Nat.le_add_right _ _
  · exact Nat.add_le_add_left (Nat.le_of_lt_succ (Nat.mod_lt _ (by decide))) 0x80

theorem Sound.expects_next_iff (hu : u.Sound) (hb : u.low ≤ b ∧ b ≤ u.high) (code : Nat) :
    (u.next b).Expects code ↔
      u.Expects code ∧ b = UInt8.ofNat (0x80 + code / 64 ^ (u.missing - 1) % 64) :=
  (Unfinished.expects_next_iff code).trans (hu.div_eq_iff hb code)

theorem Sound.next (hu : u.Sound) (hb : u.low ≤ b ∧ b ≤ u.high) (hmore : 1 < u.missing) :
    (u.next b).Sound where
  missing_pos := Nat.sub_pos_of_lt hmore
  low_ge := UInt8.le_refl _
  low_le_high := show (0x80 : UInt8) ≤ 0xbf by decide
  high_le := UInt8.le_refl _
  isValidChar code hcode := hu.isValidChar code ((hu.expects_next_iff hb code).mp hcode).1

theorem Sound.exists_expects (hu : u.Sound) : ∃ c : Char, u.Expects c.toNat := by
  let code := (u.bits * 64 + (u.low.toNat - 0x80)) * 64 ^ (u.missing - 1)
  have hexpects : u.Expects code :=
    ((hu.div_eq_iff ⟨UInt8.le_refl _, hu.low_le_high⟩ code).mp
      (Nat.mul_div_cancel _ (Nat.pow_pos (by decide)))).1
  refine ⟨Char.ofNat code, ?_⟩
  rwa [← (ofNat_eq_iff (hu.isValidChar code hexpects)).mp rfl]

end Unfinished

/-! ## First octets -/

/-- The sequences that first octets begin, by the number of octets that follow.  The next
one has a smaller range where a number would be too small for the length, a surrogate or too
large. -/
inductive Begins (b : UInt8) : Unfinished → Prop
  | two (hlow : 0xc2 ≤ b.toNat) (hhigh : b.toNat < 0xe0) :
      Begins b { bits := b.toNat - 0xc0, missing := 1 }
  | three (hlow : 0xe0 ≤ b.toNat) (hhigh : b.toNat < 0xf0) :
      Begins b
        { bits := b.toNat - 0xe0, missing := 2
          low := if b = 0xe0 then 0xa0 else 0x80
          high := if b = 0xed then 0x9f else 0xbf }
  | four (hlow : 0xf0 ≤ b.toNat) (hhigh : b.toNat < 0xf5) :
      Begins b
        { bits := b.toNat - 0xf0, missing := 3
          low := if b = 0xf0 then 0x90 else 0x80
          high := if b = 0xf4 then 0x8f else 0xbf }

/-- An octet stands for itself, begins a sequence or is malformed. -/
theorem start_cases (b : UInt8) :
    (b.toNat < 0x80 ∧ start b = ([.scalar (Char.ofNat b.toNat)], none)) ∨
      (∃ u, Begins b u ∧ start b = ([], some u)) ∨
      ((0x80 ≤ b.toNat ∧ b.toNat < 0xc2 ∨ 0xf4 < b.toNat) ∧ start b = ([.malformed], none)) := by
  generalize hstart : start b = outcome
  simp only [start, UInt8.lt_iff_toNat_lt, UInt8.reduceToNat] at hstart
  split at hstart
  next h₁ => exact .inl ⟨h₁, hstart.symm⟩
  split at hstart
  next h₂ => exact .inr (.inr ⟨.inl ⟨by omega, h₂⟩, hstart.symm⟩)
  split at hstart
  next h₃ => exact .inr (.inl ⟨_, .two (by omega) h₃, hstart.symm⟩)
  split at hstart
  next h₄ =>
    subst h₄
    exact .inr (.inl ⟨_, .three (by decide) (by decide), hstart.symm⟩)
  split at hstart
  next h₅ =>
    subst h₅
    exact .inr (.inl ⟨_, .three (by decide) (by decide), hstart.symm⟩)
  split at hstart
  next h₄ h₅ h₆ =>
    exact .inr (.inl ⟨_, .three (by omega) h₆, by rw [if_neg h₄, if_neg h₅, hstart]⟩)
  split at hstart
  next h₇ =>
    subst h₇
    exact .inr (.inl ⟨_, .four (by decide) (by decide), hstart.symm⟩)
  split at hstart
  next h₇ h₈ =>
    have hlast : b ≠ 0xf4 := by
      rintro rfl
      exact absurd h₈ (by decide)
    exact .inr (.inl ⟨_, .four (by omega) (by omega), by rw [if_neg h₇, if_neg hlast, hstart]⟩)
  split at hstart
  next h₉ =>
    subst h₉
    exact .inr (.inl ⟨_, .four (by decide) (by decide), hstart.symm⟩)
  next h₉ =>
    have hlast : b.toNat ≠ 0xf4 := fun heq => h₉ (UInt8.toNat_inj.mp heq)
    exact .inr (.inr ⟨.inr (by omega), hstart.symm⟩)

/-- A first octet leaves open just the scalar values whose sequence begins with it. -/
theorem Begins.expects_iff {b : UInt8} {u : Unfinished} (h : Begins b u) (code : Nat) :
    (u.Expects code ↔ code.isValidChar ∧ lead code = b) ∧
      (u.Expects code → extra code = u.missing) := by
  have hcode := extra_cases code
  rw [Unfinished.expects_iff, Nat.isValidChar]
  simp only [← UInt8.toNat_inj]
  cases h with
  | two hlow hhigh =>
      simp only [UInt8.reduceToNat, Nat.reduceSub, Nat.reducePow]
      omega
  | three hlow hhigh =>
      simp only [← UInt8.toNat_inj, UInt8.reduceToNat, Nat.reduceSub, Nat.reducePow]
      split_ifs <;> simp only [UInt8.reduceToNat] <;> omega
  | four hlow hhigh =>
      simp only [← UInt8.toNat_inj, UInt8.reduceToNat, Nat.reduceSub, Nat.reducePow]
      split_ifs <;> simp only [UInt8.reduceToNat] <;> omega

theorem Begins.sound {b : UInt8} {u : Unfinished} (h : Begins b u) : u.Sound := by
  have hvalid (code : Nat) (hcode : u.Expects code) : code.isValidChar :=
    ((h.expects_iff code).1.mp hcode).1
  have hrange : (0x80 : UInt8) ≤ 0xbf := by decide
  cases h with
  | two => exact ⟨Nat.one_pos, UInt8.le_refl _, hrange, UInt8.le_refl _, hvalid⟩
  | three => refine ⟨Nat.two_pos, ?_, ?_, ?_, hvalid⟩ <;> dsimp only <;> grind
  | four => refine ⟨Nat.succ_pos 2, ?_, ?_, ?_, hvalid⟩ <;> dsimp only <;> grind

/-! ## Reading octet by octet -/

theorem piecesFrom_cons (begun : Option Unfinished) (b : UInt8) (rest : Octets) :
    piecesFrom begun (b :: rest) = (step begun b).1 ++ piecesFrom (step begun b).2 rest := by
  cases begun <;> rfl

/-- The pieces that octets give whatever follows them, and the sequence they leave open. -/
def read (begun : Option Unfinished) : Octets → List Piece × Option Unfinished
  | [] => ([], begun)
  | b :: rest =>
    let (pieces, next) := step begun b
    let (more, last) := read next rest
    (pieces ++ more, last)

theorem read_append (begun : Option Unfinished) (octets rest : Octets) :
    read begun (octets ++ rest) =
      ((read begun octets).1 ++ (read (read begun octets).2 rest).1,
        (read (read begun octets).2 rest).2) := by
  induction octets generalizing begun with
  | nil => rfl
  | cons b octets ih => simp only [List.cons_append, read, ih, List.append_assoc]

theorem piecesFrom_append (begun : Option Unfinished) (octets rest : Octets) :
    piecesFrom begun (octets ++ rest) =
      (read begun octets).1 ++ piecesFrom (read begun octets).2 rest := by
  induction octets generalizing begun with
  | nil => rfl
  | cons b octets ih =>
      rw [List.cons_append, piecesFrom_cons, ih, ← List.append_assoc]
      rfl

/-- The octet is none that the begun sequence goes on with. -/
def Interrupts (b : UInt8) (begun : Option Unfinished) : Prop :=
  ∀ u ∈ begun, ¬(u.low ≤ b ∧ b ≤ u.high)

/-- Such an octet ends what has begun as the end of the octets would, and is then
looked at afresh. -/
theorem Interrupts.step {b : UInt8} {begun : Option Unfinished} (h : Interrupts b begun) :
    step begun b = (piecesFrom begun [] ++ (start b).1, (start b).2) := by
  cases begun with
  | none => rfl
  | some u =>
      simp only [Utf8.step, if_neg (h u rfl)]
      rfl

theorem Interrupts.piecesFrom_append {b : UInt8} {begun : Option Unfinished} {octets : Octets}
    (h : Interrupts b (read begun octets).2) (rest : Octets) :
    piecesFrom begun (octets ++ b :: rest) = piecesFrom begun octets ++ pieces (b :: rest) := by
  have hoctets := Utf8.piecesFrom_append begun octets []
  rw [List.append_nil] at hoctets
  rw [Utf8.piecesFrom_append, piecesFrom_cons, h.step, hoctets, List.append_assoc,
    List.append_assoc]
  rfl

theorem step_within {u : Unfinished} {b : UInt8} (hb : u.low ≤ b ∧ b ≤ u.high) :
    step (some u) b =
      if u.missing ≤ 1 then ([.scalar (Char.ofNat (u.bits * 64 + (b.toNat - 0x80)))], none)
      else ([], some (u.next b)) :=
  if_pos hb

theorem piecesFrom_outside {u : Unfinished} {b : UInt8} (hb : ¬(u.low ≤ b ∧ b ≤ u.high))
    (rest : Octets) : piecesFrom (some u) (b :: rest) = .malformed :: pieces (b :: rest) := by
  have hinterrupts : Interrupts b (some u) := by
    rintro _ ⟨⟩
    exact hb
  exact @Interrupts.piecesFrom_append b (some u) [] hinterrupts rest

theorem sound_step {begun : Option Unfinished} (h : ∀ u ∈ begun, u.Sound) (b : UInt8) :
    ∀ u ∈ (step begun b).2, u.Sound := by
  have hstart : ∀ u ∈ (start b).2, u.Sound := by
    intro u hu
    rcases start_cases b with ⟨-, hb⟩ | ⟨u', hu', hb⟩ | ⟨-, hb⟩ <;> rw [hb] at hu <;> cases hu
    exact hu'.sound
  cases begun with
  | none => exact hstart
  | some u =>
      by_cases hb : u.low ≤ b ∧ b ≤ u.high
      · rw [step_within hb]
        split
        next => simp
        next hmore =>
          intro u' hu'
          obtain rfl : u.next b = u' := Option.some.inj hu'
          exact (h u rfl).next hb (Nat.lt_of_not_le hmore)
      · simp only [step, if_neg hb]
        exact hstart

/-- Whatever octets are read, the sequence that they leave open is sound. -/
theorem sound_read (octets : Octets) : ∀ u ∈ (read none octets).2, u.Sound := by
  suffices ∀ begun : Option Unfinished, (∀ u ∈ begun, u.Sound) →
      ∀ u ∈ (read begun octets).2, u.Sound from this none (by simp)
  induction octets with
  | nil => exact fun _ h => h
  | cons b octets ih => exact fun begun h => ih _ (sound_step h b)

/-- Octets do not end without a piece, and neither does a begun sequence. -/
theorem piecesFrom_eq_nil_iff {begun : Option Unfinished} {octets : Octets} :
    piecesFrom begun octets = [] ↔ begun = none ∧ octets = [] := by
  induction octets generalizing begun with
  | nil => cases begun <;> simp [piecesFrom]
  | cons b octets ih =>
      suffices piecesFrom begun (b :: octets) ≠ [] by simpa
      cases begun with
      | none =>
          rw [piecesFrom_cons, step]
          rcases start_cases b with ⟨-, h⟩ | ⟨u, -, h⟩ | ⟨-, h⟩ <;> simp [h, ih]
      | some u =>
          by_cases hb : u.low ≤ b ∧ b ≤ u.high
          · rw [piecesFrom_cons, step_within hb]
            split <;> simp [ih]
          · simp [piecesFrom_outside hb]

/-- A begun sequence becomes a character iff the octets are the rest of its sequence. -/
theorem Unfinished.Sound.piecesFrom_eq_scalar_iff {u : Unfinished} (hu : u.Sound)
    {octets : Octets} {c : Char} :
    piecesFrom (some u) octets = [.scalar c] ↔
      u.Expects c.toNat ∧ octets = continuation u.missing c.toNat := by
  induction octets generalizing u with
  | nil =>
      obtain ⟨missing, hmissing⟩ := Nat.exists_eq_succ_of_ne_zero (Nat.ne_of_gt hu.missing_pos)
      simp [piecesFrom, hmissing, continuation]
  | cons b octets ih =>
      have hcontinuation : b :: octets = continuation u.missing c.toNat ↔
          b = UInt8.ofNat (0x80 + c.toNat / 64 ^ (u.missing - 1) % 64) ∧
            octets = continuation (u.missing - 1) c.toNat := by
        rw [← Nat.sub_one_add_one (Nat.ne_of_gt hu.missing_pos), continuation, List.cons.injEq]
        rfl
      rw [hcontinuation, ← and_assoc]
      by_cases hb : u.low ≤ b ∧ b ≤ u.high
      · rw [piecesFrom_cons, step_within hb, ← hu.expects_next_iff hb]
        split
        next hlast =>
          have hnone : u.missing - 1 = 0 := Nat.sub_eq_zero_of_le hlast
          have hcode (code : Nat) : (u.next b).Expects code ↔
              code = u.bits * 64 + (b.toNat - 0x80) := by
            rw [Unfinished.expects_next_iff, hnone, Nat.pow_zero, Nat.div_one]
          have hvalid : (u.bits * 64 + (b.toNat - 0x80)).isValidChar :=
            hu.isValidChar _ ((hu.expects_next_iff hb _).mp ((hcode _).mpr rfl)).1
          simp only [hcode, hnone, continuation, List.singleton_append, List.cons.injEq,
            Piece.scalar.injEq, ofNat_eq_iff hvalid, piecesFrom_eq_nil_iff, true_and]
          exact and_congr_left' eq_comm
        next hmore => exact ih (hu.next hb (Nat.lt_of_not_le hmore))
      · rw [piecesFrom_outside hb]
        refine iff_of_false (by simp) ?_
        rintro ⟨⟨hexpects, rfl⟩, -⟩
        exact hb hexpects.within

/-- Octets are read as one character iff they encode it. -/
theorem pieces_eq_scalar_iff {octets : Octets} {c : Char} :
    pieces octets = [.scalar c] ↔ octets = String.utf8EncodeChar c := by
  rw [encode_eq]
  cases octets with
  | nil => simp [pieces, piecesFrom]
  | cons b octets =>
      have hlead := lead_cases c
      rw [pieces, piecesFrom_cons, step, List.cons.injEq, ← UInt8.toNat_inj]
      rcases start_cases b with ⟨hascii, h⟩ | ⟨u, hu, h⟩ | ⟨hrange, h⟩
      · simp only [h, List.singleton_append, List.cons.injEq, Piece.scalar.injEq,
          ofNat_eq_iff (Or.inl (by omega : b.toNat < 0xd800)), piecesFrom_eq_nil_iff, true_and]
        rcases hlead with ⟨hextra, hvalue, -⟩ | ⟨habove, hlow, -⟩
        · rw [hextra, hvalue, continuation]
        · exact iff_of_false (fun hb => by omega) (fun hb => by omega)
      · obtain ⟨hexpects, hmissing⟩ := hu.expects_iff c.toNat
        rw [h, List.nil_append, hu.sound.piecesFrom_eq_scalar_iff, UInt8.toNat_inj]
        constructor
        · rintro ⟨hc, hrest⟩
          exact ⟨(hexpects.mp hc).2.symm, hmissing hc ▸ hrest⟩
        · rintro ⟨hb, hrest⟩
          have hc : u.Expects c.toNat := hexpects.mpr ⟨c.valid, hb.symm⟩
          exact ⟨hc, hmissing hc ▸ hrest⟩
      · rw [h]
        exact iff_of_false (by simp) (by omega)

theorem pieces_append_of_scalar {unit : Octets} {c : Char} (h : pieces unit = [.scalar c])
    (rest : Octets) : pieces (unit ++ rest) = .scalar c :: pieces rest := by
  have hread := piecesFrom_append none unit []
  rw [List.append_nil, ← pieces, h] at hread
  rw [pieces, piecesFrom_append]
  cases hopen : (read none unit).2 with
  | none =>
      rw [hopen, piecesFrom, List.append_nil] at hread
      rw [← hread]
      rfl
  | some u =>
      -- a sequence left open would end the pieces as malformed
      rw [hopen, piecesFrom] at hread
      have hends := congrArg List.getLast? hread
      simp at hends

theorem pieces_encode_append (c : Char) (rest : Octets) :
    pieces (String.utf8EncodeChar c ++ rest) = .scalar c :: pieces rest :=
  pieces_append_of_scalar (pieces_eq_scalar_iff.mpr rfl) rest

theorem encode_append_inj {c c' : Char} {rest rest' : Octets}
    (heq : String.utf8EncodeChar c ++ rest = String.utf8EncodeChar c' ++ rest') :
    c = c' ∧ rest = rest' := by
  have hpieces := congrArg pieces heq
  rw [pieces_encode_append, pieces_encode_append, List.cons.injEq, Piece.scalar.injEq] at hpieces
  obtain ⟨rfl, -⟩ := hpieces
  exact ⟨rfl, List.append_cancel_left heq⟩

end DevMachine.Text.Utf8

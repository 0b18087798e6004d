import DevMachine.Proofs.Json.RoundTrip
import Mathlib.Data.List.Induction
import Mathlib.Data.List.TakeWhile

/-!
# The grammar of strings, numbers and words

Which characters spell a value that is no container is said here without the
reader.  A character of a string has several spellings, and so has a number that
is not kept exactly; a whole number that is kept has only its decimal digits.
The reader takes exactly what is spelled here, provided that nothing stands
behind a number that could belong to it.
-/

namespace DevMachine.Json

open Text

variable {s t rest digits : List Char}

/-- The two-character escapes by their second character, and what they stand for. -/
def escapes : List (Char × Char) :=
  [('"', '"'), ('\\', '\\'), ('/', '/'), ('b', '\x08'), ('f', '\x0c'), ('n', '\n'), ('r', '\r'),
    ('t', '\t')]

/-- The spellings of one character inside a string. -/
inductive CharText : Char → List Char → Prop
  | plain {c : Char} (hquote : c ≠ '"') (hslash : c ≠ '\\') (hc : 0x20 ≤ c.toNat) : CharText c [c]
  | escape {c x : Char} (hescape : (c, x) ∈ escapes) : CharText x ['\\', c]
  | quad {a b c d : Char} {n : Nat} (hn : quad? a b c d = some n)
    (hbasic : ¬(0xd800 ≤ n ∧ n ≤ 0xdfff)) : CharText (Char.ofNat n) ['\\', 'u', a, b, c, d]
  | pair {a b c d e f g h : Char} {high low : Nat} (hhigh : quad? a b c d = some high)
    (hlow : quad? e f g h = some low) (hfirst : 0xd800 ≤ high ∧ high ≤ 0xdbff)
    (hsecond : 0xdc00 ≤ low ∧ low ≤ 0xdfff) :
    CharText (Char.ofNat (0x10000 + (high - 0xd800) * 0x400 + (low - 0xdc00)))
      ['\\', 'u', a, b, c, d, '\\', 'u', e, f, g, h]

/-- The spellings of some characters, one behind the other. -/
inductive CharsText : List Char → List Char → Prop
  | nil : CharsText [] []
  | cons {x : Char} {xs t ts : List Char} (hx : CharText x t) (hxs : CharsText xs ts) :
    CharsText (x :: xs) (t ++ ts)

theorem simpleEscape?_eq_some_iff {c x : Char} : simpleEscape? c = some x ↔ (c, x) ∈ escapes := by
  constructor
  · intro h
    unfold simpleEscape? at h
    split_ifs at h <;> cases h <;> subst_vars <;> decide
  · intro h
    simp only [escapes, List.mem_cons, Prod.mk.injEq, List.not_mem_nil, or_false] at h
    rcases h with h | h | h | h | h | h | h | h <;> obtain ⟨rfl, rfl⟩ := h <;> rfl

theorem basicEscape?_eq_some_iff {n : Nat} {x : Char} :
    basicEscape? n = some x ↔ ¬(0xd800 ≤ n ∧ n ≤ 0xdfff) ∧ x = Char.ofNat n := by
  unfold basicEscape?
  split
  next h => simp [h]
  next h => simp [h, eq_comm]

theorem surrogatePair?_eq_some_iff {high low : Nat} {x : Char} :
    surrogatePair? high low = some x ↔
      (0xd800 ≤ high ∧ high ≤ 0xdbff) ∧ (0xdc00 ≤ low ∧ low ≤ 0xdfff) ∧
        x = Char.ofNat (0x10000 + (high - 0xd800) * 0x400 + (low - 0xdc00)) := by
  unfold surrogatePair?
  split
  next h => simp [h, eq_comm]
  next h =>
    simp only [reduceCtorEq, false_iff]
    tauto

theorem stringBody_pair {a b c d e f g h x : Char} {high low : Nat}
    (hhigh : quad? a b c d = some high) (hlow : quad? e f g h = some low)
    (hpair : surrogatePair? high low = some x) (rest : List Char) :
    stringBody ('\\' :: 'u' :: a :: b :: c :: d :: '\\' :: 'u' :: e :: f :: g :: h :: rest) =
      (stringBody rest).map fun (t, r) => (x :: t, r) := by
  have hbasic : basicEscape? high = none := by
    obtain ⟨hfirst, -⟩ := surrogatePair?_eq_some_iff.mp hpair
    rw [basicEscape?, if_pos ⟨hfirst.1, by omega⟩]
  simp only [stringBody, hhigh, hbasic, hlow, Option.bind_eq_bind, Option.bind_some, hpair]

theorem CharText.stringBody_append {x : Char} (h : CharText x t) (rest : List Char) :
    stringBody (t ++ rest) = (stringBody rest).map fun (t, r) => (x :: t, r) := by
  cases h with
  | plain hquote hslash hc => exact stringBody_char hquote hslash hc rest
  | escape hescape => exact stringBody_simple (simpleEscape?_eq_some_iff.mpr hescape) rest
  | quad hn hbasic =>
      exact stringBody_quad hn (basicEscape?_eq_some_iff.mpr ⟨hbasic, rfl⟩) rest
  | pair hhigh hlow hfirst hsecond =>
      exact stringBody_pair hhigh hlow
        (surrogatePair?_eq_some_iff.mpr ⟨hfirst, hsecond, rfl⟩) rest

theorem CharsText.stringBody_append {xs : List Char} (h : CharsText xs t) (rest : List Char) :
    stringBody (t ++ '"' :: rest) = some (xs, rest) := by
  induction h with
  | nil =>
      rw [List.nil_append, stringBody.eq_def]
      rfl
  | cons hx _ ih => rw [List.append_assoc, hx.stringBody_append, ih, Option.map_some]

theorem CharText.charsText_cons {x : Char} {xs : List Char} (hx : CharText x t)
    (h : (stringBody s).map (fun (t, r) => (x :: t, r)) = some (xs, rest))
    (hrest : ∀ {ys : List Char}, stringBody s = some (ys, rest) →
      ∃ ts, s = ts ++ '"' :: rest ∧ CharsText ys ts) :
    ∃ ts, t ++ s = ts ++ '"' :: rest ∧ CharsText xs ts := by
  obtain ⟨⟨ys, r⟩, hys, heq⟩ := Option.map_eq_some_iff.mp h
  cases heq
  obtain ⟨ts, rfl, hts⟩ := hrest hys
  exact ⟨t ++ ts, (List.append_assoc _ _ _).symm, .cons hx hts⟩

/-- A string that was read is spelled by what was taken, up to its closing quote. -/
theorem charsText_of_stringBody {xs : List Char} (h : stringBody s = some (xs, rest)) :
    ∃ t, s = t ++ '"' :: rest ∧ CharsText xs t := by
  -- by the cases of the reader: each takes one character and leaves the rest to itself
  fun_induction stringBody s generalizing xs with
  | case1 | case2 | case5 | case7 | case9 | case11 => cases h
  | case3 a b c d e f g h' behind n hn x hx ih =>
      obtain ⟨hbasic, rfl⟩ := basicEscape?_eq_some_iff.mp hx
      exact (CharText.quad hn hbasic).charsText_cons h ih
  | case4 a b c d e f g h' behind high hhigh _ x hx ih =>
      obtain ⟨low, hlow, hpair⟩ := Option.bind_eq_some_iff.mp hx
      obtain ⟨hfirst, hsecond, hx⟩ := surrogatePair?_eq_some_iff.mp hpair
      have hspelled := CharText.pair hhigh hlow hfirst hsecond
      rw [← hx] at hspelled
      exact hspelled.charsText_cons h ih
  | case6 a b c d behind _ x hx ih =>
      obtain ⟨n, hn, hescape⟩ := Option.bind_eq_some_iff.mp hx
      obtain ⟨hbasic, rfl⟩ := basicEscape?_eq_some_iff.mp hescape
      exact (CharText.quad hn hbasic).charsText_cons h ih
  | case8 c behind _ _ x hx ih =>
      exact (CharText.escape (simpleEscape?_eq_some_iff.mp hx)).charsText_cons h ih
  | case10 behind _ _ _ =>
      cases h
      exact ⟨[], rfl, .nil⟩
  | case12 c behind _ _ _ hquote hrefused ih =>
      obtain ⟨hc, hslash⟩ := not_or.mp hrefused
      exact (CharText.plain hquote hslash (Nat.le_of_not_lt hc)).charsText_cons h ih

/-! ## Numbers -/

/-- At least one digit. -/
def Digits (digits : List Char) : Prop := digits ≠ [] ∧ ∀ c ∈ digits, c.isDigit = true

/-- The digits before the point, where no zero stands before another digit. -/
def IntegerDigits (digits : List Char) : Prop :=
  Digits digits ∧ (digits.head? = some '0' → digits = ['0'])

inductive FractionText : Option (List Char) → List Char → Prop
  | absent : FractionText none []
  | point {digits : List Char} (hdigits : Digits digits) :
    FractionText (some digits) ('.' :: digits)

/-- The sign may be left out when the exponent is not negative. -/
inductive ExponentText : Option (Bool × List Char) → List Char → Prop
  | absent : ExponentText none []
  | plain {e : Char} {digits : List Char} (he : e = 'e' ∨ e = 'E') (hdigits : Digits digits) :
    ExponentText (some (false, digits)) (e :: digits)
  | up {e : Char} {digits : List Char} (he : e = 'e' ∨ e = 'E') (hdigits : Digits digits) :
    ExponentText (some (false, digits)) (e :: '+' :: digits)
  | down {e : Char} {digits : List Char} (he : e = 'e' ∨ e = 'E') (hdigits : Digits digits) :
    ExponentText (some (true, digits)) (e :: '-' :: digits)

/-- The text of a numeral behind its sign. -/
def UnsignedText (n : Numeral) (t : List Char) : Prop :=
  IntegerDigits n.integer ∧ ∃ f e, t = n.integer ++ (f ++ e) ∧ FractionText n.fraction f ∧
    ExponentText n.exponent e

def NumeralText (n : Numeral) (t : List Char) : Prop :=
  ∃ u, t = (if n.negative then ['-'] else []) ++ u ∧ UnsignedText n u

/-- A numeral with neither fraction nor exponent that stands for an integer of 64
bits.  `-0` does not. -/
structure Numeral.IsWhole (n : Numeral) (w : Whole) : Prop where
  fraction : n.fraction = none
  exponent : n.exponent = none
  sign : n.negative = true → digitsValue n.integer ≠ 0
  value : w.val = if n.negative then -(digitsValue n.integer : Int) else digitsValue n.integer

/-- What a numeral stands for: an integer where it can, and a double everywhere
else. -/
inductive Numeral.Means (n : Numeral) : Number → Prop
  | whole {w : Whole} (hw : n.IsWhole w) : n.Means (.whole w)
  | real {x : Float} (hx : n.real? = some x) (hnot : ∀ w, ¬n.IsWhole w) : n.Means (.real x)

def NumberText (m : Number) (t : List Char) : Prop := ∃ n, NumeralText n t ∧ n.Means m

/-- Text that does not go on with digits. -/
def EndsDigits (rest : List Char) : Prop := ∀ c ∈ rest.head?, c.isDigit = false

theorem EndsNumber.endsDigits (h : EndsNumber rest) : EndsDigits rest := fun c hc => (h c hc).1

theorem digitRun_append (hdigits : Digits digits) (hrest : EndsDigits rest) :
    digitRun (digits ++ rest) = some (digits, rest) := by
  have hbehind : rest.takeWhile Char.isDigit = [] ∧ rest.dropWhile Char.isDigit = rest := by
    cases rest with
    | nil => exact ⟨rfl, rfl⟩
    | cons c rest => simp [hrest c rfl]
  unfold digitRun
  rw [List.takeWhile_append_of_pos hdigits.2, List.dropWhile_append_of_pos hdigits.2, hbehind.1,
    hbehind.2, List.append_nil]
  obtain ⟨c, more, rfl⟩ := List.exists_cons_of_ne_nil hdigits.1
  rfl

theorem digits_of_digitRun (h : digitRun s = some (digits, rest)) :
    s = digits ++ rest ∧ Digits digits := by
  unfold digitRun at h
  split at h
  · cases h
  next hne =>
    cases h
    refine ⟨List.takeWhile_append_dropWhile.symm, hne, fun c hc => ?_⟩
    exact List.mem_takeWhile_imp hc

theorem integerPart_append (hdigits : IntegerDigits digits) (hrest : EndsDigits rest) :
    integerPart (digits ++ rest) = some (digits, rest) := by
  unfold integerPart
  rw [digitRun_append hdigits.1 hrest]
  split
  next c more behind heq =>
    cases heq
    cases hdigits.2 rfl
  next => rfl

theorem integerDigits_of_integerPart (h : integerPart s = some (digits, rest)) :
    s = digits ++ rest ∧ IntegerDigits digits := by
  unfold integerPart at h
  split at h
  · cases h
  next hzero =>
    obtain ⟨hs, hdigits⟩ := digits_of_digitRun h
    refine ⟨hs, hdigits, fun hhead => ?_⟩
    obtain ⟨more, rfl⟩ := List.head?_eq_some_iff.mp hhead
    cases more with
    | nil => rfl
    | cons c more => exact absurd h (hzero c more rest)

theorem FractionText.endsDigits {f : Option (List Char)} (h : FractionText f t)
    (hrest : EndsDigits rest) : EndsDigits (t ++ rest) := by
  cases h with
  | absent => exact hrest
  | point hdigits =>
      intro c hc
      obtain rfl := Option.some.inj hc
      rfl

theorem FractionText.fractionPart_append {f : Option (List Char)} (h : FractionText f t)
    (hrest : EndsDigits rest) (hpoint : rest.head? ≠ some '.') :
    fractionPart (t ++ rest) = some (f, rest) := by
  cases h with
  | absent =>
      rw [List.nil_append]
      unfold fractionPart
      split
      next => exact absurd rfl hpoint
      next => rfl
  | point hdigits =>
      rw [List.cons_append, fractionPart, digitRun_append hdigits hrest]
      rfl

theorem fractionText_of_fractionPart {f : Option (List Char)}
    (h : fractionPart s = some (f, rest)) : ∃ t, s = t ++ rest ∧ FractionText f t := by
  unfold fractionPart at h
  split at h
  next behind =>
    obtain ⟨⟨digits, r⟩, hrun, heq⟩ := Option.map_eq_some_iff.mp h
    cases heq
    obtain ⟨rfl, hdigits⟩ := digits_of_digitRun hrun
    exact ⟨_, rfl, .point hdigits⟩
  next =>
    cases h
    exact ⟨[], rfl, .absent⟩

theorem ExponentText.head {e : Option (Bool × List Char)} (h : ExponentText e t)
    (hrest : EndsNumber rest) : EndsDigits (t ++ rest) ∧ (t ++ rest).head? ≠ some '.' := by
  have hletter {c : Char} (hc : c = 'e' ∨ c = 'E') (s : List Char) :
      EndsDigits (c :: s) ∧ (c :: s).head? ≠ some '.' := by
    rcases hc with rfl | rfl
    · exact ⟨fun c hc => Option.some.inj hc ▸ rfl, by simp⟩
    · exact ⟨fun c hc => Option.some.inj hc ▸ rfl, by simp⟩
  cases h with
  | absent => exact ⟨hrest.endsDigits, fun hc => (hrest '.' hc).2.1 rfl⟩
  | plain he _ => exact hletter he _
  | up he _ => exact hletter he _
  | down he _ => exact hletter he _

theorem ExponentText.exponentPart_append {e : Option (Bool × List Char)} (h : ExponentText e t)
    (hrest : EndsNumber rest) : exponentPart (t ++ rest) = some (e, rest) := by
  cases h with
  | absent =>
      rw [List.nil_append]
      unfold exponentPart
      split
      next c behind =>
        obtain ⟨-, -, he, hE⟩ := hrest c rfl
        rw [if_neg (by simp [he, hE])]
      next => rfl
  | @plain e digits he hdigits =>
      have hrun := digitRun_append hdigits hrest.endsDigits
      obtain ⟨c, more, rfl⟩ := List.exists_cons_of_ne_nil hdigits.1
      have hc := hdigits.2 c List.mem_cons_self
      have hplain : exponentPart (e :: c :: (more ++ rest)) =
          (digitRun (c :: (more ++ rest))).map fun (digits, r) => (some (false, digits), r) := by
        simp [exponentPart, he, ne_of_isDigit hc]
      exact hplain.trans (by rw [← List.cons_append, hrun]; rfl)
  | @up e digits he hdigits =>
      have hsigned : exponentPart (e :: '+' :: (digits ++ rest)) =
          (digitRun (digits ++ rest)).map fun (digits, r) => (some (false, digits), r) := if_pos he
      exact hsigned.trans (by rw [digitRun_append hdigits hrest.endsDigits]; rfl)
  | @down e digits he hdigits =>
      have hsigned : exponentPart (e :: '-' :: (digits ++ rest)) =
          (digitRun (digits ++ rest)).map fun (digits, r) => (some (true, digits), r) := if_pos he
      exact hsigned.trans (by rw [digitRun_append hdigits hrest.endsDigits]; rfl)

theorem exponentText_of_exponentPart {e : Option (Bool × List Char)}
    (h : exponentPart s = some (e, rest)) : ∃ t, s = t ++ rest ∧ ExponentText e t := by
  unfold exponentPart at h
  split at h
  next c behind =>
    split at h
    next hc =>
      obtain ⟨⟨digits, r⟩, hrun, heq⟩ := Option.map_eq_some_iff.mp h
      cases heq
      obtain ⟨hs, hdigits⟩ := digits_of_digitRun hrun
      split at hs
      next r =>
        obtain rfl : r = digits ++ rest := hs
        exact ⟨_, rfl, .up hc hdigits⟩
      next r =>
        obtain rfl : r = digits ++ rest := hs
        exact ⟨_, rfl, .down hc hdigits⟩
      next =>
        subst hs
        exact ⟨_, rfl, .plain hc hdigits⟩
    next =>
      cases h
      exact ⟨[], rfl, .absent⟩
  next =>
    cases h
    exact ⟨[], rfl, .absent⟩

theorem UnsignedText.numeral_append {n : Numeral} (h : UnsignedText n t)
    (hrest : EndsNumber rest) : numeral n.negative (t ++ rest) = some (n, rest) := by
  obtain ⟨hinteger, f, e, rfl, hf, he⟩ := h
  obtain ⟨hdigits, hpoint⟩ := he.head hrest
  rw [List.append_assoc, List.append_assoc, numeral,
    integerPart_append hinteger (hf.endsDigits hdigits)]
  simp [hf.fractionPart_append hdigits hpoint, he.exponentPart_append hrest]

theorem unsignedText_of_numeral {negative : Bool} {n : Numeral}
    (h : numeral negative s = some (n, rest)) :
    ∃ t, s = t ++ rest ∧ UnsignedText n t ∧ n.negative = negative := by
  simp only [numeral, Option.bind_eq_bind, Option.bind_eq_some_iff, Prod.exists, Option.pure_def,
    Option.some.injEq, Prod.mk.injEq] at h
  obtain ⟨integer, s₁, hinteger, fraction, s₂, hfraction, exponent, s₃, hexponent, rfl, rfl⟩ := h
  obtain ⟨rfl, hdigits⟩ := integerDigits_of_integerPart hinteger
  obtain ⟨f, rfl, hf⟩ := fractionText_of_fractionPart hfraction
  obtain ⟨e, rfl, he⟩ := exponentText_of_exponentPart hexponent
  exact ⟨_, by simp, ⟨hdigits, f, e, rfl, hf, he⟩, rfl⟩

theorem Whole.ofInt?_eq_some_iff {n : Int} {w : Whole} : Whole.ofInt? n = some w ↔ w.val = n := by
  constructor
  · intro h
    unfold Whole.ofInt? at h
    split at h
    · cases h
      rfl
    · cases h
  · rintro rfl
    exact Whole.ofInt?_val w

theorem Numeral.isWhole_iff {n : Numeral} (hfraction : n.fraction = none)
    (hexponent : n.exponent = none) (w : Whole) :
    (if n.negative then
        (if digitsValue n.integer = 0 then none else Whole.ofInt? (-(digitsValue n.integer : Int)))
      else Whole.ofInt? (digitsValue n.integer)) = some w ↔ n.IsWhole w := by
  constructor
  · intro h
    split at h
    next hnegative =>
      split at h
      · cases h
      next hsize =>
        have hval := Whole.ofInt?_eq_some_iff.mp h
        exact ⟨hfraction, hexponent, fun _ => hsize, by rw [hval, if_pos hnegative]⟩
    next hpositive =>
      have hval := Whole.ofInt?_eq_some_iff.mp h
      exact ⟨hfraction, hexponent, fun h => absurd h hpositive, by rw [hval, if_neg hpositive]⟩
  · intro h
    have hval := h.value
    split
    next hnegative =>
      rw [if_pos hnegative] at hval
      rw [if_neg (h.sign hnegative), Whole.ofInt?_eq_some_iff.mpr hval]
    next hpositive =>
      rw [if_neg hpositive] at hval
      rw [Whole.ofInt?_eq_some_iff.mpr hval]

theorem Numeral.IsWhole.unique {n : Numeral} {w w' : Whole} (h : n.IsWhole w)
    (h' : n.IsWhole w') : w = w' := by
  have hsame := ((isWhole_iff h.fraction h.exponent w).mpr h).symm.trans
    ((isWhole_iff h'.fraction h'.exponent w').mpr h')
  exact Option.some.inj hsame

theorem Numeral.number?_eq_some_iff {n : Numeral} {m : Number} :
    n.number? = some m ↔ n.Means m := by
  have hreal (hnot : ∀ w, ¬n.IsWhole w) : n.real?.map Number.real = some m ↔ n.Means m := by
    rw [Option.map_eq_some_iff]
    constructor
    · rintro ⟨x, hx, rfl⟩
      exact .real hx hnot
    · rintro (⟨hw⟩ | ⟨hx, -⟩)
      · exact absurd hw (hnot _)
      · exact ⟨_, hx, rfl⟩
  unfold number?
  split
  next hfraction hexponent =>
    have hwhole := isWhole_iff hfraction hexponent
    dsimp only
    split
    next w hw =>
      have hmeant := (hwhole w).mp hw
      constructor
      · intro h
        cases h
        exact .whole hmeant
      · rintro (⟨hw'⟩ | ⟨-, hnot⟩)
        · rw [hmeant.unique hw']
        · exact absurd hmeant (hnot w)
    next hnone =>
      apply hreal
      intro w hw
      rw [(hwhole w).mpr hw] at hnone
      cases hnone
  next hparts => exact hreal fun w hw => hparts hw.fraction hw.exponent

theorem digitsValue_concat (digits : List Char) (c : Char) :
    digitsValue (digits ++ [c]) = digitsValue digits * 10 + (c.toNat - 48) := by
  simp [digitsValue]

theorem toDigits_of_isDigit {c : Char} (hc : c.isDigit = true) :
    c.toNat - 48 < 10 ∧ Nat.toDigits 10 (c.toNat - 48) = [c] := by
  have hbounds : 48 ≤ c.toNat ∧ c.toNat ≤ 57 := by
    simpa [Char.isDigit, UInt32.le_iff_toNat_le] using hc
  have hlt : c.toNat - 48 < 10 := by omega
  have hchar : (c.toNat - 48).digitChar = c := by
    apply Char.toNat_inj.mp
    rw [Nat.toNat_digitChar_of_lt_ten hlt]
    omega
  rw [Nat.toDigits_of_lt_base hlt, hchar]
  exact ⟨hlt, rfl⟩

theorem IntegerDigits.eq_toDigits (h : IntegerDigits digits) :
    digits = Nat.toDigits 10 (digitsValue digits) := by
  induction digits using List.reverseRecOn with
  | nil => exact absurd rfl h.1.1
  | append_singleton digits c ih =>
      obtain ⟨hlt, hc⟩ := toDigits_of_isDigit (h.1.2 c (by simp))
      rw [digitsValue_concat]
      cases digits with
      | nil => simpa [digitsValue] using hc.symm
      | cons d digits =>
          have hzero : d ≠ '0' := by
            rintro rfl
            simpa using h.2 rfl
          have hdigits : IntegerDigits (d :: digits) := by
            refine ⟨⟨List.cons_ne_nil d digits, fun x hx => ?_⟩, fun hhead => ?_⟩
            · exact h.1.2 x (List.mem_append_left _ hx)
            · exact absurd (Option.some.inj hhead) hzero
          have hsame := ih hdigits
          have hpos : 0 < digitsValue (d :: digits) := by
            rw [Nat.pos_iff_ne_zero]
            intro hvalue
            rw [hvalue, Nat.toDigits_zero] at hsame
            exact hzero (List.cons.inj hsame).1
          rw [Nat.mul_comm, ← Nat.toDigits_append_toDigits (by decide) hpos hlt, hc, ← hsame]

theorem integerDigits_toDigits (n : Nat) :
    IntegerDigits (Nat.toDigits 10 n) ∧ digitsValue (Nat.toDigits 10 n) = n := by
  refine ⟨⟨⟨Nat.toDigits_ne_nil, fun c => isDigit_of_mem_toDigits⟩, fun hhead => ?_⟩,
    digitsValue_toDigits n⟩
  rcases Nat.eq_zero_or_pos n with rfl | hn
  · rfl
  · exact absurd hhead (head_toDigits_ne_zero hn)

theorem numberText_wholeChars (w : Whole) : NumberText (.whole w) (wholeChars w.val) := by
  obtain ⟨hdigits, hvalue⟩ := integerDigits_toDigits w.val.natAbs
  let n : Numeral := ⟨decide (w.val < 0), Nat.toDigits 10 w.val.natAbs, none, none⟩
  have htext : NumeralText n (wholeChars w.val) := by
    refine ⟨Nat.toDigits 10 w.val.natAbs, ?_, hdigits, [], [], by simp [n], .absent, .absent⟩
    unfold wholeChars
    by_cases hneg : w.val < 0 <;> simp [n, hneg]
  have hsign : n.negative = true → digitsValue n.integer ≠ 0 := by
    intro hnegative
    have hneg : w.val < 0 := of_decide_eq_true hnegative
    change digitsValue (Nat.toDigits 10 w.val.natAbs) ≠ 0
    omega
  have hval : w.val =
      if n.negative then -(digitsValue n.integer : Int) else digitsValue n.integer := by
    change w.val = if decide (w.val < 0) then -(digitsValue (Nat.toDigits 10 w.val.natAbs) : Int)
      else digitsValue (Nat.toDigits 10 w.val.natAbs)
    rw [hvalue]
    by_cases hneg : w.val < 0
    · rw [if_pos (by simpa using hneg)]
      omega
    · rw [if_neg (by simpa using hneg)]
      omega
  exact ⟨n, htext, .whole ⟨rfl, rfl, hsign, hval⟩⟩

/-- An integer of 64 bits is spelled by its decimal digits and nothing else: there is
neither a point nor an exponent in it. -/
theorem numberText_whole_iff {w : Whole} : NumberText (.whole w) t ↔ t = wholeChars w.val := by
  constructor
  · rintro ⟨⟨negative, integer, fraction, exponent⟩, ⟨u, rfl, hinteger, f, e, rfl, hf, he⟩,
      ⟨hfraction, hexponent, hsign, hvalue⟩⟩
    dsimp only at *
    subst hfraction hexponent
    cases hf
    cases he
    rw [List.append_nil, List.append_nil, hinteger.eq_toDigits]
    generalize digitsValue integer = size at *
    unfold wholeChars
    cases negative with
    | true =>
        -- a minus sign stands before a number that is not zero
        have hpos := hsign rfl
        rw [if_pos rfl] at hvalue
        rw [if_pos rfl, if_pos (by omega), hvalue]
        simp
    | false =>
        rw [if_neg Bool.false_ne_true] at hvalue
        rw [if_neg Bool.false_ne_true, if_neg (by omega), hvalue]
        simp
  · rintro rfl
    exact numberText_wholeChars w

/-! ## Values that are no containers -/

inductive ScalarText : Value → List Char → Prop
  | nullWord : ScalarText .null ['n', 'u', 'l', 'l']
  | trueWord : ScalarText (.bool true) ['t', 'r', 'u', 'e']
  | falseWord : ScalarText (.bool false) ['f', 'a', 'l', 's', 'e']
  | string {s : String} {t : List Char} (hs : CharsText s.toList t) :
    ScalarText (.string s) ('"' :: (t ++ ['"']))
  | number {m : Number} {t : List Char} (hm : NumberText m t) : ScalarText (.number m) t

theorem NumeralText.begins {n : Numeral} (h : NumeralText n t) :
    (n.negative = true ∧ ∃ u, t = '-' :: u ∧ UnsignedText n u) ∨
      (n.negative = false ∧ UnsignedText n t ∧ ∃ c u, t = c :: u ∧ c.isDigit = true) := by
  obtain ⟨u, rfl, hu⟩ := h
  cases hnegative : n.negative with
  | true => exact .inl ⟨rfl, u, rfl, hu⟩
  | false =>
      refine .inr ⟨rfl, hu, ?_⟩
      obtain ⟨hdigits, f, e, rfl, -⟩ := hu
      obtain ⟨c, more, hinteger⟩ := List.exists_cons_of_ne_nil hdigits.1.1
      have hc := hdigits.1.2 c (hinteger ▸ List.mem_cons_self)
      exact ⟨c, more ++ (f ++ e), by rw [hinteger]; rfl, hc⟩

theorem UnsignedText.number_append {n : Numeral} {m : Number} (h : UnsignedText n t)
    (hm : n.Means m) (hrest : EndsNumber rest) :
    number n.negative (t ++ rest) = some (.number m, rest) := by
  simp [Json.number, h.numeral_append hrest, Numeral.number?_eq_some_iff.mpr hm]

theorem ScalarText.scalar_append {v : Value} (h : ScalarText v t) (hrest : EndsNumber rest) :
    scalar (t ++ rest) = some (v, rest) := by
  cases h with
  | nullWord => rfl
  | trueWord => rfl
  | falseWord => rfl
  | @string s t hs =>
      have hquote (s : List Char) :
          scalar ('"' :: s) = (stringBody s).map fun (t, r) => (.string (String.ofList t), r) := rfl
      rw [List.cons_append, List.append_assoc, List.singleton_append, hquote,
        hs.stringBody_append, Option.map_some]
      simp only [String.ofList_toList]
  | @number m t hm =>
      obtain ⟨n, ht, hmeans⟩ := hm
      rcases ht.begins with ⟨hnegative, u, rfl, hu⟩ | ⟨hnegative, hu, c, u, rfl, hc⟩
      · have hminus (s : List Char) : scalar ('-' :: s) = Json.number true s := rfl
        rw [List.cons_append, hminus, ← hnegative, hu.number_append hmeans hrest]
      · have hread := hu.number_append hmeans hrest
        rw [hnegative] at hread
        rw [List.cons_append, scalar_of_isDigit hc, ← List.cons_append, hread]

theorem numberText_of_number {negative : Bool} {v : Value}
    (h : number negative s = some (v, rest)) :
    ∃ n m t, s = t ++ rest ∧ UnsignedText n t ∧ n.negative = negative ∧ n.Means m ∧
      v = .number m := by
  simp only [number, Option.bind_eq_bind, Option.bind_eq_some_iff, Prod.exists, Option.pure_def,
    Option.some.injEq, Prod.mk.injEq] at h
  obtain ⟨n, behind, hnumeral, m, hm, rfl, rfl⟩ := h
  obtain ⟨t, rfl, ht, hnegative⟩ := unsignedText_of_numeral hnumeral
  exact ⟨n, m, t, rfl, ht, hnegative, Numeral.number?_eq_some_iff.mp hm, rfl⟩

theorem scalarText_of_scalar {v : Value} (h : scalar s = some (v, rest)) :
    ∃ t, s = t ++ rest ∧ ScalarText v t := by
  unfold scalar at h
  split at h
  · cases h
    exact ⟨_, rfl, .nullWord⟩
  · cases h
    exact ⟨_, rfl, .trueWord⟩
  · cases h
    exact ⟨_, rfl, .falseWord⟩
  · obtain ⟨⟨xs, r⟩, hbody, heq⟩ := Option.map_eq_some_iff.mp h
    cases heq
    obtain ⟨t, rfl, ht⟩ := charsText_of_stringBody hbody
    have hstring : CharsText (String.ofList xs).toList t := by rwa [String.toList_ofList]
    exact ⟨_, by simp, .string hstring⟩
  · obtain ⟨n, m, t, rfl, ht, hnegative, hm, rfl⟩ := numberText_of_number h
    exact ⟨'-' :: t, rfl, .number ⟨n, ⟨t, by rw [hnegative]; rfl, ht⟩, hm⟩⟩
  · obtain ⟨n, m, t, rfl, ht, hnegative, hm, rfl⟩ := numberText_of_number h
    exact ⟨t, rfl, .number ⟨n, ⟨t, by rw [hnegative]; rfl, ht⟩, hm⟩⟩

end DevMachine.Json

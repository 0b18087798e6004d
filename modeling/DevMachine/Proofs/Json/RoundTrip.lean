import DevMachine.Json.Printer
import DevMachine.Proofs.Json.Values

/-!
# Compact text is read back

Whatever follows it, the compact text of a value is read as that value, unless
the value holds a double or nests deeper than the reader allows.  What follows
must not go on with a number, and after a value inside a container it does not:
there stands a comma or a closing character.
-/

namespace DevMachine.Json

open Text

theorem hexNumber?_hexDigits {n : Nat} (hn : n < 0x20) :
    hexNumber? (hexDigits 4 n) = some n := by
  have hall : ∀ n, n < 0x20 → hexNumber? (hexDigits 4 n) = some n := by decide
  exact hall n hn

/-- An escape of four digits that is no surrogate stands for itself, whether or
not another one follows. -/
theorem stringBody_quad {a b c d x : Char} {n : Nat} (hquad : quad? a b c d = some n)
    (hbasic : basicEscape? n = some x) (rest : List Char) :
    stringBody ('\\' :: 'u' :: a :: b :: c :: d :: rest) =
      (stringBody rest).map fun (t, r) => (x :: t, r) := by
  -- the reader looks ahead for the second half of a surrogate pair
  by_cases hnext : ∃ e f g h more, rest = '\\' :: 'u' :: e :: f :: g :: h :: more
  · obtain ⟨e, f, g, h, more, rfl⟩ := hnext
    simp only [stringBody, hquad, hbasic]
  · have hlast : ∀ e f g h more, rest = '\\' :: 'u' :: e :: f :: g :: h :: more → False :=
      fun e f g h more heq => hnext ⟨e, f, g, h, more, heq⟩
    rw [stringBody.eq_3 a b c d rest hlast, hquad, Option.bind_eq_bind, Option.bind_some, hbasic]

theorem stringBody_simple {c x : Char} (hc : simpleEscape? c = some x) (rest : List Char) :
    stringBody ('\\' :: c :: rest) = (stringBody rest).map fun (t, r) => (x :: t, r) := by
  have hnot : c ≠ 'u' := by
    rintro rfl
    cases hc
  rw [stringBody.eq_4 c rest (fun _ _ _ _ _ _ _ _ _ heq => absurd heq hnot)
    (fun _ _ _ _ _ heq => absurd heq hnot), hc]

theorem stringBody_char {c : Char} (hquote : c ≠ '"') (hslash : c ≠ '\\') (hc : 0x20 ≤ c.toNat)
    (rest : List Char) :
    stringBody (c :: rest) = (stringBody rest).map fun (t, r) => (c :: t, r) := by
  rw [stringBody.eq_5 c rest (fun _ _ _ _ _ _ _ _ _ heq => absurd heq hslash)
    (fun _ _ _ _ _ heq => absurd heq hslash) (fun _ _ heq => absurd heq hslash), if_neg hquote,
    if_neg (by simp [hslash, hc])]

theorem stringBody_escapeChar (c : Char) (rest : List Char) :
    stringBody (escapeChar c ++ rest) = (stringBody rest).map fun (t, r) => (c :: t, r) := by
  unfold escapeChar
  split
  next h => subst h; exact stringBody_simple rfl rest
  next hquote =>
  split
  next h => subst h; exact stringBody_simple rfl rest
  next hslash =>
  split
  next h => subst h; exact stringBody_simple rfl rest
  split
  next h => subst h; exact stringBody_simple rfl rest
  split
  next h => subst h; exact stringBody_simple rfl rest
  split
  next h => subst h; exact stringBody_simple rfl rest
  split
  next h => subst h; exact stringBody_simple rfl rest
  split
  next hcontrol =>
    have hbasic : basicEscape? c.toNat = some c := by
      rw [basicEscape?, if_neg (by omega), Char.ofNat_toNat]
    exact stringBody_quad (hexNumber?_hexDigits hcontrol) hbasic rest
  next hcontrol => exact stringBody_char hquote hslash (by omega) rest

theorem stringBody_flatMap_escapeChar (s rest : List Char) :
    stringBody (s.flatMap escapeChar ++ '"' :: rest) = some (s, rest) := by
  induction s with
  | nil =>
      rw [List.flatMap_nil, List.nil_append, stringBody.eq_def]
      rfl
  | cons c s ih =>
      rw [List.flatMap_cons, List.append_assoc, stringBody_escapeChar, ih, Option.map_some]

/-- Text that does not go on with a number. -/
def EndsNumber (rest : List Char) : Prop :=
  ∀ c ∈ rest.head?, c.isDigit = false ∧ c ≠ '.' ∧ c ≠ 'e' ∧ c ≠ 'E'

theorem endsNumber_cons {c : Char} (hdigit : c.isDigit = false) (hpoint : c ≠ '.') (he : c ≠ 'e')
    (hE : c ≠ 'E') (rest : List Char) : EndsNumber (c :: rest) := by
  intro x hx
  obtain rfl : c = x := Option.some.inj hx
  exact ⟨hdigit, hpoint, he, hE⟩

theorem endsNumber_comma (rest : List Char) : EndsNumber (',' :: rest) :=
  endsNumber_cons (by decide) (by decide) (by decide) (by decide) rest

theorem isDigit_of_mem_toDigits {n : Nat} {c : Char} (hc : c ∈ Nat.toDigits 10 n) :
    c.isDigit = true := Nat.isDigit_of_mem_toDigits (by decide) (by decide) hc

theorem digitsValue_toDigits (n : Nat) : digitsValue (Nat.toDigits 10 n) = n := by
  have hvalue : digitsValue (Nat.toDigits 10 n) = Nat.ofDigitChars 10 (Nat.toDigits 10 n) 0 := by
    rw [Nat.ofDigitChars_eq_foldl]
    unfold digitsValue
    simp only [Nat.mul_comm]
    rfl
  rw [hvalue, Nat.ofDigitChars_ten_toDigits]

theorem head_toDigits_ne_zero {n : Nat} (hn : 0 < n) : (Nat.toDigits 10 n).head? ≠ some '0' := by
  induction n using Nat.strongRecOn with
  | ind n ih =>
      by_cases hlt : n < 10
      · have hall : ∀ n, n < 10 → 0 < n → (Nat.toDigits 10 n).head? ≠ some '0' := by decide
        exact hall n hlt hn
      · have hhead := ih (n / 10) (by omega) (by omega)
        rw [Nat.toDigits_of_base_le (by decide) (by omega),
          List.head?_append_of_ne_nil _ Nat.toDigits_ne_nil]
        exact hhead

theorem digitRun_toDigits (n : Nat) {rest : List Char} (hrest : EndsNumber rest) :
    digitRun (Nat.toDigits 10 n ++ rest) = some (Nat.toDigits 10 n, rest) := by
  have hdigits : ∀ c ∈ Nat.toDigits 10 n, c.isDigit = true := fun _ => isDigit_of_mem_toDigits
  have hbehind : rest.takeWhile Char.isDigit = [] ∧ rest.dropWhile Char.isDigit = rest := by
    cases rest with
    | nil => exact ⟨rfl, rfl⟩
    | cons c rest =>
        have hc := (hrest c rfl).1
        simp [hc]
  unfold digitRun
  rw [List.takeWhile_append_of_pos hdigits, List.dropWhile_append_of_pos hdigits, hbehind.1,
    hbehind.2, List.append_nil]
  split
  next hnil => exact absurd hnil Nat.toDigits_ne_nil
  next => rfl

theorem integerPart_toDigits (n : Nat) {rest : List Char} (hrest : EndsNumber rest) :
    integerPart (Nat.toDigits 10 n ++ rest) = some (Nat.toDigits 10 n, rest) := by
  unfold integerPart
  rw [digitRun_toDigits n hrest]
  split
  next c digits rest heq =>
    -- a zero in front of other digits is refused, but none is ever written
    have hdigits : Nat.toDigits 10 n = '0' :: c :: digits := by
      simp only [Option.some.injEq, Prod.mk.injEq] at heq
      exact heq.1
    rcases Nat.eq_zero_or_pos n with rfl | hn
    · cases hdigits
    · exact absurd (by rw [hdigits]; rfl) (head_toDigits_ne_zero hn)
  next => rfl

theorem numeral_toDigits (negative : Bool) (n : Nat) {rest : List Char} (hrest : EndsNumber rest) :
    numeral negative (Nat.toDigits 10 n ++ rest) =
      some ({ negative, integer := Nat.toDigits 10 n, fraction := none, exponent := none },
        rest) := by
  have hfraction : fractionPart rest = some (none, rest) := by
    unfold fractionPart
    split
    next behind => exact absurd rfl (hrest '.' rfl).2.1
    next => rfl
  have hexponent : exponentPart rest = some (none, rest) := by
    unfold exponentPart
    split
    next c behind =>
      obtain ⟨-, -, he, hE⟩ := hrest c rfl
      rw [if_neg (by simp [he, hE])]
    next => rfl
  simp [numeral, integerPart_toDigits n hrest, hfraction, hexponent]

theorem Whole.ofInt?_val (w : Whole) : Whole.ofInt? w.val = some w := by
  unfold Whole.ofInt?
  rw [dif_pos ⟨w.lower, w.upper⟩]

theorem number_toDigits {negative : Bool} {n : Nat} {w : Whole}
    (hw : w.val = if negative then -(n : Int) else n) (hn : negative = true → n ≠ 0)
    {rest : List Char} (hrest : EndsNumber rest) :
    number negative (Nat.toDigits 10 n ++ rest) = some (.number (.whole w), rest) := by
  have hnumber : (Numeral.mk negative (Nat.toDigits 10 n) none none).number? =
      some (.whole w) := by
    simp only [Numeral.number?, digitsValue_toDigits]
    cases negative with
    | true =>
        rw [if_pos rfl] at hw
        rw [if_pos rfl, if_neg (hn rfl), ← hw, Whole.ofInt?_val]
    | false =>
        rw [if_neg (by decide)] at hw
        rw [if_neg (by decide), ← hw, Whole.ofInt?_val]
  simp [number, numeral_toDigits negative n hrest, hnumber]

/-! ## Values that are no containers -/

theorem ne_of_isDigit {c d : Char} (hd : d.isDigit = true) (hc : c.isDigit = false) : d ≠ c := by
  rintro rfl
  simp [hd] at hc

theorem scalar_of_isDigit {c : Char} (hc : c.isDigit = true) (rest : List Char) :
    scalar (c :: rest) = number false (c :: rest) := by
  unfold scalar
  split
  next h => exact absurd (List.cons.inj h).1 (ne_of_isDigit hc (by decide))
  next h => exact absurd (List.cons.inj h).1 (ne_of_isDigit hc (by decide))
  next h => exact absurd (List.cons.inj h).1 (ne_of_isDigit hc (by decide))
  next h => exact absurd (List.cons.inj h).1 (ne_of_isDigit hc (by decide))
  next h => exact absurd (List.cons.inj h).1 (ne_of_isDigit hc (by decide))
  next => rfl

theorem exists_toDigits_eq_cons (n : Nat) :
    ∃ c digits, Nat.toDigits 10 n = c :: digits ∧ c.isDigit = true := by
  obtain ⟨c, digits, heq⟩ := List.exists_cons_of_ne_nil (Nat.toDigits_ne_nil (b := 10) (n := n))
  exact ⟨c, digits, heq, isDigit_of_mem_toDigits (heq ▸ List.mem_cons_self)⟩

theorem scalar_wholeChars (w : Whole) {rest : List Char} (hrest : EndsNumber rest) :
    scalar (wholeChars w.val ++ rest) = some (.number (.whole w), rest) := by
  unfold wholeChars
  split
  next hneg =>
    have hminus (s : List Char) : scalar ('-' :: s) = number true s := rfl
    rw [List.cons_append, hminus]
    refine number_toDigits ?_ (fun _ => by omega) hrest
    rw [if_pos rfl]
    omega
  next hpos =>
    obtain ⟨c, digits, heq, hc⟩ := exists_toDigits_eq_cons w.val.natAbs
    rw [heq, List.cons_append, scalar_of_isDigit hc, ← List.cons_append, ← heq]
    refine number_toDigits ?_ (by simp) hrest
    rw [if_neg (by decide)]
    omega

theorem scalar_chars {v : Value} (hplain : v.Plain) (hexact : v.Exact) {rest : List Char}
    (hrest : EndsNumber rest) : scalar (v.chars ++ rest) = some (v, rest) := by
  cases v with
  | null => rfl
  | bool b => cases b <;> rfl
  | number n =>
      cases n with
      | whole w => exact scalar_wholeChars w hrest
      | real x => exact absurd List.mem_cons_self (hexact x)
  | string s =>
      have hquote (s : List Char) :
          scalar ('"' :: s) = (stringBody s).map fun (t, r) => (.string (String.ofList t), r) := rfl
      have hchars : (Value.string s).chars ++ rest =
          '"' :: (s.toList.flatMap escapeChar ++ '"' :: rest) := by
        simp [Value.chars, stringChars]
      rw [hchars, hquote, stringBody_flatMap_escapeChar, Option.map_some]
      simp only [String.ofList_toList]
  | array items => cases hplain
  | object members => cases hplain

theorem exists_chars_eq_cons {v : Value} (hexact : v.Exact) :
    ∃ c s, v.chars = c :: s ∧ isSpace c = false ∧ c ≠ ']' ∧
      (v.Plain → c ≠ '[' ∧ c ≠ '\x7b') := by
  cases v with
  | null => exact ⟨_, _, rfl, by decide, by decide, fun _ => by decide⟩
  | bool b => cases b <;> exact ⟨_, _, rfl, by decide, by decide, fun _ => by decide⟩
  | number n =>
      cases n with
      | whole w =>
          rw [Value.chars, Number.chars, wholeChars]
          split
          · exact ⟨_, _, rfl, by decide, by decide, fun _ => by decide⟩
          · obtain ⟨c, digits, heq, hc⟩ := exists_toDigits_eq_cons w.val.natAbs
            have hspace : isSpace c = false := by
              simp [isSpace, ne_of_isDigit hc]
            exact ⟨c, digits, heq, hspace, ne_of_isDigit hc (by decide),
              fun _ => ⟨ne_of_isDigit hc (by decide), ne_of_isDigit hc (by decide)⟩⟩
      | real x => exact absurd List.mem_cons_self (hexact x)
  | string s => exact ⟨_, _, rfl, by decide, by decide, fun _ => by decide⟩
  | array items => exact ⟨_, _, rfl, by decide, by decide, fun h => nomatch h⟩
  | object members => exact ⟨_, _, rfl, by decide, by decide, fun h => nomatch h⟩

theorem skipSpace_of_isSpace {c : Char} (hc : isSpace c = false) (s : List Char) :
    skipSpace (c :: s) = c :: s := by
  simp [skipSpace, hc]

theorem skipSpace_chars {v : Value} (hexact : v.Exact) (rest : List Char) :
    skipSpace (v.chars ++ rest) = v.chars ++ rest := by
  obtain ⟨c, s, heq, hspace, -⟩ := exists_chars_eq_cons hexact
  rw [heq, List.cons_append, skipSpace_of_isSpace hspace]

theorem value_chars_of_plain {v : Value} (hplain : v.Plain) (hexact : v.Exact) (levels : Nat)
    {rest : List Char} (hrest : EndsNumber rest) :
    value levels (v.chars ++ rest) = some (v, rest) := by
  obtain ⟨c, s, heq, -, -, hbegins⟩ := exists_chars_eq_cons hexact
  obtain ⟨hbracket, hbrace⟩ := hbegins hplain
  have hscalar := scalar_chars hplain hexact hrest
  rw [heq, List.cons_append] at hscalar ⊢
  cases levels with
  | zero =>
      unfold value
      split
      next h => exact absurd (List.cons.inj h).1 hbracket
      next h => exact absurd (List.cons.inj h).1 hbrace
      next => exact hscalar
  | succ levels =>
      have hnode : node (value levels) (c :: (s ++ rest)) = some (.scalar v, rest) := by
        unfold node
        split
        next h => exact absurd (List.cons.inj h).1 hbracket
        next h => exact absurd (List.cons.inj h).1 hbrace
        next => rw [hscalar, Option.map_some]
      rw [value, hnode]
      rfl

/-- Entries with commas between them and a closing character behind them. -/
def separated {α : Type} (print : α → List Char) (close : Char) : List α → List Char
  | [] => [close]
  | [x] => print x ++ [close]
  | x :: y :: rest => print x ++ ',' :: separated print close (y :: rest)

theorem itemsChars_eq_separated (items : List Value) :
    itemsChars items = separated Value.chars ']' items := by
  induction items with
  | nil => rfl
  | cons v items ih =>
      cases items with
      | nil => rfl
      | cons w items => rw [itemsChars, separated, ih]

def memberChars (m : Member) : List Char := stringChars m.1 ++ ':' :: m.2.chars

theorem membersChars_eq_separated (members : List Member) :
    membersChars members = separated memberChars '\x7d' members := by
  induction members with
  | nil => rfl
  | cons m members ih =>
      cases members with
      | nil => simp [membersChars, separated, memberChars]
      | cons m' members => simp [membersChars, separated, memberChars, ih]

section Entries

variable {α : Type} {print : α → List Char} {entry : List Char → Option (α × List Char)}
  {close : Char}

theorem length_le_length_separated (print : α → List Char) (close : Char) (xs : List α) :
    xs.length ≤ (separated print close xs).length := by
  induction xs with
  | nil => exact Nat.zero_le _
  | cons x xs ih =>
      cases xs with
      | nil => simp [separated]
      | cons y xs =>
          simp only [separated, List.length_cons, List.length_append] at ih ⊢
          omega

theorem entries_separated (hcomma : close ≠ ',') (hspace : isSpace close = false)
    (hcloses : ∀ rest, EndsNumber (close :: rest)) {xs : List α} (hxs : xs ≠ [])
    (hentry : ∀ x ∈ xs, ∀ rest, EndsNumber rest → entry (print x ++ rest) = some (x, rest))
    {fuel : Nat} (hfuel : xs.length ≤ fuel) (rest : List Char) :
    entries entry close fuel (separated print close xs ++ rest) = some (xs, rest) := by
  induction xs generalizing fuel with
  | nil => exact absurd rfl hxs
  | cons x xs ih =>
      obtain ⟨fuel, rfl⟩ : ∃ n, fuel = n + 1 := Nat.exists_eq_add_one.mpr (by simp at hfuel; omega)
      have hx := hentry x List.mem_cons_self
      cases xs with
      | nil =>
          have hclose := hx _ (hcloses rest)
          rw [separated, List.append_assoc, List.singleton_append, entries, hclose]
          simp [skipSpace_of_isSpace hspace, hcomma]
      | cons y xs =>
          have hmore : entries entry close fuel (separated print close (y :: xs) ++ rest) =
              some (y :: xs, rest) := ih (List.cons_ne_nil y xs)
            (fun x' hx' => hentry x' (List.mem_cons_of_mem _ hx')) (Nat.succ_le_succ_iff.mp hfuel)
          rw [separated, List.append_assoc, List.cons_append, entries, hx _ (endsNumber_comma _)]
          simp [skipSpace_of_isSpace (c := ',') (by decide), hmore]

theorem contents_separated (hcomma : close ≠ ',') (hspace : isSpace close = false)
    (hcloses : ∀ rest, EndsNumber (close :: rest)) {xs : List α}
    (hentry : ∀ x ∈ xs, ∀ rest, EndsNumber rest → entry (print x ++ rest) = some (x, rest))
    (hbegins : ∀ x ∈ xs, ∃ c s, print x = c :: s ∧ isSpace c = false ∧ c ≠ close)
    (rest : List Char) :
    contents entry close (separated print close xs ++ rest) = some (xs, rest) := by
  cases xs with
  | nil => simp [contents, separated, skipSpace_of_isSpace hspace]
  | cons x xs =>
      obtain ⟨c, s, heq, hc, hclose⟩ := hbegins x List.mem_cons_self
      obtain ⟨s', heq'⟩ : ∃ s', separated print close (x :: xs) = c :: s' := by
        cases xs <;> exact ⟨_, by rw [separated, heq, List.cons_append]⟩
      have hfuel : (x :: xs).length ≤ (c :: (s' ++ rest)).length := by
        have hlength := length_le_length_separated print close (x :: xs)
        rw [heq'] at hlength
        simp only [List.length_cons, List.length_append] at hlength ⊢
        omega
      have hentries := entries_separated hcomma hspace hcloses (List.cons_ne_nil x xs) hentry
        hfuel rest
      rw [heq', List.cons_append] at hentries ⊢
      rw [contents, skipSpace_of_isSpace hc]
      simp only [if_neg hclose]
      exact hentries

end Entries

/-! ## Values -/

theorem member_memberChars {inner : List Char → Option (Value × List Char)} {m : Member}
    (hexact : m.2.Exact) {rest : List Char}
    (hinner : inner (m.2.chars ++ rest) = some (m.2, rest)) :
    member inner (memberChars m ++ rest) = some (m, rest) := by
  obtain ⟨key, v⟩ := m
  have hchars : memberChars (key, v) ++ rest =
      '"' :: (key.toList.flatMap escapeChar ++ '"' :: ':' :: (v.chars ++ rest)) := by
    simp [memberChars, stringChars]
  rw [hchars, member, skipSpace_of_isSpace (by decide)]
  simp only [stringBody_flatMap_escapeChar, skipSpace_of_isSpace (c := ':') (by decide),
    skipSpace_chars hexact, hinner, Option.map_some, String.ofList_toList]

theorem contents_membersChars (inner : List Char → Option (Value × List Char))
    {members : List Member} (hexact : ∀ m ∈ members, m.2.Exact)
    (hinner : ∀ m ∈ members, ∀ rest, EndsNumber rest →
      inner (m.2.chars ++ rest) = some (m.2, rest)) (rest : List Char) :
    contents (member inner) '\x7d' (membersChars members ++ rest) = some (members, rest) := by
  rw [membersChars_eq_separated]
  refine contents_separated (by decide) (by decide)
    (endsNumber_cons (by decide) (by decide) (by decide) (by decide)) ?_ ?_ rest
  · intro m hm rest hrest
    exact member_memberChars (hexact m hm) (hinner m hm rest hrest)
  · intro m _
    exact ⟨'"', _, rfl, by decide, by decide⟩

theorem contents_itemsChars (inner : List Char → Option (Value × List Char))
    {items : List Value} (hexact : ∀ v ∈ items, v.Exact)
    (hinner : ∀ v ∈ items, ∀ rest, EndsNumber rest → inner (v.chars ++ rest) = some (v, rest))
    (rest : List Char) :
    contents (fun s => inner (skipSpace s)) ']' (itemsChars items ++ rest) =
      some (items, rest) := by
  rw [itemsChars_eq_separated]
  refine contents_separated (by decide) (by decide)
    (endsNumber_cons (by decide) (by decide) (by decide) (by decide)) ?_ ?_ rest
  · intro v hv rest hrest
    rw [skipSpace_chars (hexact v hv)]
    exact hinner v hv rest hrest
  · intro v hv
    obtain ⟨c, s, heq, hspace, hclose, -⟩ := exists_chars_eq_cons (hexact v hv)
    exact ⟨c, s, heq, hspace, hclose⟩

/-- The compact text of a value is read as that value, whatever follows it. -/
theorem value_chars {levels : Nat} {v : Value} (hdepth : v.depth ≤ levels) (hordered : v.Ordered)
    (hexact : v.Exact) {rest : List Char} (hrest : EndsNumber rest) :
    value levels (v.chars ++ rest) = some (v, rest) := by
  -- by the levels: what stands inside a container is read with one level less
  induction levels generalizing v rest with
  | zero =>
      have hplain : v.Plain := by
        cases v with
        | array items => simp [Value.depth] at hdepth
        | object members => simp [Value.depth] at hdepth
        | _ => trivial
      exact value_chars_of_plain hplain hexact 0 hrest
  | succ levels ih =>
      by_cases hplain : v.Plain
      · exact value_chars_of_plain hplain hexact _ hrest
      · cases v with
        | array items =>
            rw [Value.depth, Nat.succ_le_succ_iff, itemsDepth_le_iff] at hdepth
            rw [Value.ordered_array_iff] at hordered
            rw [Value.exact_array_iff] at hexact
            have hcontents := contents_itemsChars (value levels) hexact
              (fun v hv _ => ih (hdepth v hv) (hordered v hv) (hexact v hv)) rest
            rw [Value.chars, List.cons_append, value, node, hcontents]
            rfl
        | object members =>
            rw [Value.depth, Nat.succ_le_succ_iff, membersDepth_le_iff] at hdepth
            obtain ⟨hascending, hinside⟩ := Value.ordered_object_iff.mp hordered
            rw [Value.exact_object_iff] at hexact
            have hcontents := contents_membersChars (value levels) hexact
              (fun m hm _ => ih (hdepth m hm) (hinside m hm) (hexact m hm)) rest
            rw [Value.chars, List.cons_append, value, node, hcontents]
            simp only [Option.map_some, Node.value, Value.ofMembers_of_ascending hascending]
        | _ => exact absurd trivial hplain

/-- An object that was written compactly is read with its members as written. -/
theorem readNode_membersChars {members : List Member}
    (h : ∀ m ∈ members, m.2.depth ≤ 126 ∧ m.2.Ordered ∧ m.2.Exact) :
    readNode (String.ofList ('\x7b' :: membersChars members)) = some (.members members) := by
  have hcontents := contents_membersChars (value (maxLevels - 1)) (fun m hm => (h m hm).2.2)
    (fun m hm _ => value_chars (h m hm).1 (h m hm).2.1 (h m hm).2.2) []
  rw [List.append_nil] at hcontents
  rw [readNode, String.toList_ofList, skipSpace_of_isSpace (by decide), node, hcontents]
  rfl

end DevMachine.Json

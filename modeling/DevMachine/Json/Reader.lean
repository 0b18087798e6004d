import DevMachine.Json.Value
import DevMachine.Text.Hexadecimal

/-!
# Reading JSON text

A reader takes the characters that are left and gives back what it read and
what is left after it.  Containers nest at most 127 deep: `value n` reads a
value with `n` levels of containers, so the nesting bound is also what the
recursion descends on.

The outermost container is kept as written, with every member in its place
(`Node`), because the readers of typed documents have to see repeated keys;
an ordinary value keeps the last member of each key.
-/

namespace DevMachine.Json

open Text

/-- The space characters of the format: space, tab, line feed and carriage
return. -/
def isSpace (c : Char) : Bool := c = ' ' || c = '\t' || c = '\n' || c = '\r'

def skipSpace (s : List Char) : List Char := s.dropWhile isSpace

/-- The character of a two-character escape. -/
def simpleEscape? (c : Char) : Option Char :=
  if c = '"' then some '"'
  else if c = '\\' then some '\\'
  else if c = '/' then some '/'
  else if c = 'b' then some '\x08'
  else if c = 'f' then some '\x0c'
  else if c = 'n' then some '\n'
  else if c = 'r' then some '\r'
  else if c = 't' then some '\t'
  else none

/-- The character that two surrogates stand for. -/
def surrogatePair? (high low : Nat) : Option Char :=
  if 0xd800 ≤ high ∧ high ≤ 0xdbff ∧ 0xdc00 ≤ low ∧ low ≤ 0xdfff then
    some (Char.ofNat (0x10000 + (high - 0xd800) * 0x400 + (low - 0xdc00)))
  else none

/-- The character of one four-digit escape, which is not a surrogate. -/
def basicEscape? (n : Nat) : Option Char :=
  if 0xd800 ≤ n ∧ n ≤ 0xdfff then none else some (Char.ofNat n)

def quad? (a b c d : Char) : Option Nat := hexNumber? [a, b, c, d]

/-- The rest of a string after its opening quote. -/
def stringBody : List Char → Option (List Char × List Char)
  | [] => none
  | '\\' :: 'u' :: a :: b :: c :: d :: '\\' :: 'u' :: e :: f :: g :: h :: rest =>
    match quad? a b c d with
    | none => none
    | some n =>
      match basicEscape? n with
      | some x =>
        (stringBody ('\\' :: 'u' :: e :: f :: g :: h :: rest)).map fun (t, r) => (x :: t, r)
      | none =>
        match quad? e f g h >>= surrogatePair? n with
        | some x => (stringBody rest).map fun (t, r) => (x :: t, r)
        | none => none
  | '\\' :: 'u' :: a :: b :: c :: d :: rest =>
    match quad? a b c d >>= basicEscape? with
    | some x => (stringBody rest).map fun (t, r) => (x :: t, r)
    | none => none
  | '\\' :: c :: rest =>
    match simpleEscape? c with
    | some x => (stringBody rest).map fun (t, r) => (x :: t, r)
    | none => none
  | c :: rest =>
    if c = '"' then some ([], rest)
    else if c.toNat < 0x20 ∨ c = '\\' then none
    else (stringBody rest).map fun (t, r) => (c :: t, r)

/-! ## Numbers -/

/-- Adds digits to a significand for as long as it fits 64 bits; the second
number says how many digits were left out. -/
def absorb (significand : Nat) : List Char → Nat × Nat
  | [] => (significand, 0)
  | c :: rest =>
    let next := significand * 10 + (c.toNat - 48)
    if next < UInt64.size then absorb next rest else (significand, rest.length + 1)

/-- A double times a power of ten.  Powers beyond 10^308 are refused, and
powers below 10^-308 divide in several steps until nothing is left. -/
def scaleTen (x : Float) (exponent : Int) : Option Float :=
  if exponent.natAbs ≤ 308 then
    if 0 ≤ exponent then
      let y := x * Float.ofScientific 1 false exponent.natAbs
      if y.isInf then none else some y
    else some (x / Float.ofScientific 1 false exponent.natAbs)
  else if x == 0 then some x
  else if 0 ≤ exponent then none
  else scaleTen (x / Float.ofScientific 1 false 308) (exponent + 308)
termination_by exponent.natAbs

/-- The written parts of a number. -/
structure Numeral where
  negative : Bool
  integer : List Char
  fraction : Option (List Char)
  exponent : Option (Bool × List Char)

def digitsValue (digits : List Char) : Nat :=
  digits.foldl (fun n c => n * 10 + (c.toNat - 48)) 0

/-- The double of a numeral: as many leading digits as fit 64 bits, rounded
once, then scaled by the power of ten that is left. -/
def Numeral.real? (n : Numeral) : Option Float :=
  let (whole, dropped) := absorb 0 n.integer
  let fraction := n.fraction.getD []
  let (significand, unread) := absorb whole fraction
  let point : Int := dropped - (fraction.length - unread : Nat)
  let sign (x : Float) := if n.negative then -x else x
  match n.exponent with
  | none => (scaleTen significand.toUInt64.toFloat point).map sign
  | some (down, digits) =>
    let size := digitsValue digits
    if 2147483648 ≤ size then
      if significand ≠ 0 ∧ !down then none else some (sign 0.0)
    else
      (scaleTen significand.toUInt64.toFloat (if down then point - size else point + size)).map sign

/-- An integer is kept exactly where it fits 64 bits; `-0` is a double. -/
def Numeral.number? (n : Numeral) : Option Number :=
  match n.fraction, n.exponent with
  | none, none =>
    let size := digitsValue n.integer
    let whole := if n.negative then (if size = 0 then none else Whole.ofInt? (-(size : Int)))
      else Whole.ofInt? size
    match whole with
    | some w => some (.whole w)
    | none => n.real?.map .real
  | _, _ => n.real?.map .real

/-- A run of at least one digit. -/
def digitRun (s : List Char) : Option (List Char × List Char) :=
  match s.takeWhile Char.isDigit with
  | [] => none
  | digits => some (digits, s.dropWhile Char.isDigit)

/-- The digits before the point: no zero stands before another digit. -/
def integerPart (s : List Char) : Option (List Char × List Char) :=
  match digitRun s with
  | some ('0' :: _ :: _, _) => none
  | other => other

def fractionPart : List Char → Option (Option (List Char) × List Char)
  | '.' :: rest => (digitRun rest).map fun (digits, r) => (some digits, r)
  | s => some (none, s)

def exponentPart : List Char → Option (Option (Bool × List Char) × List Char)
  | c :: rest =>
    if c = 'e' ∨ c = 'E' then
      let (down, digits) := match rest with
        | '+' :: r => (false, r)
        | '-' :: r => (true, r)
        | r => (false, r)
      (digitRun digits).map fun (digits, r) => (some (down, digits), r)
    else some (none, c :: rest)
  | [] => some (none, [])

def numeral (negative : Bool) (s : List Char) : Option (Numeral × List Char) := do
  let (integer, s) ← integerPart s
  let (fraction, s) ← fractionPart s
  let (exponent, s) ← exponentPart s
  return ({ negative, integer, fraction, exponent }, s)

def number (negative : Bool) (s : List Char) : Option (Value × List Char) := do
  let (n, rest) ← numeral negative s
  let n ← n.number?
  return (.number n, rest)

/-! ## Values -/

/-- A value that is no container. -/
def scalar : List Char → Option (Value × List Char)
  | 'n' :: 'u' :: 'l' :: 'l' :: rest => some (.null, rest)
  | 't' :: 'r' :: 'u' :: 'e' :: rest => some (.bool true, rest)
  | 'f' :: 'a' :: 'l' :: 's' :: 'e' :: rest => some (.bool false, rest)
  | '"' :: rest => (stringBody rest).map fun (t, r) => (.string (String.ofList t), r)
  | '-' :: rest => number true rest
  | rest => number false rest

/-- One or more entries with commas between them, up to the closing character.
Each entry takes at least one character, so the number of characters left is
enough fuel. -/
def entries (entry : List Char → Option (α × List Char)) (close : Char) :
    (fuel : Nat) → List Char → Option (List α × List Char)
  | 0, _ => none
  | fuel + 1, s =>
    match entry s with
    | none => none
    | some (x, rest) =>
      match skipSpace rest with
      | [] => none
      | c :: rest =>
        if c = ',' then (entries entry close fuel rest).map fun (xs, r) => (x :: xs, r)
        else if c = close then some ([x], rest)
        else none

/-- The inside of a container after its opening character. -/
def contents (entry : List Char → Option (α × List Char)) (close : Char) (s : List Char) :
    Option (List α × List Char) :=
  match skipSpace s with
  | [] => none
  | c :: rest =>
    if c = close then some ([], rest) else entries entry close (c :: rest).length (c :: rest)

/-- A key, a colon and a value. -/
def member (inner : List Char → Option (Value × List Char)) (s : List Char) :
    Option (Member × List Char) :=
  match skipSpace s with
  | '"' :: rest =>
    match stringBody rest with
    | none => none
    | some (key, rest) =>
      match skipSpace rest with
      | ':' :: rest => (inner (skipSpace rest)).map fun (v, r) => ((String.ofList key, v), r)
      | _ => none
  | _ => none

/-- A value whose outermost container is kept as written. -/
inductive Node
  | members (members : List Member)
  | items (items : List Value)
  | scalar (value : Value)

def Node.value : Node → Value
  | .members ms => .ofMembers ms
  | .items vs => .array vs
  | .scalar v => v

def node (inner : List Char → Option (Value × List Char)) :
    List Char → Option (Node × List Char)
  | '[' :: rest =>
    (contents (fun s => inner (skipSpace s)) ']' rest).map fun (vs, r) => (.items vs, r)
  | '\x7b' :: rest =>
    (contents (member inner) '\x7d' rest).map fun (ms, r) => (.members ms, r)
  | rest => (scalar rest).map fun (v, r) => (.scalar v, r)

/-- A value with at most the given number of containers inside one another. -/
def value : (levels : Nat) → List Char → Option (Value × List Char)
  | 0, s => match s with
    | '[' :: _ => none
    | '\x7b' :: _ => none
    | s => scalar s
  | levels + 1, s => (node (value levels) s).map fun (n, r) => (n.value, r)

/-- How deep containers may nest. -/
def maxLevels : Nat := 127

/-- The whole text as one value, its outermost container as written. -/
def readNode (text : String) : Option Node :=
  match node (value (maxLevels - 1)) (skipSpace text.toList) with
  | some (n, rest) => if skipSpace rest = [] then some n else none
  | none => none

/-- The whole text as one value. -/
def read (text : String) : Option Value := (readNode text).map Node.value

end DevMachine.Json

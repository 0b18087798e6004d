import DevMachine.Text.Hexadecimal
import DevMachine.Toml.Value

/-!
# Strings, numbers, dates and times of a document

Each reader takes the characters that are left and gives back what it read and
what is left after it.
-/

namespace DevMachine.Toml

open Text

def isBlank (c : Char) : Bool := c = ' ' || c = '\t'

def skipBlank (s : List Char) : List Char := s.dropWhile isBlank

/-- A line feed, alone or after a carriage return. -/
def newline? : List Char → Option (List Char)
  | '\n' :: rest => some rest
  | '\r' :: '\n' :: rest => some rest
  | _ => none

/-- The characters a comment or a string may hold as they are: everything but
control characters, of which the tab is allowed. -/
def isPlain (c : Char) : Bool := c = '\t' || (0x20 ≤ c.toNat && c.toNat ≠ 0x7f)

def escape? (c : Char) : Option Char :=
  if c = 'b' then some '\x08'
  else if c = 't' then some '\t'
  else if c = 'n' then some '\n'
  else if c = 'f' then some '\x0c'
  else if c = 'r' then some '\r'
  else if c = '"' then some '"'
  else if c = '\\' then some '\\'
  else none

/-- The scalar value written by hexadecimal digits. -/
def scalar? (digits : List Char) : Option Char := do
  let n ← hexNumber? digits
  if n < 0xd800 ∨ (0xdfff < n ∧ n < 0x110000) then some (Char.ofNat n) else none

/-- The rest of a string in quotes. -/
def basicBody : List Char → Option (List Char × List Char)
  | [] => none
  | '"' :: rest => some ([], rest)
  | '\\' :: 'u' :: a :: b :: c :: d :: rest =>
    match scalar? [a, b, c, d] with
    | some x => (basicBody rest).map fun (t, r) => (x :: t, r)
    | none => none
  | '\\' :: 'U' :: a :: b :: c :: d :: e :: f :: g :: h :: rest =>
    match scalar? [a, b, c, d, e, f, g, h] with
    | some x => (basicBody rest).map fun (t, r) => (x :: t, r)
    | none => none
  | '\\' :: c :: rest =>
    match escape? c with
    | some x => (basicBody rest).map fun (t, r) => (x :: t, r)
    | none => none
  | c :: rest =>
    if isPlain c then (basicBody rest).map fun (t, r) => (c :: t, r) else none

/-- The rest of a string in apostrophes. -/
def literalBody : List Char → Option (List Char × List Char)
  | [] => none
  | '\'' :: rest => some ([], rest)
  | c :: rest =>
    if isPlain c then (literalBody rest).map fun (t, r) => (c :: t, r) else none

/-- Whether a backslash ends its line. -/
def endsLine (s : List Char) : Bool := (newline? (skipBlank s)).isSome

/-- The rest of a string in triple quotes.  Up to two quotes may stand before
the closing ones.  After a backslash at the end of a line, blanks and line
feeds are left out (`trimming`). -/
def longBasicBody (trimming : Bool) : List Char → Option (List Char × List Char)
  | [] => none
  | '"' :: '"' :: '"' :: '"' :: '"' :: rest => some (['"', '"'], rest)
  | '"' :: '"' :: '"' :: '"' :: rest => some (['"'], rest)
  | '"' :: '"' :: '"' :: rest => some ([], rest)
  | '\r' :: '\n' :: rest =>
    if trimming then longBasicBody true rest
    else (longBasicBody false rest).map fun (t, r) => ('\n' :: t, r)
  | '\\' :: 'u' :: a :: b :: c :: d :: rest =>
    match scalar? [a, b, c, d] with
    | some x => (longBasicBody false rest).map fun (t, r) => (x :: t, r)
    | none => none
  | '\\' :: 'U' :: a :: b :: c :: d :: e :: f :: g :: h :: rest =>
    match scalar? [a, b, c, d, e, f, g, h] with
    | some x => (longBasicBody false rest).map fun (t, r) => (x :: t, r)
    | none => none
  | '\\' :: c :: rest =>
    match escape? c with
    | some x => (longBasicBody false rest).map fun (t, r) => (x :: t, r)
    | none => if endsLine (c :: rest) then longBasicBody true (c :: rest) else none
  | c :: rest =>
    if trimming && (isBlank c || c = '\n') then longBasicBody true rest
    else if isPlain c || c = '\n' then (longBasicBody false rest).map fun (t, r) => (c :: t, r)
    else none

/-- The rest of a string in triple apostrophes. -/
def longLiteralBody : List Char → Option (List Char × List Char)
  | [] => none
  | '\'' :: '\'' :: '\'' :: '\'' :: '\'' :: rest => some (['\'', '\''], rest)
  | '\'' :: '\'' :: '\'' :: '\'' :: rest => some (['\''], rest)
  | '\'' :: '\'' :: '\'' :: rest => some ([], rest)
  | '\r' :: '\n' :: rest => (longLiteralBody rest).map fun (t, r) => ('\n' :: t, r)
  | c :: rest =>
    if isPlain c || c = '\n' then (longLiteralBody rest).map fun (t, r) => (c :: t, r) else none

/-- A line feed right after the opening quotes does not count. -/
def dropNewline (s : List Char) : List Char := (newline? s).getD s

def text : List Char → Option (String × List Char)
  | '"' :: '"' :: '"' :: rest => finish (longBasicBody false (dropNewline rest))
  | '\'' :: '\'' :: '\'' :: rest => finish (longLiteralBody (dropNewline rest))
  | '"' :: rest => finish (basicBody rest)
  | '\'' :: rest => finish (literalBody rest)
  | _ => none
where
  finish (read : Option (List Char × List Char)) : Option (String × List Char) :=
    read.map fun (t, r) => (String.ofList t, r)

/-! ## Numbers -/

/-- Digits with single underscores between them, after a first digit. -/
def moreDigits (isDigit : Char → Bool) : List Char → List Char × List Char
  | '_' :: c :: rest =>
    if isDigit c then
      let (ds, r) := moreDigits isDigit rest
      (c :: ds, r)
    else ([], '_' :: c :: rest)
  | c :: rest =>
    if isDigit c then
      let (ds, r) := moreDigits isDigit rest
      (c :: ds, r)
    else ([], c :: rest)
  | [] => ([], [])

def digitGroup (isDigit : Char → Bool) : List Char → Option (List Char × List Char)
  | c :: rest =>
    if isDigit c then let (ds, r) := moreDigits isDigit rest; some (c :: ds, r) else none
  | [] => none

def sign : List Char → Bool × List Char
  | '+' :: rest => (false, rest)
  | '-' :: rest => (true, rest)
  | s => (false, s)

/-- Decimal digits without a leading zero, unless it is the only digit. -/
def decimalDigits : List Char → Option (List Char × List Char)
  | '0' :: rest => some (['0'], rest)
  | s => digitGroup Char.isDigit s

def numberIn (base : Nat) (digits : List Char) : Nat :=
  digits.foldl (fun n c => n * base + (hexValue? c).getD 0) 0

def inRange (n : Int) : Bool := -9223372036854775808 ≤ n && n < 9223372036854775808

def prefixed (base : Nat) (isDigit : Char → Bool) (s : List Char) : Option (Value × List Char) := do
  let (digits, rest) ← digitGroup isDigit s
  let n : Int := numberIn base digits
  if inRange n then some (.integer n, rest) else none

def integer : List Char → Option (Value × List Char)
  | '0' :: 'x' :: rest => prefixed 16 (fun c => (hexValue? c).isSome) rest
  | '0' :: 'o' :: rest => prefixed 8 (fun c => '0' ≤ c && c ≤ '7') rest
  | '0' :: 'b' :: rest => prefixed 2 (fun c => c = '0' || c = '1') rest
  | s => do
    let (negative, s) := sign s
    let (digits, rest) ← decimalDigits s
    let n : Int := if negative then -(numberIn 10 digits) else numberIn 10 digits
    if inRange n then some (.integer n, rest) else none

/-- Whether `digits · 10 ^ exponent` is too large for a double.  The bound is
halfway between the largest double and the next power of two. -/
def overflows (digits : Nat) (exponent : Int) : Bool :=
  let size : Int := (Nat.toDigits 10 digits).length + exponent
  if digits = 0 ∨ size ≤ 308 then false
  else if 310 < size then true
  else Nat.pow 2 1024 - Nat.pow 2 970 ≤
    digits * Nat.pow 10 exponent.toNat / Nat.pow 10 (-exponent).toNat

/-- The exponent of a number, which follows a letter. -/
def exponent : List Char → Option (Int × List Char)
  | c :: rest =>
    if c = 'e' ∨ c = 'E' then do
      let (down, s) := sign rest
      let (digits, rest) ← digitGroup Char.isDigit s
      return (if down then -(numberIn 10 digits : Int) else numberIn 10 digits, rest)
    else none
  | [] => none

/-- A float has a fraction, an exponent or both.  It is refused when it is too
large, unless it is negative. -/
def float (s : List Char) : Option (Value × List Char) := do
  let (negative, s) := sign s
  let (whole, s) ← decimalDigits s
  let (fraction, power, rest) ← match s with
    | '.' :: r => do
      let (fraction, r) ← digitGroup Char.isDigit r
      match exponent r with
      | some (power, r) => some (fraction, power, r)
      | none => some (fraction, (0 : Int), r)
    | r => (exponent r).map fun (power, r) => ([], power, r)
  if !negative && overflows (numberIn 10 (whole ++ fraction)) (power - fraction.length) then none
  else some (.float, rest)

def specialFloat (s : List Char) : Option (Value × List Char) :=
  match (sign s).2 with
  | 'i' :: 'n' :: 'f' :: rest => some (.float, rest)
  | 'n' :: 'a' :: 'n' :: rest => some (.float, rest)
  | _ => none

/-! ## Dates and times -/

/-- Exactly `n` digits as a number. -/
def fixedDigits (n : Nat) (s : List Char) : Option (Nat × List Char) :=
  let digits := s.take n
  if digits.length = n ∧ digits.all Char.isDigit then some (numberIn 10 digits, s.drop n) else none

def literally (c : Char) : List Char → Option (List Char)
  | d :: rest => if d = c then some rest else none
  | [] => none

def daysIn (year month : Nat) : Nat :=
  if month = 2 then
    if (year % 4 = 0 ∧ year % 100 ≠ 0) ∨ year % 400 = 0 then 29 else 28
  else if month = 4 ∨ month = 6 ∨ month = 9 ∨ month = 11 then 30
  else 31

def date (s : List Char) : Option (List Char) := do
  let (year, s) ← fixedDigits 4 s
  let s ← literally '-' s
  let (month, s) ← fixedDigits 2 s
  let s ← literally '-' s
  let (day, s) ← fixedDigits 2 s
  if 1 ≤ month ∧ month ≤ 12 ∧ 1 ≤ day ∧ day ≤ daysIn year month then some s else none

def hourMinute (s : List Char) : Option (List Char) := do
  let (hour, s) ← fixedDigits 2 s
  let s ← literally ':' s
  let (minute, s) ← fixedDigits 2 s
  if hour ≤ 23 ∧ minute ≤ 59 then some s else none

/-- The decimals of a second. -/
def secondFraction : List Char → Option (List Char)
  | '.' :: c :: rest => if c.isDigit then some (rest.dropWhile Char.isDigit) else none
  | '.' :: [] => none
  | s => some s

def time (s : List Char) : Option (List Char) := do
  let s ← hourMinute s
  let s ← literally ':' s
  let (second, s) ← fixedDigits 2 s
  if second ≤ 60 then secondFraction s else none

/-- The distance from universal time. -/
def offset : List Char → Option (List Char)
  | 'Z' :: rest => some rest
  | 'z' :: rest => some rest
  | '+' :: rest => hourMinute rest
  | '-' :: rest => hourMinute rest
  | s => some s

/-- A date, a time, or both with or without an offset. -/
def datetime (s : List Char) : Option (Value × List Char) :=
  match date s with
  | some (c :: rest) =>
    if c = 'T' ∨ c = 't' ∨ c = ' ' then
      match time rest with
      | some r => (offset r).map fun r => (.datetime, r)
      | none => some (.datetime, c :: rest)
    else some (.datetime, c :: rest)
  | some [] => some (.datetime, [])
  | none => (time s).map fun r => (.datetime, r)

end DevMachine.Toml

import DevMachine.Json.Value
import DevMachine.Text.Hexadecimal
import DevMachine.Text.ShortestDecimal

/-!
# Compact JSON text

A value is written without spaces.  Strings escape the quote, the backslash
and the characters below 0x20, nothing else.  A double always shows a point or
an exponent: it is written positionally from 0.00001 up to, and not including,
10^16, and with an exponent otherwise.
-/

namespace DevMachine.Json

open Text

/-- One character of a string, escaped where it has to be. -/
def escapeChar (c : Char) : List Char :=
  if c = '"' then ['\\', '"']
  else if c = '\\' then ['\\', '\\']
  else if c = '\x08' then ['\\', 'b']
  else if c = '\t' then ['\\', 't']
  else if c = '\n' then ['\\', 'n']
  else if c = '\x0c' then ['\\', 'f']
  else if c = '\r' then ['\\', 'r']
  else if c.toNat < 0x20 then '\\' :: 'u' :: hexDigits 4 c.toNat
  else [c]

def stringChars (s : String) : List Char :=
  '"' :: (s.toList.flatMap escapeChar ++ ['"'])

def wholeChars (n : Int) : List Char :=
  if n < 0 then '-' :: Nat.toDigits 10 n.natAbs else Nat.toDigits 10 n.natAbs

/-- The digits of a decimal with its point, or with an exponent. -/
def decimalChars (d : Decimal) : List Char :=
  let digits := Nat.toDigits 10 d.digits
  let place : Int := d.exponent + digits.length
  if 0 ≤ d.exponent ∧ place ≤ 16 then
    digits ++ List.replicate d.exponent.toNat '0' ++ ['.', '0']
  else if 0 < place ∧ place ≤ 16 then
    digits.take place.toNat ++ '.' :: digits.drop place.toNat
  else if -5 < place ∧ place ≤ 0 then
    '0' :: '.' :: (List.replicate (-place).toNat '0' ++ digits)
  else
    let fraction := match digits.drop 1 with
      | [] => []
      | more => '.' :: more
    let sign := if 0 < place - 1 then '+' else '-'
    digits.take 1 ++ fraction ++ 'e' :: sign :: Nat.toDigits 10 (place - 1).natAbs

/-- The text of a finite double. -/
def realChars (x : Float) : List Char :=
  let negative := 0x8000000000000000 ≤ x.toBits
  let size := x.abs
  let text := if size == 0 then ['0', '.', '0'] else decimalChars (shortestDecimal size)
  if negative then '-' :: text else text

def Number.chars : Number → List Char
  | .whole n => wholeChars n.val
  | .real x => realChars x

mutual

/-- The compact text of a value. -/
def Value.chars : Value → List Char
  | .null => ['n', 'u', 'l', 'l']
  | .bool true => ['t', 'r', 'u', 'e']
  | .bool false => ['f', 'a', 'l', 's', 'e']
  | .number n => n.chars
  | .string s => stringChars s
  | .array items => '[' :: itemsChars items
  | .object members => '\x7b' :: membersChars members

/-- The items of an array and its closing bracket. -/
def itemsChars : List Value → List Char
  | [] => [']']
  | [v] => v.chars ++ [']']
  | v :: w :: rest => v.chars ++ ',' :: itemsChars (w :: rest)

/-- The members of an object and its closing brace. -/
def membersChars : List (String × Value) → List Char
  | [] => ['\x7d']
  | [(k, v)] => stringChars k ++ ':' :: (v.chars ++ ['\x7d'])
  | (k, v) :: m :: rest => stringChars k ++ ':' :: (v.chars ++ ',' :: membersChars (m :: rest))

end

def Value.render (v : Value) : String := String.ofList v.chars

end DevMachine.Json

import DevMachine.Text.Hexadecimal
import DevMachine.Text.Utf8

/-!
# Paths of locators

A path written as plain text becomes the path of a locator: tabs and line ends
are left out, a number sign cuts off the rest, a question mark begins the query,
segments that are one or two dots are resolved, and characters that cannot
stand in a path are written as percent signs with the octets of their UTF-8
form.  A percent sign itself is kept.
-/

namespace DevMachine.Text.UrlPath

def percent (b : UInt8) : List Char :=
  ['%', upperHexDigit (b.toNat / 16), upperHexDigit (b.toNat % 16)]

/-- Whether a character has to be written by its octets wherever it stands. -/
def isEscaped (c : Char) : Bool :=
  c.toNat ≤ 0x20 || 0x7f ≤ c.toNat || c = '"' || c = '<' || c = '>'

/-- Whether a character has to be written by its octets in a path. -/
def isEscapedInPath (c : Char) : Bool :=
  isEscaped c || c = '`' || c = '\x7b' || c = '\x7d'

def escape (needed : Char → Bool) (s : List Char) : List Char :=
  s.flatMap fun c => if needed c then (Utf8.encode (String.singleton c)).flatMap percent else [c]

/-- The pieces between slashes. -/
def segments : List Char → List (List Char)
  | [] => [[]]
  | c :: rest =>
    match segments rest with
    | [] => [[]]
    | first :: more => if c = '/' then [] :: first :: more else (c :: first) :: more

/-- A dot, or its octet written with a percent sign. -/
def dropDot : List Char → Option (List Char)
  | '.' :: rest => some rest
  | '%' :: '2' :: 'e' :: rest => some rest
  | '%' :: '2' :: 'E' :: rest => some rest
  | _ => none

def isSingleDot (segment : List Char) : Bool := dropDot segment = some []

def isDoubleDot (segment : List Char) : Bool := (dropDot segment).bind dropDot = some []

/-- Resolves dots, with the segments so far in reverse.  A path that ends in
dots ends in a slash. -/
def resolve (done : List (List Char)) : List (List Char) → List (List Char)
  | [] => done.reverse
  | segment :: rest =>
    let done' := if isDoubleDot segment then done.tail
      else if isSingleDot segment then done
      else segment :: done
    if rest = [] ∧ (isDoubleDot segment ∨ isSingleDot segment) then ([] :: done').reverse
    else resolve done' rest

def join : List (List Char) → List Char
  | [] => []
  | segment :: rest => '/' :: segment ++ join rest

/-- The path and the query of a text that starts with a slash. -/
def ofText (text : String) : String × Option String :=
  let kept := text.toList.filter fun c => c ≠ '\t' ∧ c ≠ '\n' ∧ c ≠ '\r'
  let located := kept.takeWhile (· ≠ '#')
  let path := join (resolve [] (segments ((located.takeWhile (· ≠ '?')).drop 1)))
  let query := match located.dropWhile (· ≠ '?') with
    | [] => none
    | _ :: query => some (String.ofList (escape isEscaped query))
  (String.ofList (escape isEscapedInPath path), query)

end DevMachine.Text.UrlPath

import DevMachine.Toml.Scalars

/-!
# Reading a document of settings

A document is a sequence of lines: blank ones, comments, key-value pairs and
table headers.  Arrays may run over several lines, inline tables stay on one.
Arrays and inline tables nest at most 79 deep, and a key has at most 79 parts.
-/

namespace DevMachine.Toml

def isBareKeyChar (c : Char) : Bool :=
  ('a' ≤ c && c ≤ 'z') || ('A' ≤ c && c ≤ 'Z') || c.isDigit || c = '-' || c = '_'

def simpleKey : List Char → Option (String × List Char)
  | '"' :: rest => (basicBody rest).map fun (t, r) => (String.ofList t, r)
  | '\'' :: rest => (literalBody rest).map fun (t, r) => (String.ofList t, r)
  | s =>
    match s.takeWhile isBareKeyChar with
    | [] => none
    | name => some (String.ofList name, s.dropWhile isBareKeyChar)

/-- The parts of a key, separated by points.  Each takes at least one
character, so the number of characters left is enough fuel. -/
def keyParts : (fuel : Nat) → List Char → Option (List String × List Char)
  | 0, _ => none
  | fuel + 1, s => do
    let (name, rest) ← simpleKey (skipBlank s)
    match skipBlank rest with
    | '.' :: rest =>
      let (names, rest) ← keyParts fuel rest
      return (name :: names, rest)
    | rest => return ([name], rest)

/-- How many parts a key may have, and how deep values may nest. -/
def maxDepth : Nat := 79

def key (s : List Char) : Option (List String × List Char) := do
  let (names, rest) ← keyParts (s.length + 1) s
  if names.length ≤ maxDepth then return (names, rest) else none

def comment (s : List Char) : List Char :=
  match s with
  | '#' :: rest => rest.dropWhile isPlain
  | s => s

/-- Skips blanks, comments and line ends inside an array. -/
def skipLoose : (fuel : Nat) → List Char → List Char
  | 0, s => s
  | fuel + 1, s =>
    match skipBlank s with
    | '#' :: rest => skipLoose fuel (rest.dropWhile isPlain)
    | s =>
      match newline? s with
      | some rest => skipLoose fuel rest
      | none => s

def loose (s : List Char) : List Char := skipLoose (s.length + 1) s

def plainValue (s : List Char) : Option (Value × List Char) :=
  match s with
  | '"' :: _ => quoted s
  | '\'' :: _ => quoted s
  | 't' :: 'r' :: 'u' :: 'e' :: rest => some (.boolean true, rest)
  | 'f' :: 'a' :: 'l' :: 's' :: 'e' :: rest => some (.boolean false, rest)
  | s => datetime s <|> float s <|> specialFloat s <|> integer s
where
  quoted (s : List Char) : Option (Value × List Char) := (text s).map fun (t, r) => (.string t, r)

/-- The items of an array after its opening bracket.  A comma may follow the
last one. -/
def arrayItems (item : List Char → Option (Value × List Char)) :
    (fuel : Nat) → List Char → Option (List Value × List Char)
  | 0, _ => none
  | fuel + 1, s =>
    match loose s with
    | ']' :: rest => some ([], rest)
    | s => do
      let (v, rest) ← item s
      match loose rest with
      | ']' :: rest => return ([v], rest)
      | ',' :: rest =>
        let (vs, rest) ← arrayItems item fuel rest
        return (v :: vs, rest)
      | _ => none

/-- A key, an equals sign and a value. -/
def pair (item : List Char → Option (Value × List Char)) (s : List Char) :
    Option ((List String × Value) × List Char) := do
  let (names, rest) ← key s
  match rest with
  | '=' :: rest =>
    let (v, rest) ← item (skipBlank rest)
    return ((names, v), rest)
  | _ => none

/-- One or more pairs of an inline table, up to its closing brace. -/
def inlinePairs (item : List Char → Option (Value × List Char)) :
    (fuel : Nat) → List Char → Option (List (List String × Value) × List Char)
  | 0, _ => none
  | fuel + 1, s => do
    let (p, rest) ← pair item s
    match skipBlank rest with
    | '\x7d' :: rest => return ([p], rest)
    | ',' :: rest =>
      let (ps, rest) ← inlinePairs item fuel rest
      return (p :: ps, rest)
    | _ => none

def insertPair (entries : Entries) (p : List String × Value) : Option Entries := do
  let name ← p.1.getLast?
  insertDotted p.1.dropLast name p.2 entries

def inlineTable (item : List Char → Option (Value × List Char)) (s : List Char) :
    Option (Value × List Char) :=
  match skipBlank s with
  | '\x7d' :: rest => some (.table .closed [], rest)
  | s => do
    let (pairs, rest) ← inlinePairs item (s.length + 1) s
    let entries ← pairs.foldlM insertPair []
    return (.table .closed entries, rest)

/-- A value with at most the given number of containers inside one another. -/
def value : (levels : Nat) → List Char → Option (Value × List Char)
  | 0, s => match s with
    | '[' :: _ => none
    | '\x7b' :: _ => none
    | s => plainValue s
  | levels + 1, s => match s with
    | '[' :: rest =>
      (arrayItems (value levels) (rest.length + 1) rest).map fun (vs, r) => (.array vs, r)
    | '\x7b' :: rest => inlineTable (value levels) rest
    | s => plainValue s

/-- The end of a line, after blanks and perhaps a comment. -/
def lineEnd (s : List Char) : Option (List Char) :=
  match comment (skipBlank s) with
  | [] => some []
  | s => newline? s

def headerLine (d : Draft) (s : List Char) : Option (Draft × List Char) :=
  match s with
  | '[' :: rest => do
    let (path, rest) ← key rest
    match rest with
    | ']' :: ']' :: rest => return (← d.arrayHeader path, ← lineEnd rest)
    | _ => none
  | rest => do
    let (path, rest) ← key rest
    match rest with
    | ']' :: rest => return (← d.header path, ← lineEnd rest)
    | _ => none

def pairLine (d : Draft) (s : List Char) : Option (Draft × List Char) := do
  let ((names, v), rest) ← pair (value maxDepth) s
  let name ← names.getLast?
  return (← d.insert names.dropLast name v, ← lineEnd rest)

/-- The lines of a document.  Each takes at least one character, so the number
of characters left is enough fuel. -/
def lines : (fuel : Nat) → Draft → List Char → Option Draft
  | 0, _, _ => none
  | fuel + 1, d, s =>
    match skipBlank s with
    | [] => some d
    | '#' :: rest => do lines fuel d (← lineEnd ('#' :: rest))
    | '[' :: rest => do
      let (d, rest) ← headerLine d rest
      lines fuel d rest
    | s =>
      match newline? s with
      | some rest => lines fuel d rest
      | none => do
        let (d, rest) ← pairLine d s
        lines fuel d rest

/-- The document of a text, which may begin with a byte order mark. -/
def read (document : String) : Option Entries := do
  let s := match document.toList with
    | '\ufeff' :: rest => rest
    | s => s
  let d ← lines (s.length + 1) {} s
  d.close

end DevMachine.Toml

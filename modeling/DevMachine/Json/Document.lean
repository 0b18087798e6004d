import DevMachine.Json.Reader

/-!
# Documents of a known form

A typed document is read piece by piece, each piece by a reader for the value that is
wanted there.  Reading stops at the first fault, and what comes behind it has no say,
so a text can be of the wrong form without being JSON as a whole.

A record is an object with some known fields, or an array of exactly these fields in
their order.  Members of other names are skipped; a skipped value has to be written
like JSON, but its numbers need not fit anything and its escapes need not pair up.
-/

namespace DevMachine.Json

open Text

/-- Why reading stopped. -/
inductive Fault
  | ended
  | malformed
  | mismatched
  deriving DecidableEq, Repr

/-- Takes the characters that are left, and gives what was read and the
characters left after it. -/
abbrev Reader (α : Type) := List Char → Except Fault (α × List Char)

/-- The next character behind blanks. -/
def upcoming (s : List Char) : Except Fault (Char × List Char) :=
  match skipSpace s with
  | [] => .error .ended
  | c :: rest => .ok (c, rest)

/-- Takes the characters of a word. -/
def word : (expected : List Char) → List Char → Except Fault (List Char)
  | [], s => .ok s
  | _ :: _, [] => .error .ended
  | e :: expected, c :: s => if c = e then word expected s else .error .malformed

/-- The characters behind the closing quote of a string. -/
def skipString : List Char → Except Fault (List Char)
  | [] => .error .ended
  | '\\' :: 'u' :: a :: b :: c :: d :: rest =>
    if (quad? a b c d).isSome then skipString rest else .error .malformed
  | '\\' :: 'u' :: _ => .error .ended
  | '\\' :: c :: rest => if (simpleEscape? c).isSome then skipString rest else .error .malformed
  | ['\\'] => .error .ended
  | c :: rest =>
    if c = '"' then .ok rest
    else if c.toNat < 0x20 then .error .malformed
    else skipString rest

/-- A string after its opening quote. -/
def quoted (s : List Char) : Except Fault (String × List Char) :=
  match stringBody s with
  | some (text, rest) => .ok (String.ofList text, rest)
  | none => .error <| match skipString s with
    | .error fault => fault
    | .ok _ => .malformed

/-- One or more entries with commas between them, up to the closing character.
Each entry changes what was gathered before it. -/
def entriesFrom {σ : Type} (entry : σ → Reader σ) (close : Char) : (fuel : Nat) → σ → Reader σ
  | 0, _ => fun _ => .error .malformed
  | fuel + 1, gathered => fun s => do
    let (gathered, s) ← entry gathered s
    let (c, s) ← upcoming s
    if c = ',' then entriesFrom entry close fuel gathered s
    else if c = close then return (gathered, s)
    else throw .malformed

/-- The inside of a container after its opening character. -/
def inside {σ : Type} (entry : σ → Reader σ) (close : Char) (start : σ) : Reader σ := fun s => do
  let (c, rest) ← upcoming s
  if c = close then return (start, rest)
  else entriesFrom entry close (rest.length + 1) start (c :: rest)

/-- A key with its colon. -/
def keyed (s : List Char) : Except Fault (String × List Char) := do
  match ← upcoming s with
  | ('"', s) => quoted s
  | _ => throw .malformed

def colon (s : List Char) : Except Fault (List Char) := do
  match ← upcoming s with
  | (':', s) => return s
  | _ => throw .malformed

/-- A number of any size. -/
def skipNumber (s : List Char) : Except Fault (List Char) :=
  let unsigned := if s.head? = some '-' then s.tail else s
  match numeral false unsigned with
  | some (_, rest) => .ok rest
  | none => .error .malformed

/-- Any value, which is not kept. -/
def skipValue : (fuel : Nat) → List Char → Except Fault (List Char)
  | 0, _ => .error .malformed
  | fuel + 1, s => do
    match ← upcoming s with
    | ('n', rest) => word ['u', 'l', 'l'] rest
    | ('t', rest) => word ['r', 'u', 'e'] rest
    | ('f', rest) => word ['a', 'l', 's', 'e'] rest
    | ('"', rest) => skipString rest
    | ('[', rest) => do
      let ((), rest) ← inside (fun () s => do return ((), ← skipValue fuel s)) ']' () rest
      return rest
    | ('\x7b', rest) => do
      let entry : Unit → Reader Unit := fun () s => do
        match ← upcoming s with
        | ('"', s) => return ((), ← skipValue fuel (← colon (← skipString s)))
        | _ => throw .malformed
      let ((), rest) ← inside entry '\x7d' () rest
      return rest
    | (c, rest) => skipNumber (c :: rest)

/-- The fault of a value that is not of the wanted kind.  A scalar is read
through before its kind counts. -/
def otherKind (s : List Char) : Fault :=
  let scalarFault (r : Except Fault (List Char)) : Fault :=
    match r with
    | .error fault => fault
    | .ok _ => .mismatched
  match skipSpace s with
  | [] => .ended
  | 'n' :: rest => scalarFault (word ['u', 'l', 'l'] rest)
  | 't' :: rest => scalarFault (word ['r', 'u', 'e'] rest)
  | 'f' :: rest => scalarFault (word ['a', 'l', 's', 'e'] rest)
  | '"' :: rest => scalarFault ((quoted rest).map (·.2))
  | '[' :: _ => .mismatched
  | '\x7b' :: _ => .mismatched
  | rest => if (scalar rest).isSome then .mismatched else .malformed

def textValue : Reader Value := fun s =>
  match skipSpace s with
  | '"' :: rest => (quoted rest).map fun (text, rest) => (.string text, rest)
  | rest => .error (otherKind rest)

/-- An integer of 64 bits with a sign. -/
def integerValue : Reader Value := fun s =>
  match scalar (skipSpace s) with
  | some (.number (.whole n), rest) =>
    if n.val < signedLimit then .ok (.number (.whole n), rest) else .error .mismatched
  | _ => .error (otherKind s)

def flagValue : Reader Value := fun s =>
  match scalar (skipSpace s) with
  | some (.bool b, rest) => .ok (.bool b, rest)
  | _ => .error (otherKind s)

/-- A value that may also be `null`. -/
def nullable (reader : Reader Value) : Reader Value := fun s =>
  match skipSpace s with
  | 'n' :: rest => (word ['u', 'l', 'l'] rest).map fun rest => (.null, rest)
  | rest => reader rest

def arrayOf (item : Reader Value) : Reader Value := fun s =>
  match skipSpace s with
  | '[' :: rest => do
    let entry : List Value → Reader (List Value) := fun items s => do
      let (v, s) ← item s
      return (items ++ [v], s)
    let (items, rest) ← inside entry ']' [] rest
    return (.array items, rest)
  | rest => .error (otherKind rest)

/-- An object with any keys, whose values are all of one kind. -/
def mapOf (item : Reader Value) : Reader Value := fun s =>
  match skipSpace s with
  | '\x7b' :: rest => do
    let entry : List Member → Reader (List Member) := fun members s => do
      let (key, s) ← keyed s
      let (v, s) ← item (← colon s)
      return (members ++ [(key, v)], s)
    let (members, rest) ← inside entry '\x7d' [] rest
    return (.ofMembers members, rest)
  | rest => .error (otherKind rest)

/-- One of some names, alone or as the only key of an object with the value
`null`. -/
def nameAmong (names : List String) : Reader Value := fun s => do
  let allowed (name : String) : Except Fault Value :=
    if name ∈ names then .ok (.string name) else .error .mismatched
  match ← upcoming s with
  | ('"', rest) =>
    let (name, rest) ← quoted rest
    return (← allowed name, rest)
  | ('\x7b', rest) =>
    let (name, rest) ← match ← upcoming rest with
      | ('"', rest) => quoted rest
      | (c, rest) => .error (otherKind (c :: rest))
    let v ← allowed name
    let rest ← match skipSpace (← colon rest) with
      | 'n' :: rest => word ['u', 'l', 'l'] rest
      | rest => .error (otherKind rest)
    match ← upcoming rest with
    | ('\x7d', rest) => return (v, rest)
    | _ => throw .malformed
  | _ => throw .malformed

/-- A known field of a record. -/
structure Field where
  name : String
  reader : Reader Value
  required : Bool := false

/-- A field whose value may be `null` or missing. -/
def optionalField (name : String) (reader : Reader Value) : Field :=
  { name, reader := nullable reader }

/-- One member of a record; a known field comes only once. -/
def recordMember (fields : List Field) (seen : List Member) : Reader (List Member) := fun s => do
  let (key, s) ← keyed s
  match fields.find? (·.name = key) with
  | none => return (seen, ← skipValue s.length (← colon s))
  | some field =>
    if (findMember? key seen).isSome then throw .mismatched
    let (v, s) ← field.reader (← colon s)
    return (seen ++ [(key, v)], s)

/-- The fields of a record in their order, after the opening bracket. -/
def fieldsInOrder (first : Bool) : List Field → Reader (List Member)
  | [] => fun s => do
    match ← upcoming s with
    | (']', s) => return ([], s)
    | _ => throw .malformed
  | field :: fields => fun s => do
    let (c, rest) ← upcoming s
    if c = ']' then throw .mismatched
    if !first && c ≠ ',' then throw .malformed
    let (v, s) ← field.reader (if first then c :: rest else rest)
    let (more, s) ← fieldsInOrder false fields s
    return ((field.name, v) :: more, s)

def recordOf (fields : List Field) : Reader Value := fun s =>
  match skipSpace s with
  | '\x7b' :: rest => do
    let (members, rest) ← inside (recordMember fields) '\x7d' [] rest
    if fields.all fun f => !f.required || (findMember? f.name members).isSome then
      return (.ofMembers members, rest)
    else throw .mismatched
  | '[' :: rest => do
    let (members, rest) ← fieldsInOrder true fields rest
    return (.ofMembers members, rest)
  | rest => .error (otherKind rest)

/-- The whole text as one document. -/
def readDocument (reader : Reader Value) (text : String) : Except Fault Value := do
  let (v, rest) ← reader text.toList
  if skipSpace rest = [] then return v else throw .malformed

end DevMachine.Json

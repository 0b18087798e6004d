/-!
# Documents of settings

A document is a table of keys with values.  While it is read, a table
remembers how it came into being, because that decides whether it may still
grow: a table with a header of its own is written once; a table implied by the
header of a deeper one may get its header later; a table made by dotted keys
grows by dotted keys only; an inline table is closed.
-/

namespace DevMachine.Toml

/-- How a table came into being. -/
inductive Form
  | written
  | implied
  | dotted
  | closed
  deriving DecidableEq, Repr

/-- A value of a document.  Of numbers, dates and times only the kind is kept
beyond their validity; `tables` is an array built by double-bracket headers. -/
inductive Value
  | string (s : String)
  | integer (n : Int)
  | float
  | boolean (b : Bool)
  | datetime
  | array (items : List Value)
  | table (form : Form) (entries : List (String × Value))
  | tables (items : List (List (String × Value)))

abbrev Entries := List (String × Value)

instance : Inhabited Value := ⟨.datetime⟩

def lookup? (key : String) (entries : Entries) : Option Value :=
  (List.find? (fun entry => entry.1 = key) entries).map (·.2)

/-- Puts a value in the place of the one a key has, or at the end. -/
def setEntry (key : String) (value : Value) : Entries → Entries
  | [] => [(key, value)]
  | (k, v) :: rest => if k = key then (key, value) :: rest else (k, v) :: setEntry key value rest

def removeEntry (key : String) (entries : Entries) : Entries :=
  entries.filter (·.1 ≠ key)

/-- Adds a key that the table does not have yet. -/
def addEntry? (key : String) (value : Value) (entries : Entries) : Option Entries :=
  match lookup? key entries with
  | some _ => none
  | none => some (entries ++ [(key, value)])

/-- Changes the table at the end of a path.  Tables missing on the way are
made; what stands on the way has to be a table or an array of tables, whose
last table is taken.  By dotted keys only tables without a header of their own
are entered. -/
def alterAt (dotted : Bool) (change : Form → Entries → Option Entries) :
    List String → Form → Entries → Option Entries
  | [], form, entries => change form entries
  | key :: path, _, entries =>
    match lookup? key entries with
    | none =>
      let form := if dotted then .dotted else .implied
      (alterAt dotted change path form []).map fun inner => setEntry key (.table form inner) entries
    | some (.table form inner) =>
      if form = .closed ∨ (dotted ∧ form = .written) then none
      else
        (alterAt dotted change path form inner).map fun inner =>
          setEntry key (.table form inner) entries
    | some (.tables items) =>
      match items.getLast? with
      | none => none
      | some last =>
        (alterAt dotted change path .written last).map fun last =>
          setEntry key (.tables (items.dropLast ++ [last])) entries
    | some _ => none

/-- Adds a value under a dotted key.  A table made by dotted keys takes only
dotted keys, every other table only takes plain ones. -/
def insertDotted (path : List String) (key : String) (value : Value) (entries : Entries) :
    Option Entries :=
  alterAt true (fun form inner =>
    if form = .dotted ∨ path = [] then addEntry? key value inner else none) path .written entries

/-- The finished part of a document, and the table of the last header, which
is put into its place when the next header comes. -/
structure Draft where
  root : Entries := []
  path : List String := []
  inArray : Bool := false
  current : Entries := []

/-- Puts the table of the last header into its place. -/
def Draft.close (d : Draft) : Option Entries :=
  match d.path.getLast? with
  | none => some d.current
  | some key =>
    alterAt false (fun _ inner =>
      if d.inArray then
        match lookup? key inner with
        | some (.tables items) => some (setEntry key (.tables (items ++ [d.current])) inner)
        | _ => none
      else some (setEntry key (.table .written d.current) inner)) d.path.dropLast .written d.root

/-- The entries a header starts with: those of a table that was implied by the
headers of deeper ones.  Any other value in its place refuses the header. -/
def Draft.implied? (inner : Entries) (key : String) : Option Entries :=
  match lookup? key inner with
  | none => some []
  | some (.table .implied entries) => some entries
  | some _ => none

/-- The table that a path leads to. -/
def tableAt? : List String → Entries → Option Entries
  | [], entries => some entries
  | key :: path, entries =>
    match lookup? key entries with
    | none => tableAt? path []
    | some (.table form inner) => if form = .closed then none else tableAt? path inner
    | some (.tables items) => items.getLast?.bind (tableAt? path)
    | some _ => none

/-- A header of a table. -/
def Draft.header (d : Draft) (path : List String) : Option Draft := do
  let root ← d.close
  let key ← path.getLast?
  let parent ← tableAt? path.dropLast root
  let current ← Draft.implied? parent key
  let root ← alterAt false (fun _ inner => some (removeEntry key inner)) path.dropLast .written root
  return { root, path, inArray := false, current }

/-- A header of one more table in an array of tables. -/
def Draft.arrayHeader (d : Draft) (path : List String) : Option Draft := do
  let root ← d.close
  let key ← path.getLast?
  let root ← alterAt false (fun _ inner =>
    match lookup? key inner with
    | none => some (setEntry key (.tables []) inner)
    | some (.tables _) => some inner
    | some _ => none) path.dropLast .written root
  return { root, path, inArray := true, current := [] }

def Draft.insert (d : Draft) (path : List String) (key : String) (value : Value) : Option Draft :=
  (insertDotted path key value d.current).map fun current => { d with current }

end DevMachine.Toml

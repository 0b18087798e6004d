import DevMachine.Toml.Reader

/-!
# Settings

Settings are laid over their defaults field by field.  A section of the
document is a table with the fields by name, or an array with the fields in
their order; whatever else it holds is ignored.  A field that is given has to
be a string.  A date in the place of a section is taken for a section without
known fields.
-/

namespace DevMachine

/-- What the program is set up with. -/
structure Settings where
  dockerHost : Option String := none
  startupCommand : String := "~/start-ext-server.sh"
  devLabel : String := "machine.dev"
  endpoint : Option String := none
  deriving DecidableEq, Repr

namespace Settings

open Toml (Value Entries)

/-- A field that is left out, or given as a string. -/
def field? : Option Value → Option (Option String)
  | none => some none
  | some (.string s) => some (some s)
  | some _ => none

/-- The named fields of a section, each where it is given. -/
def section? (names : List String) : Option Value → Option (List (Option String))
  | none => some (names.map fun _ => none)
  | some (.table _ entries) => names.mapM fun name => field? (Toml.lookup? name entries)
  | some (.array items) => names.zipIdx.mapM fun (_, i) => field? items[i]?
  | some (.tables items) => names.zipIdx.mapM fun (_, i) =>
    field? (items[i]?.map (.table .written))
  | some .datetime => some (names.map fun _ => none)
  | some _ => none

/-- The settings of a document. -/
def ofDocument (document : Entries) : Option Settings := do
  let docker ← section? ["host"] (Toml.lookup? "docker" document)
  let machines ← section? ["startup_command", "dev_label"] (Toml.lookup? "machines" document)
  let events ← section? ["endpoint"] (Toml.lookup? "events" document)
  let defaults : Settings := {}
  return {
    dockerHost := docker[0]?.join
    startupCommand := machines[0]?.join.getD defaults.startupCommand
    devLabel := machines[1]?.join.getD defaults.devLabel
    endpoint := events[0]?.join }

end Settings

end DevMachine

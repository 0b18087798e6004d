/-!
# Machine lifecycle events

The daemon reports what happens to containers; a machine is a container seen
by its name.  An event says which machine it is about, what became of it and
whether its labels mark a development machine.
-/

namespace DevMachine.Machine

inductive EventKind
  | running
  | stopped
  | destroyed
  | other
  deriving DecidableEq, Repr

/-- A lifecycle notification for one machine. -/
structure Event where
  machine : String
  kind : EventKind
  dev : Bool
  container : String
  deriving DecidableEq, Repr

/-- What is known about a machine when it is looked up. -/
structure Info where
  machine : String
  container : String
  dev : Bool
  deriving DecidableEq, Repr

/-- Container labels or event attributes: names with their values, each name
once. -/
abbrev Labels := List (String × String)

/-- The value of a label. -/
def labelValue? (name : String) (labels : Labels) : Option String :=
  (labels.find? fun entry => entry.1 = name).map (·.2)

/-- The letters of a text with ASCII capitals made small. -/
def asciiLower (s : String) : List Char :=
  s.toList.map fun c => if 'A' ≤ c ∧ c ≤ 'Z' then Char.ofNat (c.toNat + 32) else c

/-- A machine is for development when the label says `true` in any case. -/
def isDev (labels : Option Labels) (devLabel : String) : Bool :=
  match labels.bind (labelValue? devLabel) with
  | some value => asciiLower value = ['t', 'r', 'u', 'e']
  | none => false

/-- The kind of event that a daemon action stands for. -/
def EventKind.ofAction (action : String) : EventKind :=
  if action = "start" then .running
  else if action = "die" ∨ action = "stop" ∨ action = "kill" then .stopped
  else if action = "destroy" then .destroyed
  else .other

/-- The container a daemon message is about. -/
structure Actor where
  id : Option String := none
  attributes : Option Labels := none
  deriving DecidableEq, Repr

/-- A message of the daemon's event feed. -/
structure FeedMessage where
  action : Option String := none
  actor : Option Actor := none
  deriving DecidableEq, Repr

/-- The machine event of a daemon message.  A message that names no container
gives none; a container without a name attribute is named by its id. -/
def Event.ofMessage? (devLabel : String) (message : FeedMessage) : Option Event := do
  let actor ← message.actor
  let container ← actor.id
  return {
    machine := (actor.attributes.bind (labelValue? "name")).getD container
    kind := .ofAction (message.action.getD "")
    dev := isDev actor.attributes devLabel
    container }

end DevMachine.Machine

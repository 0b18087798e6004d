/-!
# Arguments of the command line

Options and flags may stand before the command or among its operands, each at
most once in either place.  An option takes its value after an equals sign or
from the next argument, which then must not look like an option.  Two dashes
end the options of a command.  Arguments are read in order, so the first one
that asks for help or the version, or that is wrong, decides.
-/

namespace DevMachine.CommandLine

inductive Command
  | exec (container command : String) (detach : Bool)
  | alive (container pidFile : String)
  | kill (container pidFile : String)
  | launcher
  | logs (channel : String) (endpoint : Option String)
  deriving DecidableEq, Repr

/-- What every command is given: another settings file, and whether the log
goes to the error output. -/
structure Common where
  config : Option String := none
  stderr : Bool := false
  deriving DecidableEq, Repr

/-- The commands by name. -/
inductive Verb
  | exec
  | alive
  | kill
  | launcher
  | logs
  deriving DecidableEq, Repr

/-- What the arguments ask for. -/
inductive Parsed
  | run (common : Common) (command : Command)
  | help (verb : Option Verb)
  | version
  | misuse
  deriving DecidableEq, Repr

def Verb.all : List Verb := [.exec, .alive, .kill, .launcher, .logs]

def Verb.name : Verb → String
  | .exec => "exec"
  | .alive => "alive"
  | .kill => "kill"
  | .launcher => "launcher"
  | .logs => "logs"

def Verb.ofName? (name : String) : Option Verb := Verb.all.find? (·.name = name)

def Verb.operandCount : Verb → Nat
  | .exec | .alive | .kill => 2
  | .logs => 1
  | .launcher => 0

/-- One argument by its looks. -/
inductive Argument
  | separator
  | long (name : String) (value : Option String)
  | short (letters : List Char)
  | plain (text : String)
  deriving DecidableEq, Repr

/-- A long option with the value behind its equals sign. -/
def longArgument (s : List Char) : Argument :=
  match s.dropWhile (· ≠ '=') with
  | [] => .long (String.ofList s) none
  | _ :: value => .long (String.ofList (s.takeWhile (· ≠ '='))) (some (String.ofList value))

def Argument.ofText (text : String) : Argument :=
  match text.toList with
  | ['-', '-'] => .separator
  | '-' :: '-' :: rest => longArgument rest
  | '-' :: c :: rest => .short (c :: rest)
  | _ => .plain text

/-- What was read of a command so far. -/
structure Progress where
  common : Common := {}
  detach : Bool := false
  endpoint : Option String := none
  operands : List String := []

/-- The value of an option: the one behind its equals sign, or the next
argument. -/
def optionValue (value : Option String) (rest : List String) : Option (String × List String) :=
  match value, rest with
  | some v, rest => some (v, rest)
  | none, next :: rest =>
    match Argument.ofText next with
    | .plain v => some (v, rest)
    | _ => none
  | none, [] => none

/-- A settings file needs a name. -/
def configValue (value : Option String) (rest : List String) : Option (String × List String) :=
  (optionValue value rest).filter (·.1 ≠ "")

/-- The command that the operands and options amount to. -/
def Verb.command? (verb : Verb) (p : Progress) : Option Command :=
  match verb, p.operands with
  | .exec, [container, command] => some (.exec container command p.detach)
  | .alive, [container, pidFile] => some (.alive container pidFile)
  | .kill, [container, pidFile] => some (.kill container pidFile)
  | .launcher, [] => some .launcher
  | .logs, [channel] => some (.logs channel p.endpoint)
  | _, _ => none

/-- What was given before the command is taken over where the command itself
gives nothing. -/
def Common.over (inner outer : Common) : Common :=
  { config := inner.config.or outer.config, stderr := inner.stderr || outer.stderr }

def finish (verb : Verb) (outer : Common) (p : Progress) : Parsed :=
  match verb.command? p with
  | some command => .run (p.common.over outer) command
  | none => .misuse

theorem optionValue_length_le {value : Option String} {rest : List String}
    {v : String} {left : List String} (h : optionValue value rest = some (v, left)) :
    left.length ≤ rest.length := by
  unfold optionValue at h
  split at h
  · cases h; exact Nat.le_refl _
  · split at h
    · cases h; exact Nat.le_succ _
    · cases h
  · cases h

theorem configValue_length_le {value : Option String} {rest : List String}
    {v : String} {left : List String} (h : configValue value rest = some (v, left)) :
    left.length ≤ rest.length :=
  optionValue_length_le (Option.filter_eq_some_iff.1 h).1

/-- Reads the arguments behind the name of a command. -/
def readOperands (verb : Verb) (outer : Common) (p : Progress) : List String → Parsed
  | [] => finish verb outer p
  | arg :: rest =>
    match Argument.ofText arg with
    | .separator => finish verb outer { p with operands := p.operands ++ rest }
    | .plain text =>
      if p.operands.length < verb.operandCount then
        readOperands verb outer { p with operands := p.operands ++ [text] } rest
      else .misuse
    | .short ('h' :: _) => .help (some verb)
    | .short _ => .misuse
    | .long name value =>
      if name = "help" ∧ value = none then .help (some verb)
      else if name = "stderr" ∧ value = none ∧ !p.common.stderr then
        readOperands verb outer { p with common := { p.common with stderr := true } } rest
      else if name = "detach" ∧ value = none ∧ verb = .exec ∧ !p.detach then
        readOperands verb outer { p with detach := true } rest
      else if name = "config" ∧ p.common.config = none then
        match h : configValue value rest with
        | some (v, left) =>
          have := configValue_length_le h
          readOperands verb outer { p with common := { p.common with config := some v } } left
        | none => .misuse
      else if name = "endpoint" ∧ verb = .logs ∧ p.endpoint = none then
        match h : optionValue value rest with
        | some (v, left) =>
          have := optionValue_length_le h
          readOperands verb outer { p with endpoint := some v } left
        | none => .misuse
      else .misuse
termination_by args => args.length

/-- Reads the name of the command whose help is asked for. -/
def readHelp : List String → Parsed
  | [] => .help none
  | [name] =>
    if name = "help" then .help none
    else
      match Verb.ofName? name with
      | some verb => .help (some verb)
      | none => .misuse
  | _ => .misuse

/-- Reads the arguments up to the name of the command. -/
def readArguments (common : Common) : List String → Parsed
  | [] => .misuse
  | arg :: rest =>
    match Argument.ofText arg with
    | .separator => .misuse
    | .plain name =>
      if name = "help" then readHelp rest
      else
        match Verb.ofName? name with
        | some verb => readOperands verb common {} rest
        | none => .misuse
    | .short ('h' :: _) => .help none
    | .short ('V' :: _) => .version
    | .short _ => .misuse
    | .long name value =>
      if name = "help" ∧ value = none then .help none
      else if name = "version" ∧ value = none then .version
      else if name = "stderr" ∧ value = none ∧ !common.stderr then
        readArguments { common with stderr := true } rest
      else if name = "config" ∧ common.config = none then
        match h : configValue value rest with
        | some (v, left) =>
          have := configValue_length_le h
          readArguments { common with config := some v } left
        | none => .misuse
      else .misuse
termination_by args => args.length

def Parsed.ofArguments (args : List String) : Parsed := readArguments {} args

end DevMachine.CommandLine

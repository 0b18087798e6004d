import DevMachine.Proofs.Toml.DistinctKeys
import DevMachine.Settings.File

/-!
# Settings over their defaults

What a document says about a field is told here without the look-ups: by its name
in a table, by its place in an array.  The known fields decide whether there are
settings at all, and each of them decides about its own value and no other.
-/

namespace DevMachine.Settings

open Text (Octets)
open Toml (Entries Form TidyEntries Value lookup? lookup?_eq_some_iff mem_of_lookup?
  tidy_table_iff tidyEntries_of_read)

inductive Field
  | dockerHost
  | startupCommand
  | devLabel
  | endpoint
  deriving DecidableEq, Repr

/-- The section that a field stands in. -/
def Field.sectionName : Field → String
  | dockerHost => "docker"
  | startupCommand => "machines"
  | devLabel => "machines"
  | endpoint => "events"

def Field.name : Field → String
  | dockerHost => "host"
  | startupCommand => "startup_command"
  | devLabel => "dev_label"
  | endpoint => "endpoint"

/-- The place of a field in a section that is an array. -/
def Field.place : Field → Nat
  | devLabel => 1
  | _ => 0

/-- What holds where a field is not given. -/
def Field.default : Field → Option String
  | dockerHost => none
  | startupCommand => some "~/start-ext-server.sh"
  | devLabel => some "machine.dev"
  | endpoint => none

def get (settings : Settings) : Field → Option String
  | .dockerHost => settings.dockerHost
  | .startupCommand => some settings.startupCommand
  | .devLabel => some settings.devLabel
  | .endpoint => settings.endpoint

/-- A section gives a value for a field. -/
inductive FieldGiven (f : Field) (v : Value) : Value → Prop
  | byName {form : Form} {entries : Entries} (h : (f.name, v) ∈ entries) :
    FieldGiven f v (.table form entries)
  | byPlace {items : List Value} (h : items[f.place]? = some v) : FieldGiven f v (.array items)
  | byHeader {items : List Entries} {entries : Entries} (h : items[f.place]? = some entries)
    (hv : v = .table .written entries) : FieldGiven f v (.tables items)

def Gives (document : Entries) (f : Field) (v : Value) : Prop :=
  ∃ given, (f.sectionName, given) ∈ document ∧ FieldGiven f v given

inductive TableOrArray : Value → Prop
  | table (form : Form) (entries : Entries) : TableOrArray (.table form entries)
  | array (items : List Value) : TableOrArray (.array items)
  | tables (items : List Entries) : TableOrArray (.tables items)

/-- A date or a time is taken for a section that gives nothing. -/
def IsSection (v : Value) : Prop := TableOrArray v ∨ v = .datetime

/-- The sections are of a kind, and the known fields in them are strings. -/
structure Fits (kind : Value → Prop) (document : Entries) : Prop where
  sections : ∀ (f : Field) (v : Value), (f.sectionName, v) ∈ document → kind v
  strings : ∀ (f : Field) (v : Value), Gives document f v → ∃ s, v = .string s

/-- Every field has the value given, or its own default where none is given. -/
structure Overlays (document : Entries) (settings : Settings) : Prop where
  given : ∀ (f : Field) (s : String), Gives document f (.string s) → settings.get f = some s
  missing : ∀ f : Field, (∀ v, ¬Gives document f v) → settings.get f = f.default

/-- Two documents give the same values for a field. -/
def AgreeOn (f : Field) (document document' : Entries) : Prop :=
  ∀ v, Gives document f v ↔ Gives document' f v

variable {document : Entries} {settings : Settings} {f : Field} {v : Value}

/-- The field of a section by its name or its place. -/
def fieldAt? (name : String) (place : Nat) : Option Value → Option Value
  | some (.table _ entries) => lookup? name entries
  | some (.array items) => items[place]?
  | some (.tables items) => items[place]?.map (.table .written)
  | _ => none

theorem mapM_eq_mapM_zipIdx {α β : Type} (g : α → Option β) (xs : List α) :
    xs.mapM g = xs.zipIdx.mapM fun x => g x.1 := by
  have hfst : xs = xs.zipIdx.map (·.1) := List.zipIdx_map_fst 0 xs |>.symm
  conv_lhs => rw [hfst]
  rw [List.mapM_map]
  rfl

theorem section?_eq {given : Option Value} (h : ∀ v ∈ given, IsSection v)
    (names : List String) : section? names given =
      names.zipIdx.mapM fun x => field? (fieldAt? x.1 x.2 given) := by
  have hnone : names.mapM (fun _ => field? none) = some (names.map fun _ => none) :=
    List.mapM_pure
  -- without a section, and in a date, nothing is found at any place
  cases given with
  | none =>
      rw [section?, ← hnone, mapM_eq_mapM_zipIdx]
      rfl
  | some v =>
      rcases h v rfl with hv | rfl
      · cases hv with
        | table form entries =>
            rw [section?, mapM_eq_mapM_zipIdx]
            rfl
        | array items => rfl
        | tables items => rfl
      · rw [section?, ← hnone, mapM_eq_mapM_zipIdx]
        rfl

theorem isSection_of_section? {names : List String} {given : Option Value}
    {fields : List (Option String)} (h : section? names given = some fields) :
    ∀ v ∈ given, IsSection v := by
  rintro v rfl
  cases v with
  | table form entries => exact .inl (.table form entries)
  | array items => exact .inl (.array items)
  | tables items => exact .inl (.tables items)
  | datetime => exact .inr rfl
  | _ => cases h

theorem oneField_section? {given : Option Value} (h : ∀ v ∈ given, IsSection v)
    (name : String) : section? [name] given =
      (field? (fieldAt? name 0 given)).map fun a => [a] := by
  rw [section?_eq h]
  cases hfield : field? (fieldAt? name 0 given) <;> simp [hfield]

theorem twoFields_section? {given : Option Value} (h : ∀ v ∈ given, IsSection v)
    (first second : String) : section? [first, second] given =
      (field? (fieldAt? first 0 given)).bind fun a =>
        (field? (fieldAt? second 1 given)).map fun b => [a, b] := by
  rw [section?_eq h]
  cases hfirst : field? (fieldAt? first 0 given) <;>
    cases hsecond : field? (fieldAt? second 1 given) <;> simp [hfirst, hsecond]

theorem field?_eq_some_iff {given : Option Value} {a : Option String} :
    field? given = some a ↔ given = a.map .string := by
  constructor
  · intro h
    unfold field? at h
    split at h <;> cases h <;> rfl
  · rintro rfl
    cases a <;> rfl

/-! ## Settings of a document -/

/-- What a document holds where a field belongs. -/
def Field.at? (f : Field) (document : Entries) : Option Value :=
  fieldAt? f.name f.place (lookup? f.sectionName document)

/-- The settings with the given strings over the defaults. -/
def ofGiven (given : Field → Option String) : Settings where
  dockerHost := given .dockerHost
  startupCommand := (given .startupCommand).getD "~/start-ext-server.sh"
  devLabel := (given .devLabel).getD "machine.dev"
  endpoint := given .endpoint

theorem get_ofGiven (given : Field → Option String) (f : Field) :
    (ofGiven given).get f = (given f).or f.default := by
  cases f with
  | dockerHost => exact (Option.or_none).symm
  | startupCommand => cases h : given .startupCommand <;> simp [get, ofGiven, Field.default, h]
  | devLabel => cases h : given .devLabel <;> simp [get, ofGiven, Field.default, h]
  | endpoint => exact (Option.or_none).symm

theorem isSection_of_ofDocument (h : ofDocument document = some settings) (f : Field) :
    ∀ v ∈ lookup? f.sectionName document, IsSection v := by
  simp only [ofDocument, Option.bind_eq_bind, Option.bind_eq_some_iff] at h
  obtain ⟨docker, hdocker, machines, hmachines, events, hevents, -⟩ := h
  cases f with
  | dockerHost => exact isSection_of_section? hdocker
  | startupCommand => exact isSection_of_section? hmachines
  | devLabel => exact isSection_of_section? hmachines
  | endpoint => exact isSection_of_section? hevents

theorem ofDocument_eq (h : ∀ f : Field, ∀ v ∈ lookup? f.sectionName document, IsSection v) :
    ofDocument document =
      (field? (Field.dockerHost.at? document)).bind fun dockerHost =>
        (field? (Field.startupCommand.at? document)).bind fun command =>
          (field? (Field.devLabel.at? document)).bind fun label =>
            (field? (Field.endpoint.at? document)).map fun endpoint =>
              { dockerHost
                startupCommand := command.getD "~/start-ext-server.sh"
                devLabel := label.getD "machine.dev"
                endpoint } := by
  have hdocker : section? ["host"] (lookup? "docker" document) =
      (field? (Field.dockerHost.at? document)).map fun a => [a] :=
    oneField_section? (h .dockerHost) "host"
  have hmachines : section? ["startup_command", "dev_label"] (lookup? "machines" document) =
      (field? (Field.startupCommand.at? document)).bind fun a =>
        (field? (Field.devLabel.at? document)).map fun b => [a, b] :=
    twoFields_section? (h .startupCommand) "startup_command" "dev_label"
  have hevents : section? ["endpoint"] (lookup? "events" document) =
      (field? (Field.endpoint.at? document)).map fun a => [a] :=
    oneField_section? (h .endpoint) "endpoint"
  rw [ofDocument, hdocker, hmachines, hevents]
  cases field? (Field.dockerHost.at? document) with
  | none => rfl
  | some host =>
      cases field? (Field.startupCommand.at? document) with
      | none => rfl
      | some command =>
          cases field? (Field.devLabel.at? document) with
          | none => rfl
          | some label => cases field? (Field.endpoint.at? document) <;> rfl

/-- Settings are laid over the defaults where all that is looked up is missing or a
string. -/
theorem ofDocument_eq_some_iff :
    ofDocument document = some settings ↔
      (∀ f : Field, ∀ v ∈ lookup? f.sectionName document, IsSection v) ∧
        ∃ given : Field → Option String,
          (∀ f, f.at? document = (given f).map .string) ∧ settings = ofGiven given := by
  constructor
  · intro h
    have hsection := isSection_of_ofDocument h
    rw [ofDocument_eq hsection] at h
    simp only [Option.bind_eq_some_iff, Option.map_eq_some_iff, field?_eq_some_iff] at h
    obtain ⟨host, hhost, command, hcommand, label, hlabel, endpoint, hendpoint, rfl⟩ := h
    let given : Field → Option String
      | .dockerHost => host
      | .startupCommand => command
      | .devLabel => label
      | .endpoint => endpoint
    refine ⟨hsection, given, fun f => ?_, rfl⟩
    cases f with
    | dockerHost => exact hhost
    | startupCommand => exact hcommand
    | devLabel => exact hlabel
    | endpoint => exact hendpoint
  · rintro ⟨hsection, given, hgiven, rfl⟩
    have hfield (f : Field) : field? (f.at? document) = some (given f) :=
      field?_eq_some_iff.mpr (hgiven f)
    rw [ofDocument_eq hsection, hfield, hfield, hfield, hfield]
    rfl

theorem at?_eq_some_iff (h : TidyEntries document) :
    f.at? document = some v ↔ Gives document f v := by
  constructor
  · intro hv
    unfold Field.at? at hv
    cases hlookup : lookup? f.sectionName document with
    | none => simp [hlookup, fieldAt?] at hv
    | some given =>
        refine ⟨given, mem_of_lookup? hlookup, ?_⟩
        rw [hlookup] at hv
        cases given with
        | table form entries => exact .byName (mem_of_lookup? hv)
        | array items => exact .byPlace hv
        | tables items =>
            obtain ⟨entries, hentries, rfl⟩ := Option.map_eq_some_iff.mp hv
            exact .byHeader hentries rfl
        | _ => cases hv
  · rintro ⟨given, hmem, hfield⟩
    rw [Field.at?, (lookup?_eq_some_iff h.keys).mpr hmem]
    cases hfield with
    | byName hname =>
        have htable := tidy_table_iff.mp (h.inside _ hmem)
        exact (lookup?_eq_some_iff htable.keys).mpr hname
    | byPlace hplace => exact hplace
    | byHeader hplace hv =>
        rw [fieldAt?, hplace, hv]
        rfl

/-- A field depends on what is given for it, and on nothing else. -/
theorem Overlays.get_eq {document' : Entries} {settings' : Settings} {kind : Value → Prop}
    (hfits : Fits kind document) (h : Overlays document settings)
    (h' : Overlays document' settings') (hagree : AgreeOn f document document') :
    settings.get f = settings'.get f := by
  by_cases hgiven : ∃ v, Gives document f v
  · obtain ⟨v, hv⟩ := hgiven
    obtain ⟨s, rfl⟩ := hfits.strings f v hv
    rw [h.given f s hv, h'.given f s ((hagree _).mp hv)]
  · have hnone : ∀ v, ¬Gives document f v := fun v hv => hgiven ⟨v, hv⟩
    rw [h.missing f hnone, h'.missing f fun v hv => hnone v ((hagree v).mpr hv)]

theorem ext_get {settings' : Settings} (h : ∀ f, settings.get f = settings'.get f) :
    settings = settings' := by
  obtain ⟨host, command, label, endpoint⟩ := settings
  obtain ⟨host', command', label', endpoint'⟩ := settings'
  obtain rfl : host = host' := h .dockerHost
  obtain rfl : command = command' := Option.some.inj (h .startupCommand)
  obtain rfl : label = label' := Option.some.inj (h .devLabel)
  obtain rfl : endpoint = endpoint' := h .endpoint
  rfl

section Given

variable {given : Field → Option String}

theorem exists_given_of_fits {kind : Value → Prop} (h : TidyEntries document)
    (hfits : Fits kind document) :
    ∃ given : Field → Option String, ∀ f, f.at? document = (given f).map .string := by
  have hfield (f : Field) : ∃ a : Option String, f.at? document = a.map .string := by
    cases hat : f.at? document with
    | none => exact ⟨none, rfl⟩
    | some v =>
        obtain ⟨s, rfl⟩ := hfits.strings f v ((at?_eq_some_iff h).mp hat)
        exact ⟨some s, rfl⟩
  choose given hgiven using hfield
  exact ⟨given, hgiven⟩

theorem gives_iff_of_given (h : TidyEntries document)
    (hgiven : ∀ f, f.at? document = (given f).map .string) :
    Gives document f v ↔ ∃ s, given f = some s ∧ v = .string s := by
  rw [← at?_eq_some_iff h, hgiven f, Option.map_eq_some_iff]
  simp only [eq_comm]

theorem overlays_ofGiven (h : TidyEntries document)
    (hgiven : ∀ f, f.at? document = (given f).map .string) :
    Overlays document (ofGiven given) where
  given := by
    intro f s hs
    obtain ⟨s', hs', heq⟩ := (gives_iff_of_given h hgiven).mp hs
    cases heq
    rw [get_ofGiven, hs', Option.some_or]
  missing := by
    intro f hf
    have hnone : given f = none := by
      cases hs : given f with
      | none => rfl
      | some s => exact absurd ((gives_iff_of_given h hgiven).mpr ⟨s, hs, rfl⟩) (hf _)
    rw [get_ofGiven, hnone, Option.none_or]

end Given

/-- A document makes settings exactly where it fits, and then it is laid over the
defaults. -/
theorem ofDocument_eq_some_iff_overlays (h : TidyEntries document) :
    ofDocument document = some settings ↔
      Fits IsSection document ∧ Overlays document settings := by
  rw [ofDocument_eq_some_iff]
  constructor
  · rintro ⟨hsection, given, hgiven, rfl⟩
    refine ⟨⟨fun f v hv => ?_, fun f v hv => ?_⟩, overlays_ofGiven h hgiven⟩
    · exact hsection f v ((lookup?_eq_some_iff h.keys).mpr hv)
    · obtain ⟨s, -, rfl⟩ := (gives_iff_of_given h hgiven).mp hv
      exact ⟨s, rfl⟩
  · rintro ⟨hfits, hoverlays⟩
    obtain ⟨given, hgiven⟩ := exists_given_of_fits h hfits
    refine ⟨fun f v hv => hfits.sections f v (mem_of_lookup? hv), given, hgiven, ?_⟩
    exact ext_get fun f =>
      hoverlays.get_eq hfits (overlays_ofGiven h hgiven) fun v => Iff.rfl

theorem exists_ofDocument_iff (h : TidyEntries document) :
    (∃ settings, ofDocument document = some settings) ↔ Fits IsSection document := by
  constructor
  · rintro ⟨settings, hsettings⟩
    exact ((ofDocument_eq_some_iff_overlays h).mp hsettings).1
  · intro hfits
    obtain ⟨given, hgiven⟩ := exists_given_of_fits h hfits
    exact ⟨_, (ofDocument_eq_some_iff_overlays h).mpr ⟨hfits, overlays_ofGiven h hgiven⟩⟩

/-! ## Loading a file -/

variable {contents : Octets} {text : String}

theorem load_of_read (htext : Text.Utf8.decode? contents = some text)
    (hread : Toml.read text = some document) :
    load (.file contents) = (ofDocument document).elim (.error .malformed) .ok := by
  simp only [load, htext, ofText, hread, Option.bind_some]
  cases ofDocument document <;> rfl

theorem load_eq_ok_iff (htext : Text.Utf8.decode? contents = some text)
    (hread : Toml.read text = some document) :
    load (.file contents) = .ok settings ↔
      Fits IsSection document ∧ Overlays document settings := by
  rw [← ofDocument_eq_some_iff_overlays (tidyEntries_of_read hread), load_of_read htext hread]
  cases ofDocument document <;> simp

/-- A document is laid over the defaults field by field, each field by what is
given for it alone.  Where a section is of another kind, or a known field no
string, there are no settings at all. -/
theorem load_overlays_known_fields (contents : Octets) (text : String) (document : Entries)
    (htext : Text.Utf8.decode? contents = some text) (hread : Toml.read text = some document) :
    ((∃ settings, load (.file contents) = .ok settings) ↔ Fits IsSection document) ∧
      (¬Fits IsSection document → load (.file contents) = .error .malformed) ∧
      ∀ settings, load (.file contents) = .ok settings →
        Overlays document settings ∧
          ∀ contents' text' document' settings', Text.Utf8.decode? contents' = some text' →
            Toml.read text' = some document' → load (.file contents') = .ok settings' →
            ∀ f, AgreeOn f document document' → settings.get f = settings'.get f := by
  have hexists := exists_ofDocument_iff (tidyEntries_of_read hread)
  refine ⟨?_, fun hnot => ?_, fun settings hload => ?_⟩
  · rw [← hexists, load_of_read htext hread]
    cases ofDocument document <;> simp
  · have hnone : ofDocument document = none := by
      rw [Option.eq_none_iff_forall_ne_some]
      exact fun settings hsettings => hnot (hexists.mp ⟨settings, hsettings⟩)
    rw [load_of_read htext hread, hnone, Option.elim_none]
  · obtain ⟨hfits, hoverlays⟩ := (load_eq_ok_iff htext hread).mp hload
    refine ⟨hoverlays, ?_⟩
    intro contents' text' document' settings' htext' hread' hload' f hagree
    exact hoverlays.get_eq hfits ((load_eq_ok_iff htext' hread').mp hload').2 hagree

/-- A date for a section is no table and no array, and still there are settings. -/
theorem date_for_section_not_refused :
    ¬∀ contents text document, Text.Utf8.decode? contents = some text →
      Toml.read text = some document →
        ((∃ settings, load (.file contents) = .ok settings) ↔ Fits TableOrArray document) := by
  intro h
  have htext : Text.Utf8.decode? (Text.Utf8.encode "docker = 1979-05-27") =
      some "docker = 1979-05-27" := by decide +kernel
  have hread : Toml.read "docker = 1979-05-27" = some [("docker", .datetime)] := by rfl
  have hload : load (.file (Text.Utf8.encode "docker = 1979-05-27")) = .ok {} := by
    rw [load_of_read htext hread]
    rfl
  have hfits := (h _ _ _ htext hread).mp ⟨_, hload⟩
  cases hfits.sections .dockerHost .datetime List.mem_cons_self

/-- Neither an unknown key nor another section makes a difference, and a number for
a known field leaves nothing of a document. -/
theorem load_overlays_known_fields_past_unknown_keys :
    let text := "machines = ['run']\n[docker]\nport = 1\nhost = 'unix:///d'"
    let refused := "docker.host = 'unix:///d'\nevents.endpoint = 1"
    let settings : Settings := { dockerHost := some "unix:///d", startupCommand := "run" }
    (∃ document, Toml.read text = some document ∧ Fits IsSection document ∧
      Overlays document settings) ∧
      load (.file (Text.Utf8.encode refused)) = .error .malformed := by
  intro text refused settings
  let docker : Entries := [("port", .integer 1), ("host", .string "unix:///d")]
  let document : Entries :=
    [("machines", .array [.string "run"]), ("docker", .table .written docker)]
  let other : Entries := [("docker", .table .dotted [("host", .string "unix:///d")]),
    ("events", .table .dotted [("endpoint", .integer 1)])]
  have htext : Text.Utf8.decode? (Text.Utf8.encode text) = some text := by decide +kernel
  have hrefused : Text.Utf8.decode? (Text.Utf8.encode refused) = some refused := by decide +kernel
  have hread : Toml.read text = some document := by
    simp only [text, document, docker]
    rfl
  have hother : Toml.read refused = some other := by
    simp only [refused, other]
    rfl
  have hload : load (.file (Text.Utf8.encode text)) = .ok settings := by
    rw [load_of_read htext hread]
    rfl
  obtain ⟨hiff, -, hoverlays⟩ := load_overlays_known_fields _ _ _ htext hread
  have hnot : ¬Fits IsSection other := by
    intro hfits
    have hgives : Gives other .endpoint (.integer 1) :=
      ⟨_, List.mem_cons_of_mem _ List.mem_cons_self, .byName List.mem_cons_self⟩
    obtain ⟨s, hs⟩ := hfits.strings _ _ hgives
    cases hs
  exact ⟨⟨document, hread, hiff.mp ⟨_, hload⟩, (hoverlays settings hload).1⟩,
    (load_overlays_known_fields _ _ _ hrefused hother).2.1 hnot⟩

end DevMachine.Settings

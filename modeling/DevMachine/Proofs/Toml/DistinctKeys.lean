import DevMachine.Toml.Reader
import Mathlib.Data.List.Nodup

/-!
# Distinct keys

In a document that has been read, and in every table inside it, each key stands
once.  A table grows only by keys that it does not have; what a header takes out
of its place is put back when the next header comes.
-/

namespace DevMachine.Toml

variable {key : String} {v : Value} {entries entries' : Entries}

def OncePerKey (entries : Entries) : Prop := (entries.map (·.1)).Nodup

theorem mem_of_lookup? (h : lookup? key entries = some v) : (key, v) ∈ entries := by
  obtain ⟨⟨k, u⟩, hfind, rfl⟩ := Option.map_eq_some_iff.mp h
  obtain rfl : k = key := by simpa using List.find?_some hfind
  exact List.mem_of_find?_eq_some hfind

theorem lookup?_eq_none_iff : lookup? key entries = none ↔ key ∉ entries.map (·.1) := by
  simp only [lookup?, Option.map_eq_none_iff, List.find?_eq_none, decide_eq_true_eq, List.mem_map,
    not_exists, not_and]

/-- Where each key stands once, what is found under a key is what stands there. -/
theorem lookup?_eq_some_iff (hkeys : OncePerKey entries) :
    lookup? key entries = some v ↔ (key, v) ∈ entries := by
  refine ⟨mem_of_lookup?, fun hv => ?_⟩
  cases hlookup : lookup? key entries with
  | none => exact absurd (List.mem_map_of_mem hv) (lookup?_eq_none_iff.mp hlookup)
  | some u =>
      have hsame : (key, u) = (key, v) :=
        List.inj_on_of_nodup_map hkeys (mem_of_lookup? hlookup) hv rfl
      cases hsame
      rfl

theorem map_fst_setEntry (key : String) (v : Value) (entries : Entries) :
    (setEntry key v entries).map (·.1) =
      if key ∈ entries.map (·.1) then entries.map (·.1) else entries.map (·.1) ++ [key] := by
  induction entries with
  | nil => rfl
  | cons e entries ih =>
      obtain ⟨k, u⟩ := e
      rw [setEntry]
      by_cases hk : k = key
      · simp [hk]
      · have hkey : key ≠ k := fun h => hk h.symm
        rw [if_neg hk, List.map_cons, ih]
        by_cases hmem : key ∈ entries.map (·.1) <;> simp [hkey, hmem]

theorem mem_setEntry {e : String × Value} (he : e ∈ setEntry key v entries) :
    e = (key, v) ∨ e ∈ entries := by
  induction entries with
  | nil => exact .inl (List.mem_singleton.mp he)
  | cons first entries ih =>
      obtain ⟨k, u⟩ := first
      rw [setEntry] at he
      split at he
      · exact (List.mem_cons.mp he).imp_right (List.mem_cons_of_mem _)
      · rcases List.mem_cons.mp he with rfl | he
        · exact .inr List.mem_cons_self
        · exact (ih he).imp_right (List.mem_cons_of_mem _)

/-- A value that holds no other values. -/
def Value.Plain : Value → Prop
  | .array _ => False
  | .table _ _ => False
  | .tables _ => False
  | _ => True

/-- In every table inside the value each key stands once. -/
inductive Value.Tidy : Value → Prop
  | plain {v : Value} (h : v.Plain) : Tidy v
  | array {items : List Value} (hinside : ∀ v ∈ items, Tidy v) : Tidy (.array items)
  | table {form : Form} {entries : Entries} (hkeys : OncePerKey entries)
    (hinside : ∀ e ∈ entries, Tidy e.2) : Tidy (.table form entries)
  | tables {items : List Entries} (hkeys : ∀ entries ∈ items, OncePerKey entries)
    (hinside : ∀ entries ∈ items, ∀ e ∈ entries, Tidy e.2) : Tidy (.tables items)

structure TidyEntries (entries : Entries) : Prop where
  keys : OncePerKey entries
  inside : ∀ e ∈ entries, e.2.Tidy

theorem tidyEntries_nil : TidyEntries [] := ⟨List.nodup_nil, fun _ he => nomatch he⟩

theorem tidy_table_iff {form : Form} : (Value.table form entries).Tidy ↔ TidyEntries entries := by
  constructor
  · intro h
    cases h with
    | plain hplain => cases hplain
    | table hkeys hinside => exact ⟨hkeys, hinside⟩
  · rintro ⟨hkeys, hinside⟩
    exact .table hkeys hinside

theorem tidy_tables_iff {items : List Entries} :
    (Value.tables items).Tidy ↔ ∀ entries ∈ items, TidyEntries entries := by
  constructor
  · intro h entries hentries
    cases h with
    | plain hplain => cases hplain
    | tables hkeys hinside => exact ⟨hkeys entries hentries, hinside entries hentries⟩
  · exact fun h => .tables (fun _ he => (h _ he).keys) fun _ he => (h _ he).inside

theorem tidy_tables_append_singleton {items : List Entries} {last : Entries}
    (hitems : ∀ entries ∈ items, TidyEntries entries) (hlast : TidyEntries last) :
    (Value.tables (items ++ [last])).Tidy := by
  rw [tidy_tables_iff, List.forall_mem_append]
  exact ⟨hitems, List.forall_mem_singleton.mpr hlast⟩

namespace TidyEntries

theorem lookup? (h : TidyEntries entries) (hv : Toml.lookup? key entries = some v) : v.Tidy :=
  h.inside _ (mem_of_lookup? hv)

theorem setEntry (h : TidyEntries entries) (hv : v.Tidy) :
    TidyEntries (setEntry key v entries) where
  keys := by
    unfold OncePerKey
    rw [map_fst_setEntry]
    split
    next => exact h.keys
    next hkey => exact List.concat_eq_append ▸ List.Nodup.concat hkey h.keys
  inside := by
    intro e he
    rcases mem_setEntry he with rfl | he
    · exact hv
    · exact h.inside e he

theorem removeEntry (h : TidyEntries entries) (key : String) :
    TidyEntries (removeEntry key entries) where
  keys := h.keys.sublist (List.filter_sublist.map _)
  inside := fun e he => h.inside e (List.mem_of_mem_filter he)

theorem addEntry? (h : TidyEntries entries) (hv : v.Tidy)
    (hadd : addEntry? key v entries = some entries') : TidyEntries entries' := by
  unfold Toml.addEntry? at hadd
  split at hadd
  · cases hadd
  next hlookup =>
    cases hadd
    have hkey := lookup?_eq_none_iff.mp hlookup
    constructor
    · have hkeys := List.Nodup.concat hkey h.keys
      rwa [List.concat_eq_append, ← List.map_singleton (f := (·.1)) (a := (key, v)),
        ← List.map_append] at hkeys
    · intro e he
      rcases List.mem_append.mp he with he | he
      · exact h.inside e he
      · rw [List.mem_singleton.mp he]
        exact hv

end TidyEntries

/-! ## Changes inside a document -/

/-- A change that leaves tidy entries tidy. -/
def KeepsTidy (change : Form → Entries → Option Entries) : Prop :=
  ∀ {form : Form} {inner inner' : Entries}, TidyEntries inner → change form inner = some inner' →
    TidyEntries inner'

theorem KeepsTidy.alterAt {change : Form → Entries → Option Entries} (hchange : KeepsTidy change)
    (dotted : Bool) (path : List String) : KeepsTidy (alterAt dotted change path) := by
  -- by the path: the table that is entered was tidy, and is put back tidy
  induction path with
  | nil => exact hchange
  | cons key path ih =>
      intro form entries entries' h halter
      rw [Toml.alterAt] at halter
      split at halter
      next =>
        obtain ⟨inner', hinner, rfl⟩ := Option.map_eq_some_iff.mp halter
        exact h.setEntry (tidy_table_iff.mpr (ih tidyEntries_nil hinner))
      next form' inner hlookup =>
        split at halter
        · cases halter
        · obtain ⟨inner', hinner, rfl⟩ := Option.map_eq_some_iff.mp halter
          have hold := tidy_table_iff.mp (h.lookup? hlookup)
          exact h.setEntry (tidy_table_iff.mpr (ih hold hinner))
      next items hlookup =>
        have hold := tidy_tables_iff.mp (h.lookup? hlookup)
        split at halter
        · cases halter
        next last hlast =>
          obtain ⟨last', hinner, rfl⟩ := Option.map_eq_some_iff.mp halter
          have hfront : ∀ e ∈ items.dropLast, TidyEntries e := fun e he =>
            hold e (List.dropLast_subset _ he)
          have hlast' := ih (hold last (List.mem_of_getLast? hlast)) hinner
          exact h.setEntry (tidy_tables_append_singleton hfront hlast')
      · cases halter

theorem TidyEntries.insertDotted {path : List String} (h : TidyEntries entries) (hv : v.Tidy)
    (hinsert : insertDotted path key v entries = some entries') : TidyEntries entries' := by
  refine KeepsTidy.alterAt ?_ true path h hinsert
  intro form inner inner' hinner hadd
  dsimp only at hadd
  split at hadd
  · exact hinner.addEntry? hv hadd
  · cases hadd

structure Draft.Tidy (d : Draft) : Prop where
  root : TidyEntries d.root
  current : TidyEntries d.current

variable {d d' : Draft} {path : List String}

theorem Draft.Tidy.close (h : d.Tidy) (hclose : d.close = some entries) : TidyEntries entries := by
  unfold Draft.close at hclose
  split at hclose
  · cases hclose
    exact h.current
  next key _ =>
    refine KeepsTidy.alterAt ?_ false _ h.root hclose
    intro form inner inner' hinner hchange
    dsimp only at hchange
    split at hchange
    · split at hchange
      next items hlookup =>
        cases hchange
        have hold := tidy_tables_iff.mp (hinner.lookup? hlookup)
        exact hinner.setEntry (tidy_tables_append_singleton hold h.current)
      · cases hchange
    · cases hchange
      exact hinner.setEntry (tidy_table_iff.mpr h.current)

theorem TidyEntries.tableAt? (h : TidyEntries entries)
    (htable : tableAt? path entries = some entries') : TidyEntries entries' := by
  induction path generalizing entries with
  | nil =>
      cases htable
      exact h
  | cons key path ih =>
      rw [Toml.tableAt?] at htable
      split at htable
      · exact ih tidyEntries_nil htable
      next form inner hlookup =>
        split at htable
        · cases htable
        · exact ih (tidy_table_iff.mp (h.lookup? hlookup)) htable
      next items hlookup =>
        obtain ⟨last, hlast, htable⟩ := Option.bind_eq_some_iff.mp htable
        exact ih (tidy_tables_iff.mp (h.lookup? hlookup) last (List.mem_of_getLast? hlast)) htable
      · cases htable

theorem TidyEntries.implied? (h : TidyEntries entries)
    (himplied : Draft.implied? entries key = some entries') : TidyEntries entries' := by
  unfold Draft.implied? at himplied
  split at himplied
  · cases himplied
    exact tidyEntries_nil
  next hlookup =>
    cases himplied
    exact tidy_table_iff.mp (h.lookup? hlookup)
  · cases himplied

theorem Draft.Tidy.header (h : d.Tidy) (hheader : d.header path = some d') : d'.Tidy := by
  simp only [Draft.header, Option.bind_eq_bind, Option.bind_eq_some_iff, Option.pure_def,
    Option.some.injEq] at hheader
  obtain ⟨root, hroot, key, -, parent, hparent, current, hcurrent, root', hroot', rfl⟩ := hheader
  have htidy := h.close hroot
  refine ⟨KeepsTidy.alterAt ?_ false _ htidy hroot', (htidy.tableAt? hparent).implied? hcurrent⟩
  intro form inner inner' hinner hchange
  cases hchange
  exact hinner.removeEntry key

theorem Draft.Tidy.arrayHeader (h : d.Tidy) (hheader : d.arrayHeader path = some d') :
    d'.Tidy := by
  simp only [Draft.arrayHeader, Option.bind_eq_bind, Option.bind_eq_some_iff, Option.pure_def,
    Option.some.injEq] at hheader
  obtain ⟨root, hroot, key, -, root', hroot', rfl⟩ := hheader
  refine ⟨KeepsTidy.alterAt ?_ false _ (h.close hroot) hroot', tidyEntries_nil⟩
  intro form inner inner' hinner hchange
  dsimp only at hchange
  split at hchange
  · cases hchange
    exact hinner.setEntry (tidy_tables_iff.mpr fun _ he => nomatch he)
  · cases hchange
    exact hinner
  · cases hchange

theorem Draft.Tidy.insert (h : d.Tidy) (hv : v.Tidy) (hinsert : d.insert path key v = some d') :
    d'.Tidy := by
  obtain ⟨current, hcurrent, rfl⟩ := Option.map_eq_some_iff.mp hinsert
  exact ⟨h.root, h.current.insertDotted hv hcurrent⟩

/-! ## Values that are read -/

variable {s rest : List Char}

theorem plain_of_prefixed {base : Nat} {isDigit : Char → Bool}
    (h : prefixed base isDigit s = some (v, rest)) : v.Plain := by
  simp only [prefixed, Option.bind_eq_bind, Option.bind_eq_some_iff, Option.ite_none_right_eq_some,
    Option.some.injEq, Prod.mk.injEq] at h
  obtain ⟨_, _, _, rfl, _⟩ := h
  trivial

theorem plain_of_integer (h : integer s = some (v, rest)) : v.Plain := by
  unfold integer at h
  split at h
  · exact plain_of_prefixed h
  · exact plain_of_prefixed h
  · exact plain_of_prefixed h
  · simp only [Option.bind_eq_bind, Option.bind_eq_some_iff, Option.ite_none_right_eq_some,
      Option.some.injEq, Prod.mk.injEq] at h
    obtain ⟨_, _, _, rfl, _⟩ := h
    trivial

theorem plain_of_float (h : float s = some (v, rest)) : v.Plain := by
  simp only [float, Option.bind_eq_bind, Option.bind_eq_some_iff] at h
  obtain ⟨_, _, h⟩ := h
  split at h
  · obtain ⟨_, _, h⟩ := Option.bind_eq_some_iff.mp h
    split at h
    all_goals
      simp only [Option.bind_some, Option.ite_none_left_eq_some, Option.some.injEq,
        Prod.mk.injEq] at h
      obtain ⟨_, rfl, _⟩ := h
      trivial
  · simp only [Option.bind_eq_some_iff, Option.ite_none_left_eq_some, Option.some.injEq,
      Prod.mk.injEq] at h
    obtain ⟨_, _, _, rfl, _⟩ := h
    trivial

theorem plain_of_specialFloat (h : specialFloat s = some (v, rest)) : v.Plain := by
  unfold specialFloat at h
  split at h <;> cases h <;> trivial

theorem plain_of_datetime (h : datetime s = some (v, rest)) : v.Plain := by
  unfold datetime at h
  split at h
  · split at h
    · split at h
      · obtain ⟨_, _, heq⟩ := Option.map_eq_some_iff.mp h
        cases heq
        trivial
      · cases h
        trivial
    · cases h
      trivial
  · cases h
    trivial
  · obtain ⟨_, _, heq⟩ := Option.map_eq_some_iff.mp h
    cases heq
    trivial

theorem plain_of_quoted (h : plainValue.quoted s = some (v, rest)) : v.Plain := by
  obtain ⟨_, _, heq⟩ := Option.map_eq_some_iff.mp h
  cases heq
  trivial

theorem plain_of_plainValue (h : plainValue s = some (v, rest)) : v.Plain := by
  unfold plainValue at h
  split at h
  · exact plain_of_quoted h
  · exact plain_of_quoted h
  · cases h
    trivial
  · cases h
    trivial
  · simp only [Option.orElse_eq_orElse, Option.orElse_eq_or, Option.or_eq_some_iff] at h
    rcases h with h | ⟨-, h | ⟨-, h | ⟨-, h⟩⟩⟩
    · exact plain_of_datetime h
    · exact plain_of_float h
    · exact plain_of_specialFloat h
    · exact plain_of_integer h

variable {item : List Char → Option (Value × List Char)} {P : Value → Prop}

theorem forall_of_arrayItems (hitem : ∀ s v rest, item s = some (v, rest) → P v) {fuel : Nat}
    {vs : List Value} (h : arrayItems item fuel s = some (vs, rest)) : ∀ v ∈ vs, P v := by
  induction fuel generalizing s vs with
  | zero => cases h
  | succ fuel ih =>
      rw [arrayItems] at h
      split at h
      · cases h
        exact List.forall_mem_nil _
      · simp only [Option.bind_eq_bind, Option.bind_eq_some_iff] at h
        obtain ⟨⟨u, behind⟩, hu, h⟩ := h
        have hfirst := hitem _ u behind hu
        split at h
        · cases h
          exact List.forall_mem_singleton.mpr hfirst
        · simp only [Option.bind_eq_some_iff, Option.pure_def, Option.some.injEq,
            Prod.mk.injEq] at h
          obtain ⟨⟨us, behind'⟩, hus, rfl, rfl⟩ := h
          exact List.forall_mem_cons.mpr ⟨hfirst, ih hus⟩
        · cases h

theorem of_pair (hitem : ∀ s v rest, item s = some (v, rest) → P v) {p : List String × Value}
    (h : pair item s = some (p, rest)) : P p.2 := by
  simp only [pair, Option.bind_eq_bind, Option.bind_eq_some_iff] at h
  obtain ⟨_, _, h⟩ := h
  split at h
  · simp only [Option.bind_eq_some_iff, Option.pure_def, Option.some.injEq, Prod.mk.injEq] at h
    obtain ⟨⟨u, behind⟩, hu, rfl, -⟩ := h
    exact hitem _ u behind hu
  · cases h

theorem forall_of_inlinePairs (hitem : ∀ s v rest, item s = some (v, rest) → P v) {fuel : Nat}
    {ps : List (List String × Value)} (h : inlinePairs item fuel s = some (ps, rest)) :
    ∀ p ∈ ps, P p.2 := by
  induction fuel generalizing s ps with
  | zero => cases h
  | succ fuel ih =>
      simp only [inlinePairs, Option.bind_eq_bind, Option.bind_eq_some_iff] at h
      obtain ⟨⟨p, behind⟩, hp, h⟩ := h
      have hfirst := of_pair hitem hp
      split at h
      · cases h
        exact List.forall_mem_singleton.mpr hfirst
      · simp only [Option.bind_eq_some_iff, Option.pure_def, Option.some.injEq,
          Prod.mk.injEq] at h
        obtain ⟨⟨qs, behind'⟩, hqs, rfl, rfl⟩ := h
        exact List.forall_mem_cons.mpr ⟨hfirst, ih hqs⟩
      · cases h

theorem TidyEntries.insertPairs {ps : List (List String × Value)} (h : TidyEntries entries)
    (hps : ∀ p ∈ ps, p.2.Tidy) (hinsert : ps.foldlM insertPair entries = some entries') :
    TidyEntries entries' := by
  induction ps generalizing entries with
  | nil =>
      cases hinsert
      exact h
  | cons p ps ih =>
      rw [List.foldlM_cons, Option.bind_eq_bind, Option.bind_eq_some_iff] at hinsert
      obtain ⟨more, hp, hinsert⟩ := hinsert
      obtain ⟨hfirst, hrest⟩ := List.forall_mem_cons.mp hps
      simp only [insertPair, Option.bind_eq_bind, Option.bind_eq_some_iff] at hp
      obtain ⟨name, -, hp⟩ := hp
      exact ih (h.insertDotted hfirst hp) hrest hinsert

theorem tidy_of_inlineTable (hitem : ∀ s v rest, item s = some (v, rest) → v.Tidy)
    (h : inlineTable item s = some (v, rest)) : v.Tidy := by
  unfold inlineTable at h
  split at h
  · cases h
    exact tidy_table_iff.mpr tidyEntries_nil
  · simp only [Option.bind_eq_bind, Option.bind_eq_some_iff, Option.pure_def, Option.some.injEq,
      Prod.mk.injEq] at h
    obtain ⟨⟨ps, behind⟩, hps, entries, hentries, rfl, -⟩ := h
    have hinside := forall_of_inlinePairs hitem hps
    exact tidy_table_iff.mpr (tidyEntries_nil.insertPairs hinside hentries)

theorem tidy_of_value {levels : Nat} (h : value levels s = some (v, rest)) : v.Tidy := by
  -- by the levels: what stands inside a container is read with one level less
  induction levels generalizing s v rest with
  | zero =>
      unfold value at h
      split at h
      · cases h
      · cases h
      · exact .plain (plain_of_plainValue h)
  | succ levels ih =>
      rw [value.eq_def] at h
      dsimp only at h
      split at h
      · obtain ⟨⟨vs, behind⟩, hvs, heq⟩ := Option.map_eq_some_iff.mp h
        cases heq
        exact .array (forall_of_arrayItems (fun _ _ _ => ih) hvs)
      · exact tidy_of_inlineTable (fun _ _ _ => ih) h
      · exact .plain (plain_of_plainValue h)

theorem tidy_of_headerEnd {header : Option Draft} {after : List Char}
    (hheader : ∀ d, header = some d → d.Tidy)
    (h : (do return (← header, ← lineEnd after)) = some (d', rest)) : d'.Tidy := by
  obtain ⟨d, hd, h⟩ := Option.bind_eq_some_iff.mp h
  obtain ⟨r, -, heq⟩ := Option.bind_eq_some_iff.mp h
  cases heq
  exact hheader d' hd

theorem Draft.Tidy.headerLine (h : d.Tidy) (hline : headerLine d s = some (d', rest)) :
    d'.Tidy := by
  unfold Toml.headerLine at hline
  split at hline
  next =>
    obtain ⟨⟨path, behind⟩, -, hline⟩ := Option.bind_eq_some_iff.mp hline
    dsimp only at hline
    split at hline
    · exact tidy_of_headerEnd (fun _ => h.arrayHeader) hline
    · cases hline
  next =>
    obtain ⟨⟨path, behind⟩, -, hline⟩ := Option.bind_eq_some_iff.mp hline
    dsimp only at hline
    split at hline
    · exact tidy_of_headerEnd (fun _ => h.header) hline
    · cases hline

theorem Draft.Tidy.pairLine (h : d.Tidy) (hline : pairLine d s = some (d', rest)) : d'.Tidy := by
  simp only [Toml.pairLine, Option.bind_eq_bind, Option.bind_eq_some_iff, Option.pure_def,
    Option.some.injEq, Prod.mk.injEq] at hline
  obtain ⟨⟨⟨names, v⟩, behind⟩, hpair, name, -, _, hinsert, _, -, rfl, -⟩ := hline
  have hv : v.Tidy := of_pair (fun _ _ _ => tidy_of_value) hpair
  exact h.insert hv hinsert

theorem Draft.Tidy.lines {fuel : Nat} (h : d.Tidy) (hlines : lines fuel d s = some d') :
    d'.Tidy := by
  induction fuel generalizing d s with
  | zero => cases hlines
  | succ fuel ih =>
      rw [Toml.lines] at hlines
      split at hlines
      · cases hlines
        exact h
      · obtain ⟨_, _, hlines⟩ := Option.bind_eq_some_iff.mp hlines
        exact ih h hlines
      · obtain ⟨⟨d, _⟩, hline, hlines⟩ := Option.bind_eq_some_iff.mp hlines
        exact ih (h.headerLine hline) hlines
      · split at hlines
        · exact ih h hlines
        · obtain ⟨⟨d, _⟩, hline, hlines⟩ := Option.bind_eq_some_iff.mp hlines
          exact ih (h.pairLine hline) hlines

/-- In a document that has been read each key stands once, and so it is in every
table inside it. -/
theorem tidyEntries_of_read {text : String} (h : read text = some entries) :
    TidyEntries entries := by
  obtain ⟨d, hlines, hclose⟩ := Option.bind_eq_some_iff.mp h
  have hstart : Draft.Tidy {} := ⟨tidyEntries_nil, tidyEntries_nil⟩
  exact (hstart.lines hlines).close hclose

end DevMachine.Toml

import DevMachine.Json.Reader
import Mathlib.Data.String.Basic

/-!
# Parts, depth and order of values

A value that has been read nests no deeper than its reader allows, and every
object inside it keeps its members in ascending order of their keys, each key
once.
-/

namespace DevMachine.Json

mutual

/-- A value and all values inside it. -/
def Value.parts : Value → List Value
  | .array items => .array items :: itemsParts items
  | .object members => .object members :: membersParts members
  | v => [v]

def itemsParts : List Value → List Value
  | [] => []
  | v :: rest => v.parts ++ itemsParts rest

def membersParts : List (String × Value) → List Value
  | [] => []
  | (_, v) :: rest => v.parts ++ membersParts rest

end

mutual

/-- How many containers stand inside one another at most. -/
def Value.depth : Value → Nat
  | .array items => itemsDepth items + 1
  | .object members => membersDepth members + 1
  | _ => 0

def itemsDepth : List Value → Nat
  | [] => 0
  | v :: rest => max v.depth (itemsDepth rest)

def membersDepth : List (String × Value) → Nat
  | [] => 0
  | (_, v) :: rest => max v.depth (membersDepth rest)

end

theorem mem_itemsParts_iff {u : Value} {items : List Value} :
    u ∈ itemsParts items ↔ ∃ v ∈ items, u ∈ v.parts := by
  induction items with
  | nil => simp [itemsParts]
  | cons v items ih => simp [itemsParts, ih]

theorem mem_membersParts_iff {u : Value} {members : List Member} :
    u ∈ membersParts members ↔ ∃ m ∈ members, u ∈ m.2.parts := by
  induction members with
  | nil => simp [membersParts]
  | cons m members ih => simp [membersParts, ih]

theorem itemsDepth_le_iff {n : Nat} {items : List Value} :
    itemsDepth items ≤ n ↔ ∀ v ∈ items, v.depth ≤ n := by
  induction items with
  | nil => simp [itemsDepth]
  | cons v items ih => simp [itemsDepth, ih]

theorem membersDepth_le_iff {n : Nat} {members : List Member} :
    membersDepth members ≤ n ↔ ∀ m ∈ members, m.2.depth ≤ n := by
  induction members with
  | nil => simp [membersDepth]
  | cons m members ih => simp [membersDepth, ih]

/-- Members in ascending order of their keys, each key once. -/
def Ascending (members : List Member) : Prop := members.Pairwise (·.1 < ·.1)

/-- All objects inside a value keep their members in ascending order. -/
def Value.Ordered (v : Value) : Prop := ∀ members, .object members ∈ v.parts → Ascending members

/-- No number inside a value is a double. -/
def Value.Exact (v : Value) : Prop := ∀ x, .number (.real x) ∉ v.parts

theorem Value.ordered_array_iff {items : List Value} :
    (Value.array items).Ordered ↔ ∀ v ∈ items, v.Ordered := by
  unfold Ordered
  simp only [parts, List.mem_cons, reduceCtorEq, false_or, mem_itemsParts_iff]
  exact ⟨fun h v hv members hm => h members ⟨v, hv, hm⟩,
    fun h members ⟨v, hv, hm⟩ => h v hv members hm⟩

theorem Value.ordered_object_iff {members : List Member} :
    (Value.object members).Ordered ↔ Ascending members ∧ ∀ m ∈ members, m.2.Ordered := by
  unfold Ordered
  simp only [parts, List.mem_cons, mem_membersParts_iff]
  constructor
  · intro h
    exact ⟨h members (.inl rfl), fun m hm inner hinner => h inner (.inr ⟨m, hm, hinner⟩)⟩
  · rintro ⟨hmembers, hinside⟩ inner (heq | ⟨m, hm, hinner⟩)
    · cases heq
      exact hmembers
    · exact hinside m hm inner hinner

theorem Value.exact_array_iff {items : List Value} :
    (Value.array items).Exact ↔ ∀ v ∈ items, v.Exact := by
  unfold Exact
  simp only [parts, List.mem_cons, reduceCtorEq, false_or, mem_itemsParts_iff, not_exists, not_and]
  exact ⟨fun h v hv x => h x v hv, fun h x v hv => h v hv x⟩

theorem Value.exact_object_iff {members : List Member} :
    (Value.object members).Exact ↔ ∀ m ∈ members, m.2.Exact := by
  unfold Exact
  simp only [parts, List.mem_cons, reduceCtorEq, false_or, mem_membersParts_iff, not_exists,
    not_and]
  exact ⟨fun h m hm x => h x m hm, fun h x m hm => h m hm x⟩

theorem mem_insertMember {key : String} {value : Value} {members : List Member} {m : Member}
    (hm : m ∈ insertMember key value members) : m = (key, value) ∨ m ∈ members := by
  induction members with
  | nil => simpa [insertMember] using hm
  | cons first members ih =>
      obtain ⟨k, v⟩ := first
      simp only [insertMember] at hm
      split at hm
      · exact (List.mem_cons.mp hm).imp_right (List.mem_cons_of_mem _)
      · split at hm
        · exact List.mem_cons.mp hm
        · rcases List.mem_cons.mp hm with rfl | hrest
          · exact .inr List.mem_cons_self
          · exact (ih hrest).imp_right (List.mem_cons_of_mem _)

theorem Ascending.insertMember {members : List Member} (h : Ascending members) (key : String)
    (value : Value) : Ascending (insertMember key value members) := by
  induction members with
  | nil => exact List.pairwise_singleton _ _
  | cons first members ih =>
      obtain ⟨k, v⟩ := first
      obtain ⟨hfirst, hrest⟩ := List.pairwise_cons.mp h
      simp only [Json.insertMember]
      split
      next heq =>
        subst heq
        exact List.pairwise_cons.mpr ⟨hfirst, hrest⟩
      next hne =>
        split
        next hlt =>
          refine List.pairwise_cons.mpr ⟨?_, h⟩
          intro m hm
          rcases List.mem_cons.mp hm with rfl | hm
          · exact hlt
          · exact lt_trans hlt (hfirst m hm)
        next hge =>
          refine List.pairwise_cons.mpr ⟨?_, ih hrest⟩
          intro m hm
          rcases mem_insertMember hm with rfl | hm
          · exact lt_of_le_of_ne (not_lt.mp hge) (Ne.symm hne)
          · exact hfirst m hm

theorem insertMember_of_forall_lt {key : String} {members : List Member}
    (h : ∀ m ∈ members, m.1 < key) (value : Value) :
    insertMember key value members = members ++ [(key, value)] := by
  induction members with
  | nil => rfl
  | cons first members ih =>
      obtain ⟨k, v⟩ := first
      have hk : k < key := h (k, v) List.mem_cons_self
      have hrest := ih fun m hm => h m (List.mem_cons_of_mem _ hm)
      rw [insertMember, if_neg (ne_of_gt hk), if_neg (not_lt_of_gt hk), hrest, List.cons_append]

theorem Value.ofMembers_of_ascending {members : List Member} (h : Ascending members) :
    Value.ofMembers members = .object members := by
  -- every member goes behind all that were kept before it
  have hfold (kept rest : List Member) (hall : Ascending (kept ++ rest)) :
      rest.foldl (fun kept m => insertMember m.1 m.2 kept) kept = kept ++ rest := by
    induction rest generalizing kept with
    | nil => simp
    | cons m rest ih =>
        have hbelow : ∀ m' ∈ kept, m'.1 < m.1 := fun m' hm' =>
          (List.pairwise_append.mp hall).2.2 m' hm' m List.mem_cons_self
        have hsplit : kept ++ m :: rest = kept ++ [m] ++ rest := List.append_cons kept m rest
        rw [List.foldl_cons, insertMember_of_forall_lt hbelow, hsplit]
        rw [hsplit] at hall
        exact ih (kept ++ [m]) hall
  exact congrArg Value.object (hfold [] members h)

/-- An object that was put in order has its members among those given. -/
theorem Value.exists_ofMembers_eq (members : List Member) :
    ∃ kept, Value.ofMembers members = .object kept ∧ Ascending kept ∧ kept ⊆ members := by
  have hfold (rest kept : List Member) (hkept : Ascending kept) :
      let after := rest.foldl (fun kept m => insertMember m.1 m.2 kept) kept
      Ascending after ∧ after ⊆ kept ++ rest := by
    induction rest generalizing kept with
    | nil => exact ⟨hkept, by simp⟩
    | cons m rest ih =>
        obtain ⟨hascending, hsubset⟩ := ih _ (hkept.insertMember m.1 m.2)
        refine ⟨hascending, fun m' hm' => ?_⟩
        rcases List.mem_append.mp (hsubset hm') with hinserted | hrest
        · rcases mem_insertMember hinserted with rfl | hold
          · exact List.mem_append_right _ List.mem_cons_self
          · exact List.mem_append_left _ hold
        · exact List.mem_append_right _ (List.mem_cons_of_mem m hrest)
  obtain ⟨hascending, hsubset⟩ := hfold members [] List.Pairwise.nil
  exact ⟨_, rfl, hascending, by simpa using hsubset⟩

/-! ## What is read -/

variable {α : Type} {P : α → Prop} {entry : List Char → Option (α × List Char)} {close : Char}

theorem forall_of_entries (hentry : ∀ s x rest, entry s = some (x, rest) → P x) {fuel : Nat}
    {s rest : List Char} {xs : List α} (h : entries entry close fuel s = some (xs, rest)) :
    ∀ x ∈ xs, P x := by
  induction fuel generalizing s xs with
  | zero => cases h
  | succ fuel ih =>
      rw [entries] at h
      cases hfirst : entry s with
      | none => simp [hfirst] at h
      | some first =>
          obtain ⟨x, behind⟩ := first
          have hx := hentry s x behind hfirst
          simp only [hfirst] at h
          split at h
          · cases h
          · split at h
            · obtain ⟨⟨more, r⟩, hmore, heq⟩ := Option.map_eq_some_iff.mp h
              cases heq
              exact List.forall_mem_cons.mpr ⟨hx, ih hmore⟩
            · split at h
              · cases h
                exact List.forall_mem_singleton.mpr hx
              · cases h

theorem forall_of_contents (hentry : ∀ s x rest, entry s = some (x, rest) → P x)
    {s rest : List Char} {xs : List α} (h : contents entry close s = some (xs, rest)) :
    ∀ x ∈ xs, P x := by
  unfold contents at h
  split at h
  · cases h
  · split at h
    · cases h
      exact List.forall_mem_nil _
    · exact forall_of_entries hentry h

/-- The values of a document as written. -/
def Node.values : Node → List Value
  | .members ms => ms.map (·.2)
  | .items vs => vs
  | .scalar _ => []

variable {inner : List Char → Option (Value × List Char)} {Q : Value → Prop}

theorem forall_of_member (hinner : ∀ s v rest, inner s = some (v, rest) → Q v)
    {s rest : List Char} {m : Member} (h : member inner s = some (m, rest)) : Q m.2 := by
  unfold member at h
  split at h
  · split at h
    · cases h
    · split at h
      · obtain ⟨⟨v, r⟩, hv, heq⟩ := Option.map_eq_some_iff.mp h
        cases heq
        exact hinner _ v _ hv
      · cases h
  · cases h

theorem forall_of_node (hinner : ∀ s v rest, inner s = some (v, rest) → Q v)
    {s rest : List Char} {n : Node} (h : node inner s = some (n, rest)) :
    ∀ v ∈ n.values, Q v := by
  unfold node at h
  split at h <;> obtain ⟨⟨xs, r⟩, hxs, heq⟩ := Option.map_eq_some_iff.mp h <;> cases heq
  · exact forall_of_contents (fun s v rest => hinner (skipSpace s) v rest) hxs
  · intro v hv
    obtain ⟨m, hm, rfl⟩ := List.mem_map.mp hv
    exact forall_of_contents (P := fun m => Q m.2) (fun _ _ _ => forall_of_member hinner) hxs m hm
  · exact List.forall_mem_nil _

/-- A value that is no container. -/
def Value.Plain : Value → Prop
  | .array _ => False
  | .object _ => False
  | _ => True

theorem Value.Plain.parts_eq {v : Value} (h : v.Plain) : v.parts = [v] := by
  cases v with
  | array items => cases h
  | object members => cases h
  | _ => rfl

theorem Value.Plain.depth_eq {v : Value} (h : v.Plain) : v.depth = 0 := by
  cases v with
  | array items => cases h
  | object members => cases h
  | _ => rfl

theorem Value.Plain.ordered {v : Value} (h : v.Plain) : v.Ordered := by
  intro members hmembers
  rw [h.parts_eq, List.mem_singleton] at hmembers
  subst hmembers
  cases h

theorem plain_of_number {negative : Bool} {s rest : List Char} {v : Value}
    (h : number negative s = some (v, rest)) : v.Plain := by
  simp only [number, Option.bind_eq_bind, Option.bind_eq_some_iff, Option.pure_def,
    Option.some.injEq, Prod.mk.injEq] at h
  obtain ⟨_, _, _, _, rfl, _⟩ := h
  trivial

theorem plain_of_scalar {s rest : List Char} {v : Value} (h : scalar s = some (v, rest)) :
    v.Plain := by
  unfold scalar at h
  split at h
  · cases h
    trivial
  · cases h
    trivial
  · cases h
    trivial
  · obtain ⟨_, _, heq⟩ := Option.map_eq_some_iff.mp h
    cases heq
    trivial
  · exact plain_of_number h
  · exact plain_of_number h

theorem plain_of_node {s rest : List Char} {v : Value} (h : node inner s = some (.scalar v, rest)) :
    v.Plain := by
  unfold node at h
  split at h <;> obtain ⟨⟨x, r⟩, hx, heq⟩ := Option.map_eq_some_iff.mp h <;> cases heq
  exact plain_of_scalar hx

/-- A value that is read with some levels nests no deeper and is in order. -/
theorem depth_le_and_ordered_of_value {levels : Nat} {s rest : List Char} {v : Value}
    (h : value levels s = some (v, rest)) : v.depth ≤ levels ∧ v.Ordered := by
  induction levels generalizing s rest v with
  | zero =>
      have hscalar : scalar s = some (v, rest) := by
        unfold value at h
        split at h
        · cases h
        · cases h
        · exact h
      have hplain := plain_of_scalar hscalar
      exact ⟨Nat.le_of_eq hplain.depth_eq, hplain.ordered⟩
  | succ levels ih =>
      rw [value] at h
      obtain ⟨⟨n, r⟩, hn, heq⟩ := Option.map_eq_some_iff.mp h
      cases heq
      -- a double key drops a member, so those kept are only among the ones read
      have hinside := forall_of_node (Q := fun v => v.depth ≤ levels ∧ v.Ordered)
        (fun _ _ _ => ih) hn
      cases n with
      | members ms =>
          obtain ⟨kept, hkept, hascending, hsubset⟩ := Value.exists_ofMembers_eq ms
          have hmember (m : Member) (hm : m ∈ kept) : m.2.depth ≤ levels ∧ m.2.Ordered :=
            hinside m.2 (List.mem_map_of_mem (hsubset hm))
          rw [Node.value, hkept, Value.depth, Nat.succ_le_succ_iff, membersDepth_le_iff,
            Value.ordered_object_iff]
          exact ⟨fun m hm => (hmember m hm).1, hascending, fun m hm => (hmember m hm).2⟩
      | items vs =>
          rw [Node.value, Value.depth, Nat.succ_le_succ_iff, itemsDepth_le_iff,
            Value.ordered_array_iff]
          exact ⟨fun v hv => (hinside v hv).1, fun v hv => (hinside v hv).2⟩
      | scalar u =>
          have hplain := plain_of_node hn
          refine ⟨?_, hplain.ordered⟩
          rw [Node.value, hplain.depth_eq]
          exact Nat.zero_le _

/-- The values inside a document nest one level less than the document. -/
theorem depth_le_and_ordered_of_readNode {text : String} {n : Node} (h : readNode text = some n) :
    ∀ v ∈ n.values, v.depth ≤ 126 ∧ v.Ordered := by
  unfold readNode at h
  split at h
  next read rest hread =>
    split at h
    · cases h
      exact forall_of_node (Q := fun v => v.depth ≤ 126 ∧ v.Ordered)
        (fun _ _ _ => depth_le_and_ordered_of_value) hread
    · cases h
  · cases h

end DevMachine.Json

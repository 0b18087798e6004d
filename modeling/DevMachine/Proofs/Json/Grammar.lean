import DevMachine.Proofs.Json.Tokens

/-!
# The grammar of documents

A document is one value with spaces around it, nested no deeper than is allowed, and
the reader takes exactly these.  A value that is read must not be followed by more of
a number; in a container a space, a comma or a closing character stands behind it.
-/

namespace DevMachine.Json

variable {α : Type} {s t rest ws : List Char} {c close : Char}

def Spaces (ws : List Char) : Prop := ∀ c ∈ ws, isSpace c = true

/-- Entries with commas between them, up to the closing character. -/
inductive EntriesText (text : α → List Char → Prop) (close : Char) : List α → List Char → Prop
  | last {x : α} {t ws : List Char} (hx : text x t) (hws : Spaces ws) :
    EntriesText text close [x] (t ++ (ws ++ [close]))
  | more {x : α} {xs : List α} {t ws ws' ts : List Char} (hx : text x t) (hws : Spaces ws)
    (hws' : Spaces ws') (hxs : EntriesText text close xs ts) :
    EntriesText text close (x :: xs) (t ++ (ws ++ ',' :: (ws' ++ ts)))

/-- What stands behind the opening character of a container. -/
inductive ContentsText (text : α → List Char → Prop) (close : Char) :
    List α → List Char → Prop
  | empty {ws : List Char} (hws : Spaces ws) : ContentsText text close [] (ws ++ [close])
  | entries {xs : List α} {ws ts : List Char} (hws : Spaces ws)
    (hxs : EntriesText text close xs ts) : ContentsText text close xs (ws ++ ts)

variable (inner : Value → List Char → Prop)

/-- A key, a colon and a value. -/
inductive MemberText : Member → List Char → Prop
  | mk {key : String} {v : Value} {k ws ws' t : List Char} (hkey : CharsText key.toList k)
    (hws : Spaces ws) (hws' : Spaces ws') (hv : inner v t) :
    MemberText (key, v) ('"' :: (k ++ '"' :: (ws ++ ':' :: (ws' ++ t))))

inductive NodeText : Node → List Char → Prop
  | members {ms : List Member} {t : List Char} (h : ContentsText (MemberText inner) '\x7d' ms t) :
    NodeText (.members ms) ('\x7b' :: t)
  | items {vs : List Value} {t : List Char} (h : ContentsText inner ']' vs t) :
    NodeText (.items vs) ('[' :: t)
  | scalar {v : Value} {t : List Char} (h : ScalarText v t) : NodeText (.scalar v) t

variable {inner}

/-- A value with at most the given number of containers inside one another; of the
members with one key the last counts. -/
def ValueText : (levels : Nat) → Value → List Char → Prop
  | 0, v, t => ScalarText v t
  | levels + 1, v, t => ∃ n, NodeText (ValueText levels) n t ∧ n.value = v

def DocumentText (n : Node) (t : List Char) : Prop :=
  ∃ before body behind, t = before ++ (body ++ behind) ∧ Spaces before ∧ Spaces behind ∧
    NodeText (ValueText (maxLevels - 1)) n body

theorem spaces_nil : Spaces [] := fun _ hc => nomatch hc

theorem exists_spaces (s : List Char) : ∃ ws, s = ws ++ skipSpace s ∧ Spaces ws :=
  ⟨_, List.takeWhile_append_dropWhile.symm, fun _ => List.mem_takeWhile_imp⟩

theorem Spaces.append (hws : Spaces ws) {ws' : List Char} (hws' : Spaces ws') :
    Spaces (ws ++ ws') := fun c hc => (List.mem_append.mp hc).elim (hws c) (hws' c)

theorem Spaces.skipSpace_append (hws : Spaces ws) (s : List Char) :
    skipSpace (ws ++ s) = skipSpace s := List.dropWhile_append_of_pos hws

theorem Spaces.skipSpace_cons (hws : Spaces ws) (hc : isSpace c = false) (s : List Char) :
    skipSpace (ws ++ c :: s) = c :: s := by
  rw [hws.skipSpace_append, skipSpace_of_isSpace hc]

theorem endsNumber_of_isSpace (hc : isSpace c = true) (s : List Char) : EndsNumber (c :: s) := by
  have hcases : ((c = ' ' ∨ c = '\t') ∨ c = '\n') ∨ c = '\r' := by simpa [isSpace] using hc
  rcases hcases with ((rfl | rfl) | rfl) | rfl <;>
    exact endsNumber_cons (by decide) (by decide) (by decide) (by decide) s

theorem Spaces.endsNumber (hws : Spaces ws) (hrest : EndsNumber rest) :
    EndsNumber (ws ++ rest) := by
  cases ws with
  | nil => exact hrest
  | cons c ws => exact endsNumber_of_isSpace (hws c List.mem_cons_self) _

/-! ## Readers of a grammar -/

/-- A reader that takes what is spelled in a grammar, and nothing else. -/
structure Reads (read : List Char → Option (α × List Char)) (text : α → List Char → Prop) :
    Prop where
  takes : ∀ {x : α} {t rest : List Char}, text x t → EndsNumber rest →
    read (t ++ rest) = some (x, rest)
  only : ∀ {x : α} {s rest : List Char}, read s = some (x, rest) → ∃ t, s = t ++ rest ∧ text x t

/-- A reader that also takes the spaces in front. -/
structure ReadsBehindSpace (read : List Char → Option (α × List Char))
    (text : α → List Char → Prop) : Prop where
  takes : ∀ {x : α} {ws t rest : List Char}, Spaces ws → text x t → EndsNumber rest →
    read (ws ++ (t ++ rest)) = some (x, rest)
  only : ∀ {x : α} {s rest : List Char}, read s = some (x, rest) →
    ∃ ws t, s = ws ++ (t ++ rest) ∧ Spaces ws ∧ text x t

/-- What is spelled begins neither with a space nor with the closing character. -/
def Begins (text : α → List Char → Prop) (close : Char) : Prop :=
  ∀ {x : α} {t : List Char}, text x t → ∃ c u, t = c :: u ∧ isSpace c = false ∧ c ≠ close

/-- A character that can close a container. -/
structure Closes (close : Char) : Prop where
  comma : close ≠ ','
  space : isSpace close = false
  number : ∀ rest, EndsNumber (close :: rest)

theorem closes_bracket : Closes ']' :=
  ⟨by decide, by decide, endsNumber_cons (by decide) (by decide) (by decide) (by decide)⟩

theorem closes_brace : Closes '\x7d' :=
  ⟨by decide, by decide, endsNumber_cons (by decide) (by decide) (by decide) (by decide)⟩

section Containers

variable {entry : List Char → Option (α × List Char)} {text : α → List Char → Prop} {xs : List α}

theorem Reads.behindSpace (h : Reads entry text) (hbegins : Begins text close) :
    ReadsBehindSpace (fun s => entry (skipSpace s)) text where
  takes := by
    intro x ws t rest hws hx hrest
    obtain ⟨c, u, rfl, hc, -⟩ := hbegins hx
    have hread := h.takes hx hrest
    rw [List.cons_append] at hread ⊢
    rwa [hws.skipSpace_cons hc]
  only := by
    intro x s rest hread
    obtain ⟨ws, hs, hws⟩ := exists_spaces s
    obtain ⟨t, ht, hx⟩ := h.only hread
    exact ⟨ws, t, by rw [← ht, ← hs], hws, hx⟩

theorem EntriesText.length_le (h : EntriesText text close xs t) : xs.length ≤ t.length := by
  induction h with
  | last =>
      simp only [List.length_cons, List.length_append, List.length_nil]
      omega
  | more _ _ _ _ ih =>
      simp only [List.length_cons, List.length_append]
      omega

theorem EntriesText.entries_append (h : EntriesText text close xs t) (hclose : Closes close)
    (hentry : ReadsBehindSpace entry text) (hws : Spaces ws) {fuel : Nat}
    (hfuel : xs.length ≤ fuel) (rest : List Char) :
    entries entry close fuel (ws ++ (t ++ rest)) = some (xs, rest) := by
  induction h generalizing ws fuel with
  | @last x t ws' hx hws' =>
      obtain ⟨fuel, rfl⟩ := Nat.exists_eq_add_one.mpr hfuel
      have hread := hentry.takes hws hx (hws'.endsNumber (hclose.number rest))
      rw [List.append_assoc, List.append_assoc, List.singleton_append, entries, hread]
      simp only [hws'.skipSpace_cons hclose.space, if_neg hclose.comma, if_true]
  | @more x xs t ws' ws'' ts hx hws' hws'' _ ih =>
      obtain ⟨fuel, rfl⟩ := Nat.exists_eq_add_one.mpr (Nat.zero_lt_of_lt hfuel)
      have hread := hentry.takes hws hx (hws'.endsNumber (endsNumber_comma (ws'' ++ (ts ++ rest))))
      have hmore := ih hws'' (Nat.succ_le_succ_iff.mp hfuel)
      rw [List.append_assoc, List.append_assoc, List.cons_append, List.append_assoc, entries, hread]
      simp only [hws'.skipSpace_cons (c := ',') (by decide), if_true, hmore, Option.map_some]

theorem entriesText_of_entries (hentry : ReadsBehindSpace entry text) {fuel : Nat}
    (h : entries entry close fuel s = some (xs, rest)) :
    ∃ ws t, s = ws ++ (t ++ rest) ∧ Spaces ws ∧ EntriesText text close xs t := by
  induction fuel generalizing s xs with
  | zero => cases h
  | succ fuel ih =>
      rw [entries] at h
      cases hfirst : entry s with
      | none => simp [hfirst] at h
      | some first =>
          obtain ⟨x, behind⟩ := first
          obtain ⟨ws, t, rfl, hws, hx⟩ := hentry.only hfirst
          obtain ⟨ws', hbehind, hws'⟩ := exists_spaces behind
          simp only [hfirst] at h
          split at h
          · cases h
          next c more hc =>
            rw [hc] at hbehind
            subst hbehind
            split at h
            next hcomma =>
              obtain ⟨⟨ys, r⟩, hys, heq⟩ := Option.map_eq_some_iff.mp h
              cases heq
              obtain ⟨ws'', ts, rfl, hws'', hts⟩ := ih hys
              subst hcomma
              exact ⟨ws, _, by simp, hws, .more hx hws' hws'' hts⟩
            · split at h
              next hlast =>
                cases h
                subst hlast
                exact ⟨ws, _, by simp, hws, .last hx hws'⟩
              · cases h

theorem EntriesText.begins (h : EntriesText text close xs t) (hbegins : Begins text close) :
    ∃ c u, t = c :: u ∧ isSpace c = false ∧ c ≠ close := by
  cases h with
  | last hx _ =>
      obtain ⟨c, u, rfl, hc⟩ := hbegins hx
      exact ⟨c, _, rfl, hc⟩
  | more hx _ _ _ =>
      obtain ⟨c, u, rfl, hc⟩ := hbegins hx
      exact ⟨c, _, rfl, hc⟩

theorem ReadsBehindSpace.contents (hentry : ReadsBehindSpace entry text)
    (hbegins : Begins text close) (hclose : Closes close) :
    Reads (contents entry close) (ContentsText text close) where
  takes := by
    intro xs t rest h _
    cases h with
    | empty hws =>
        rw [List.append_assoc, List.singleton_append, Json.contents,
          hws.skipSpace_cons hclose.space]
        exact if_pos rfl
    | @entries _ ws ts hws hxs =>
        have hlength := hxs.length_le
        have hread (fuel : Nat) (hfuel : xs.length ≤ fuel) :
            Json.entries entry close fuel (ts ++ rest) = some (xs, rest) :=
          hxs.entries_append hclose hentry spaces_nil hfuel rest
        obtain ⟨c, u, rfl, hc, hne⟩ := hxs.begins hbegins
        rw [List.cons_append] at hread
        rw [List.append_assoc, List.cons_append, Json.contents, hws.skipSpace_cons hc]
        simp only [if_neg hne]
        apply hread
        simp only [List.length_cons, List.length_append] at hlength ⊢
        omega
  only := by
    intro xs s rest h
    obtain ⟨ws, hs, hws⟩ := exists_spaces s
    unfold Json.contents at h
    split at h
    · cases h
    next c behind hc =>
      rw [hc] at hs
      split at h
      next hempty =>
        cases h
        subst hempty
        exact ⟨_, by rw [hs]; simp, .empty hws⟩
      next =>
        obtain ⟨ws', ts, hbehind, hws', hts⟩ := entriesText_of_entries hentry h
        refine ⟨_, ?_, .entries (hws.append hws') hts⟩
        rw [hs, hbehind, List.append_assoc, List.append_assoc]

end Containers

/-! ## Values -/

variable {read : List Char → Option (Value × List Char)} {v : Value} {n : Node}

theorem begins_memberText : Begins (MemberText inner) '\x7d' := by
  intro m t h
  cases h
  exact ⟨_, _, rfl, by decide, by decide⟩

theorem Reads.member (h : Reads read inner) (hbegins : Begins inner ']') :
    ReadsBehindSpace (member read) (MemberText inner) where
  takes := by
    intro m ws t rest hws hm hrest
    cases hm with
    | @mk key v k ws' ws'' t hkey hws' hws'' hv =>
        obtain ⟨c, u, rfl, hc, -⟩ := hbegins hv
        have hread := h.takes hv hrest
        rw [List.cons_append] at hread
        simp only [List.append_assoc, List.cons_append, Json.member,
          hws.skipSpace_cons (c := '"') (by decide), hkey.stringBody_append,
          hws'.skipSpace_cons (c := ':') (by decide), hws''.skipSpace_cons hc, hread,
          Option.map_some, String.ofList_toList]
  only := by
    intro m s rest hread
    obtain ⟨ws, hs, hws⟩ := exists_spaces s
    unfold Json.member at hread
    split at hread
    next behind hquote =>
      rw [hquote] at hs
      split at hread
      · cases hread
      next key more hkey =>
        obtain ⟨k, rfl, hk⟩ := charsText_of_stringBody hkey
        obtain ⟨ws', hmore, hws'⟩ := exists_spaces more
        split at hread
        next after hcolon =>
          rw [hcolon] at hmore
          obtain ⟨ws'', hafter, hws''⟩ := exists_spaces after
          obtain ⟨⟨v, r⟩, hv, heq⟩ := Option.map_eq_some_iff.mp hread
          cases heq
          obtain ⟨t, ht, hv⟩ := h.only hv
          have hkey : CharsText (String.ofList key).toList k := by rwa [String.toList_ofList]
          refine ⟨ws, _, ?_, hws, .mk hkey hws' hws'' hv⟩
          rw [hs, hmore, hafter, ht]
          simp
        · cases hread
    · cases hread

theorem ScalarText.begins (h : ScalarText v t) :
    ∃ c u, t = c :: u ∧ isSpace c = false ∧ c ≠ ']' ∧ c ≠ '[' ∧ c ≠ '\x7b' := by
  cases h with
  | nullWord => exact ⟨_, _, rfl, by decide⟩
  | trueWord => exact ⟨_, _, rfl, by decide⟩
  | falseWord => exact ⟨_, _, rfl, by decide⟩
  | string hs => exact ⟨_, _, rfl, by decide⟩
  | number hm =>
      obtain ⟨n, hn, -⟩ := hm
      rcases hn.begins with ⟨-, u, rfl, -⟩ | ⟨-, -, c, u, rfl, hc⟩
      · exact ⟨_, _, rfl, by decide⟩
      · exact ⟨c, u, rfl, by simp [isSpace, ne_of_isDigit hc], ne_of_isDigit hc (by decide),
          ne_of_isDigit hc (by decide), ne_of_isDigit hc (by decide)⟩

theorem begins_nodeText : Begins (NodeText inner) ']' := by
  intro n t h
  cases h with
  | members _ => exact ⟨_, _, rfl, by decide, by decide⟩
  | items _ => exact ⟨_, _, rfl, by decide, by decide⟩
  | scalar h =>
      obtain ⟨c, u, rfl, hc, hne, -⟩ := h.begins
      exact ⟨c, u, rfl, hc, hne⟩

theorem begins_valueText (levels : Nat) : Begins (ValueText levels) ']' := by
  intro v t h
  cases levels with
  | zero =>
      obtain ⟨c, u, rfl, hc, hne, -⟩ := ScalarText.begins h
      exact ⟨c, u, rfl, hc, hne⟩
  | succ levels =>
      obtain ⟨n, hn, -⟩ := h
      exact begins_nodeText hn

theorem Reads.node (h : Reads read inner) (hbegins : Begins inner ']') :
    Reads (node read) (NodeText inner) where
  takes := by
    intro n t rest hn hrest
    cases hn with
    | members hms =>
        have hread := ((h.member hbegins).contents begins_memberText closes_brace).takes hms hrest
        rw [List.cons_append, Json.node, hread, Option.map_some]
    | items hvs =>
        have hread := ((h.behindSpace hbegins).contents hbegins closes_bracket).takes hvs hrest
        rw [List.cons_append, Json.node, hread, Option.map_some]
    | scalar hv =>
        have hread := hv.scalar_append hrest
        obtain ⟨c, u, rfl, -, -, hbracket, hbrace⟩ := hv.begins
        rw [List.cons_append] at hread ⊢
        unfold Json.node
        split
        next heq => exact absurd (List.cons.inj heq).1 hbracket
        next heq => exact absurd (List.cons.inj heq).1 hbrace
        next => rw [hread, Option.map_some]
  only := by
    intro n s rest hread
    unfold Json.node at hread
    split at hread <;> obtain ⟨⟨x, r⟩, hx, heq⟩ := Option.map_eq_some_iff.mp hread <;> cases heq
    · obtain ⟨t, rfl, ht⟩ := ((h.behindSpace hbegins).contents hbegins closes_bracket).only hx
      exact ⟨_, rfl, .items ht⟩
    · obtain ⟨t, rfl, ht⟩ := ((h.member hbegins).contents begins_memberText closes_brace).only hx
      exact ⟨_, rfl, .members ht⟩
    · obtain ⟨t, rfl, ht⟩ := scalarText_of_scalar hx
      exact ⟨t, rfl, .scalar ht⟩

/-- By the levels: what stands inside a container is read with one level less. -/
theorem reads_value (levels : Nat) : Reads (value levels) (ValueText levels) := by
  induction levels with
  | zero =>
      constructor
      · intro v t rest hv hrest
        have hread := hv.scalar_append hrest
        obtain ⟨c, u, rfl, -, -, hbracket, hbrace⟩ := ScalarText.begins hv
        rw [List.cons_append] at hread ⊢
        unfold value
        split
        next heq => exact absurd (List.cons.inj heq).1 hbracket
        next heq => exact absurd (List.cons.inj heq).1 hbrace
        next => exact hread
      · intro v s rest hread
        unfold value at hread
        split at hread
        · cases hread
        · cases hread
        · exact scalarText_of_scalar hread
  | succ levels ih =>
      have hnode := ih.node (begins_valueText levels)
      constructor
      · rintro v t rest ⟨n, hn, rfl⟩ hrest
        rw [value, hnode.takes hn hrest, Option.map_some]
      · intro v s rest hread
        rw [value] at hread
        obtain ⟨⟨n, r⟩, hn, heq⟩ := Option.map_eq_some_iff.mp hread
        cases heq
        obtain ⟨t, rfl, ht⟩ := hnode.only hn
        exact ⟨t, rfl, n, ht, rfl⟩

/-- The reader takes the documents of the grammar and no other text. -/
theorem readNode_eq_some_iff {text : String} :
    readNode text = some n ↔ DocumentText n text.toList := by
  have hnode := (reads_value (maxLevels - 1)).node (begins_valueText (maxLevels - 1))
  unfold readNode
  constructor
  · intro h
    obtain ⟨before, htext, hbefore⟩ := exists_spaces text.toList
    split at h
    next n' rest hread =>
      split at h
      next hempty =>
        cases h
        obtain ⟨body, hbody, hn⟩ := hnode.only hread
        obtain ⟨behind, hrest, hbehind⟩ := exists_spaces rest
        rw [hempty, List.append_nil] at hrest
        subst hrest
        exact ⟨before, body, _, by rw [htext, hbody], hbefore, hbehind, hn⟩
      · cases h
    · cases h
  · rintro ⟨before, body, behind, htext, hbefore, hbehind, hn⟩
    have hends : EndsNumber (behind ++ []) := hbehind.endsNumber fun c hc => nomatch hc
    rw [List.append_nil] at hends
    have hread := hnode.takes hn hends
    obtain ⟨c, u, rfl, hc, -⟩ := begins_nodeText hn
    rw [List.cons_append] at hread htext
    have hempty : skipSpace behind = [] := by
      rw [← behind.append_nil, hbehind.skipSpace_append]
      rfl
    rw [htext, hbefore.skipSpace_cons hc, hread]
    exact if_pos hempty

end DevMachine.Json

import DevMachine.Proofs.Connection.RequestTurns
import DevMachine.Proofs.Connection.Stability

/-!
# Who gets the bus

The log of a course tells which requests are pending and which link is open, in
terms of its incidents alone, and this determines every answer.  A request that was
cancelled leaves its place taken, so the place alone does not say who waits; the
states of the requests are carried along with the log.
-/

namespace DevMachine.Connection

def Made (log : List LogEntry) (i : Nat) : Prop := ∃ e ∈ log, e.incident = .made i

def Cancelled (log : List LogEntry) (i : Nat) : Prop := ∃ e ∈ log, e.incident = .cancelled i

def Resolved (log : List LogEntry) (i : Nat) : Prop := ∃ e ∈ log, i ∈ e.resolved.map Prod.fst

def Pending (log : List LogEntry) (i : Nat) : Prop :=
  Made log i ∧ ¬ Cancelled log i ∧ ¬ Resolved log i

/-- A link is seen to end, or its driver is given up. -/
def Incident.Ends (k : Nat) : Incident → Prop
  | .closed j => j = k
  | .failed link _ => link = some k
  | .abandoned => True
  | _ => False

def IsOpen (log : List LogEntry) (k : Nat) : Prop :=
  ∃ before e after, log = before ++ e :: after ∧ e.incident = .opened k ∧
    ∀ e' ∈ after, ¬ e'.incident.Ends k

/-- The answers that are due when an incident happens: the bus of the open link
at once, the bus of a link that opens, word of a newer request, word that the
last retry is used up. -/
inductive Due (log : List LogEntry) : Incident → Nat → Answer → Prop
  | atOnce {i k : Nat} (hopen : IsOpen log k) : Due log (.made i) i (.bus k)
  | superseded {i j : Nat} (hpending : Pending log i) :
      Due log (.made j) i (.failure .superseded)
  | opened {i k : Nat} (hpending : Pending log i) : Due log (.opened k) i (.bus k)
  | exhausted {i : Nat} {link : Option Nat} (hpending : Pending log i) :
      Due log (.failed link 0) i (.failure (.exhausted 5))

variable {log : List LogEntry} {e : LogEntry} {d : Desk} {incident : Incident} {i k : Nat}

theorem made_concat : Made (log ++ [e]) i ↔ Made log i ∨ e.incident = .made i := by
  simp only [Made, List.mem_append, List.mem_singleton, or_and_right, exists_or,
    exists_eq_left]

theorem cancelled_concat :
    Cancelled (log ++ [e]) i ↔ Cancelled log i ∨ e.incident = .cancelled i := by
  simp only [Cancelled, List.mem_append, List.mem_singleton, or_and_right, exists_or,
    exists_eq_left]

theorem resolved_concat :
    Resolved (log ++ [e]) i ↔ Resolved log i ∨ i ∈ e.resolved.map Prod.fst := by
  simp only [Resolved, List.mem_append, List.mem_singleton, or_and_right, exists_or,
    exists_eq_left]

theorem resolved_iff : Resolved log i ↔ i ∈ (log.flatMap LogEntry.resolved).map Prod.fst := by
  rw [List.map_flatMap, List.mem_flatMap]
  rfl

theorem split_concat {before after : List LogEntry} {x : LogEntry}
    (h : log ++ [e] = before ++ x :: after) :
    (after = [] ∧ before = log ∧ x = e) ∨
      ∃ after', after = after' ++ [e] ∧ log = before ++ x :: after' := by
  rcases List.eq_nil_or_concat after with rfl | ⟨after', y, rfl⟩
  · obtain ⟨hlog, he⟩ := List.append_inj' h rfl
    exact .inl ⟨rfl, hlog.symm, (List.singleton_inj.mp he).symm⟩
  · rw [List.concat_eq_append, ← List.cons_append, ← List.append_assoc] at h
    obtain ⟨hlog, he⟩ := List.append_inj' h rfl
    exact .inr ⟨after', by rw [List.concat_eq_append, List.singleton_inj.mp he], hlog⟩

theorem isOpen_concat :
    IsOpen (log ++ [e]) k ↔
      e.incident = .opened k ∨ (IsOpen log k ∧ ¬ e.incident.Ends k) := by
  constructor
  · rintro ⟨before, x, after, hsplit, hopened, hlasts⟩
    rcases split_concat hsplit with ⟨rfl, rfl, rfl⟩ | ⟨after', rfl, rfl⟩
    · exact .inl hopened
    · refine .inr ⟨⟨before, x, after', rfl, hopened, ?_⟩, hlasts e (by simp)⟩
      exact fun e' he' => hlasts e' (by simp [he'])
  · rintro (hopened | ⟨⟨before, x, after, rfl, hopened, hlasts⟩, hends⟩)
    · exact ⟨log, e, [], rfl, hopened, by simp⟩
    · refine ⟨before, x, after ++ [e], by simp, hopened, ?_⟩
      intro e' he'
      rcases List.mem_append.mp he' with he' | he'
      · exact hlasts e' he'
      · rw [List.mem_singleton.mp he']
        exact hends

/-- What the log tells of a request that is in some state, or not made yet. -/
def Agrees (log : List LogEntry) (i : Nat) : Option RequestState → Prop
  | none | some .asked => ¬ Made log i ∧ ¬ Cancelled log i ∧ ¬ Resolved log i
  | some .waiting => Pending log i
  | some .answered => Made log i ∧ Resolved log i
  | some .cancelled => Cancelled log i ∧ ¬ Resolved log i

structure Keeps (log : List LogEntry) (d : Desk) : Prop where
  answers : d.answers = log.flatMap LogEntry.resolved
  once : (d.answers.map Prod.fst).Nodup
  states : ∀ i : Nat, Agrees log i d.requests[i]?
  /-- Only the request in the waiting place waits. -/
  waits : ∀ i : Nat, d.requests[i]? = some .waiting → d.waiter = some i
  place : ∀ i : Nat, d.waiter = some i →
    ∃ state, d.requests[i]? = some state ∧ state ≠ RequestState.asked
  bus : ∀ k, d.bus = some k ↔ IsOpen log k
  busy : ∀ i : Nat, d.requests[i]? = some .waiting → d.bus = none
  watched : ∀ k, d.bus = some k → d.watched = some k

theorem Keeps.waiting_iff (h : Keeps log d) (i : Nat) :
    d.requests[i]? = some .waiting ↔ Pending log i := by
  have hstate := h.states i
  constructor
  · intro hwaiting
    rwa [hwaiting] at hstate
  · rintro ⟨hmade, hkept, hopen⟩
    cases hi : d.requests[i]? with
    | none =>
        rw [hi] at hstate
        exact absurd hmade hstate.1
    | some state =>
        rw [hi] at hstate
        cases state with
        | waiting => rfl
        | asked => exact absurd hmade hstate.1
        | answered => exact absurd hstate.2 hopen
        | cancelled => exact absurd hstate.1 hkept

/-- A request that was neither made nor cancelled is merely asked for. -/
theorem Keeps.asked_iff (h : Keeps log d) (i : Nat) :
    d.requests[i]? = some .asked ↔ i < d.requests.length ∧ ¬ Made log i ∧ ¬ Cancelled log i := by
  have hstate := h.states i
  constructor
  · intro hasked
    rw [hasked] at hstate
    exact ⟨(List.getElem?_eq_some_iff.mp hasked).1, hstate.1, hstate.2.1⟩
  · rintro ⟨hi, hmade, hkept⟩
    rw [List.getElem?_eq_getElem hi] at hstate ⊢
    cases hrequest : d.requests[i] with
    | asked => rfl
    | waiting =>
        rw [hrequest] at hstate
        exact absurd hstate.1 hmade
    | answered =>
        rw [hrequest] at hstate
        exact absurd hstate.1 hmade
    | cancelled =>
        rw [hrequest] at hstate
        exact absurd hstate.1 hkept

theorem Keeps.pending?_iff (h : Keeps log d) (i : Nat) :
    d.pending? = some i ↔ d.requests[i]? = some .waiting := by
  rw [Desk.pending?_eq_some_iff]
  exact ⟨And.right, fun hi => ⟨h.waits i hi, hi⟩⟩

/-- A request that is made does not stand in the waiting place already. -/
theorem Keeps.pending?_set (h : Keeps log d) (hasked : d.requests[i]? = some .asked) :
    Desk.pending? { d with requests := d.requests.set i .waiting } = d.pending? := by
  apply Option.ext
  intro j
  rw [Desk.pending?_eq_some_iff, Desk.pending?_eq_some_iff]
  apply and_congr_right
  intro hplace
  have hne : i ≠ j := by
    rintro rfl
    obtain ⟨state, hstate, hne⟩ := h.place i hplace
    rw [hasked, Option.some.injEq] at hstate
    exact hne hstate.symm
  simp [hne]

/-- The answers that an incident gives are the ones that are due. -/
theorem Keeps.mem_resolves_iff (h : Keeps log d) (hadmits : d.Admits incident) (a : Answer) :
    (i, a) ∈ d.resolves incident ↔ Due log incident i a := by
  have hpending := (h.pending?_iff i).trans (h.waiting_iff i)
  cases incident with
  | made j =>
      cases hbus : d.bus with
      | some k =>
          rw [Desk.resolves_made_of_bus hbus, List.mem_singleton, Prod.mk.injEq]
          constructor
          · rintro ⟨rfl, rfl⟩
            exact .atOnce ((h.bus k).mp hbus)
          · intro hdue
            cases hdue with
            | atOnce hopen =>
                have heq := (h.bus _).mpr hopen
                rw [hbus, Option.some.injEq] at heq
                exact ⟨rfl, by rw [heq]⟩
            | superseded hwaits =>
                have hnone := h.busy i ((h.waiting_iff i).mpr hwaits)
                rw [hbus] at hnone
                cases hnone
      | none =>
          rw [Desk.resolves_made_of_no_bus hbus, Desk.mem_owed_iff, h.pending?_set hadmits,
            hpending]
          constructor
          · rintro ⟨hwaits, rfl⟩
            exact .superseded hwaits
          · intro hdue
            cases hdue with
            | atOnce hopen =>
                have heq := (h.bus _).mpr hopen
                rw [hbus] at heq
                cases heq
            | superseded hwaits => exact ⟨hwaits, rfl⟩
  | opened k =>
      rw [Desk.resolves, Desk.mem_owed_iff, hpending]
      constructor
      · rintro ⟨hwaits, rfl⟩
        exact .opened hwaits
      · intro hdue
        cases hdue with
        | opened hwaits => exact ⟨hwaits, rfl⟩
  | failed link retries =>
      by_cases hzero : retries = 0
      · subst hzero
        rw [Desk.resolves, if_pos rfl, Desk.mem_owed_iff, hpending]
        constructor
        · rintro ⟨hwaits, rfl⟩
          exact .exhausted hwaits
        · intro hdue
          cases hdue with
          | exhausted hwaits => exact ⟨hwaits, rfl⟩
      · rw [Desk.resolves, if_neg hzero]
        constructor
        · intro hmem
          cases hmem
        · intro hdue
          cases hdue
          exact absurd rfl hzero
  | _ =>
      constructor
      · intro hmem
        cases hmem
      · intro hdue
        cases hdue

/-- A request that an incident resolves was made by it or waited before. -/
theorem Keeps.unresolved (h : Keeps log d) (hadmits : d.Admits incident) {a : Answer}
    (ha : (i, a) ∈ d.resolves incident) : ¬ Resolved log i := by
  have hdue := (h.mem_resolves_iff hadmits a).mp ha
  cases hdue with
  | atOnce hopen =>
      have hstate := h.states i
      have hasked : d.requests[i]? = some .asked := hadmits
      rw [hasked] at hstate
      exact hstate.2.2
  | superseded hpending => exact hpending.2.2
  | opened hpending => exact hpending.2.2
  | exhausted hpending => exact hpending.2.2

theorem Keeps.made_of_resolves (h : Keeps log d) (hadmits : d.Admits incident) {a : Answer}
    (ha : (i, a) ∈ d.resolves incident) : incident = .made i ∨ Made log i := by
  have hdue := (h.mem_resolves_iff hadmits a).mp ha
  cases hdue with
  | atOnce hopen => exact .inl rfl
  | superseded hpending => exact .inr hpending.1
  | opened hpending => exact .inr hpending.1
  | exhausted hpending => exact .inr hpending.1

/-! ## An incident keeps the agreement -/

theorem Agrees.of_same {log' : List LogEntry} {state : Option RequestState}
    (h : Agrees log i state) (hmade : Made log' i ↔ Made log i)
    (hcancelled : Cancelled log' i ↔ Cancelled log i)
    (hresolved : Resolved log' i ↔ Resolved log i) :
    Agrees log' i state := by
  cases state with
  | none => simpa only [Agrees, hmade, hcancelled, hresolved] using h
  | some state =>
      cases state <;> simpa only [Agrees, Pending, hmade, hcancelled, hresolved] using h

theorem Keeps.agrees_after (h : Keeps log d) (hadmits : d.Admits incident) (j : Nat) :
    Agrees (log ++ [⟨incident, d.resolves incident⟩]) j (d.after incident).requests[j]? := by
  have hstate := h.states j
  -- the request is resolved, made or cancelled, or it is left as it was
  rw [Desk.request_after hadmits]
  split
  next hmem =>
    refine ⟨?_, resolved_concat.mpr (.inr hmem)⟩
    obtain ⟨⟨j, a⟩, ha, rfl⟩ := List.mem_map.mp hmem
    exact made_concat.mpr (h.made_of_resolves hadmits ha).symm
  next hmem =>
    have hresolved : Resolved (log ++ [⟨incident, d.resolves incident⟩]) j ↔ Resolved log j := by
      rw [resolved_concat]
      exact or_iff_left hmem
    by_cases hmade : incident = .made j
    · subst hmade
      have hasked : d.requests[j]? = some .asked := hadmits
      rw [hasked] at hstate
      rw [Incident.changed, if_pos rfl]
      refine ⟨made_concat.mpr (.inr rfl), ?_, ?_⟩
      · rw [cancelled_concat]
        simpa using hstate.2.1
      · rw [hresolved]
        exact hstate.2.2
    by_cases hcancelled : incident = .cancelled j
    · subst hcancelled
      obtain ⟨state, hj⟩ : ∃ state, d.requests[j]? = some state :=
        ⟨_, List.getElem?_eq_getElem hadmits⟩
      have hnow : Cancelled (log ++ [⟨.cancelled j, d.resolves (.cancelled j)⟩]) j :=
        cancelled_concat.mpr (.inr rfl)
      rw [hj] at hstate ⊢
      rw [Incident.changed, if_pos rfl]
      cases state with
      | asked => exact ⟨hnow, by rw [hresolved]; exact hstate.2.2⟩
      | waiting => exact ⟨hnow, by rw [hresolved]; exact hstate.2.2⟩
      | answered => exact ⟨made_concat.mpr (.inl hstate.1), hresolved.mpr hstate.2⟩
      | cancelled => exact ⟨hnow, by rw [hresolved]; exact hstate.2⟩
    · have hsame : incident.changed j d.requests[j]? = d.requests[j]? := by
        cases incident with
        | made i => exact if_neg fun heq => hmade (congrArg Incident.made heq)
        | cancelled i => exact if_neg fun heq => hcancelled (congrArg Incident.cancelled heq)
        | _ => rfl
      rw [hsame]
      refine hstate.of_same ?_ ?_ hresolved
      · rw [made_concat]
        exact or_iff_left hmade
      · rw [cancelled_concat]
        exact or_iff_left hcancelled

theorem Keeps.waits_on (h : Keeps log d) (hadmits : d.Admits incident) {j : Nat}
    (hwaits : d.requests[j]? = some .waiting)
    (hmem : j ∉ (d.resolves incident).map Prod.fst) :
    (d.after incident).waiter = some j ∧ (d.after incident).bus = none := by
  have hpending : d.pending? = some j := (h.pending?_iff j).mpr hwaits
  have hbus := h.busy j hwaits
  have hplace := h.waits j hwaits
  -- an incident that answers at all answers the request that waits
  have howed (a : Answer) : j ∈ (d.owed a).map Prod.fst := by simp [Desk.owed, hpending]
  cases incident with
  | made i =>
      have hset := h.pending?_set hadmits
      rw [Desk.resolves_made_of_no_bus hbus, Desk.owed, hset] at hmem
      exact absurd (howed _) hmem
  | opened k => exact absurd (howed _) hmem
  | failed link retries =>
      by_cases hzero : retries = 0
      · rw [Desk.resolves, if_pos hzero] at hmem
        exact absurd (howed _) hmem
      · rw [Desk.after, if_neg hzero]
        exact ⟨hplace, by simp [hbus]⟩
  | cancelled i => exact ⟨hplace, hbus⟩
  | closed k => exact ⟨hplace, rfl⟩
  | abandoned => exact ⟨hplace, rfl⟩

theorem Keeps.place_after (h : Keeps log d) (hadmits : d.Admits incident) {j : Nat}
    (hj : (d.after incident).waiter = some j) :
    ∃ state, (d.after incident).requests[j]? = some state ∧ state ≠ RequestState.asked := by
  rcases Desk.waiter_after hj with rfl | hplace
  · rw [Desk.request_after hadmits]
    split
    · exact ⟨_, rfl, by simp⟩
    · exact ⟨.waiting, if_pos rfl, by simp⟩
  · obtain ⟨state, hstate, hmade⟩ := h.place j hplace
    exact Desk.made_after hadmits hstate hmade

/-- The link of a bus that is handed out is watched, and nothing else is. -/
theorem Keeps.bus_after (h : Keeps log d) (hadmits : d.Admits incident) (k : Nat) :
    ((d.after incident).bus = some k ↔
        incident = .opened k ∨ (d.bus = some k ∧ ¬ incident.Ends k)) ∧
      ((d.after incident).bus = some k → (d.after incident).watched = some k) := by
  have hwatched := h.watched k
  cases incident with
  | made i =>
      have hsame : (d.after (.made i)).bus = d.bus ∧ (d.after (.made i)).watched = d.watched := by
        cases hbus : d.bus with
        | some l =>
            rw [Desk.after_made_of_bus hbus]
            exact ⟨hbus, rfl⟩
        | none =>
            rw [Desk.after_made_of_no_bus hbus]
            simp [hbus]
      rw [hsame.1, hsame.2]
      exact ⟨by simp [Incident.Ends], hwatched⟩
  | cancelled i => exact ⟨by simp [Desk.after, Incident.Ends], hwatched⟩
  | opened j =>
      have hnone : d.bus ≠ some k := by
        intro hbus
        have hadmits : d.watched = none := hadmits
        rw [hwatched hbus] at hadmits
        cases hadmits
      simp [Desk.after, hnone]
  | closed j =>
      -- only the link that is watched is seen to end
      have hends : d.bus = some k → j = k := by
        intro hbus
        have hadmits : d.watched = some j := hadmits
        rwa [hwatched hbus, Option.some.injEq, eq_comm] at hadmits
      simpa [Desk.after, Incident.Ends] using hends
  | failed link retries =>
      have hends : d.bus = some k → link = some k := by
        intro hbus
        have hadmits : d.watched = link := hadmits
        rw [← hadmits, hwatched hbus]
      have hnone : (d.after (.failed link retries)).bus ≠ some k := by
        intro hbus
        by_cases hzero : retries = 0
        · simp [Desk.after, hzero] at hbus
        · rw [Desk.after, if_neg hzero] at hbus
          cases link with
          | some j => cases hbus
          | none => cases hends hbus
      simpa [hnone, Incident.Ends] using hends
  | abandoned => simp [Desk.after, Incident.Ends]

theorem Keeps.once_after (h : Keeps log d) (hadmits : d.Admits incident) :
    ((d.after incident).answers.map Prod.fst).Nodup := by
  rw [Desk.answers_after, List.map_append, List.nodup_append]
  refine ⟨h.once, ?_, ?_⟩
  · have hle := d.length_resolves_le incident
    rcases hresolves : d.resolves incident with _ | ⟨x, _ | ⟨y, rest⟩⟩
    · exact List.nodup_nil
    · simp
    · simp [hresolves] at hle
  · -- what is resolved now was not resolved before
    rintro i hi j hj rfl
    obtain ⟨⟨i, a⟩, ha, rfl⟩ := List.mem_map.mp hj
    apply h.unresolved hadmits ha
    rwa [resolved_iff, ← h.answers]

theorem Keeps.happens (h : Keeps log d) (hadmits : d.Admits incident) :
    Keeps (log ++ [⟨incident, d.resolves incident⟩]) (d.after incident) where
  answers := by
    rw [Desk.answers_after, h.answers, List.flatMap_append, List.flatMap_singleton]
  once := h.once_after hadmits
  states := h.agrees_after hadmits
  waits := by
    intro j hj
    rcases Desk.waiting_after hadmits hj with ⟨rfl, hbus⟩ | ⟨hwaits, hmem⟩
    · rw [Desk.after_made_of_no_bus hbus]
    · exact (h.waits_on hadmits hwaits hmem).1
  place := fun _ => h.place_after hadmits
  bus := by
    intro k
    rw [(h.bus_after hadmits k).1, isOpen_concat, h.bus k]
  busy := by
    intro j hj
    rcases Desk.waiting_after hadmits hj with ⟨rfl, hbus⟩ | ⟨hwaits, hmem⟩
    · rw [Desk.after_made_of_no_bus hbus]
      simpa using hbus
    · exact (h.waits_on hadmits hwaits hmem).2
  watched := fun k => (h.bus_after hadmits k).2

/-- A request that is registered is nothing the log could know of. -/
theorem Keeps.register (h : Keeps log d) : Keeps log d.register := by
  have hwaiting (j : Nat) : d.register.requests[j]? = some .waiting ↔
      d.requests[j]? = some .waiting := by
    rcases Nat.lt_trichotomy j d.requests.length with hj | rfl | hj
    · simp [Desk.register, List.getElem?_append_left hj]
    · simp [Desk.register]
    · simp [Desk.register, List.getElem?_eq_none_iff.mpr (Nat.le_of_lt hj),
        List.getElem?_append_right (Nat.le_of_lt hj), Nat.sub_ne_zero_of_lt hj]
  refine ⟨h.answers, h.once, ?_, ?_, ?_, h.bus, ?_, h.watched⟩
  · intro j
    have hstate := h.states j
    rcases Nat.lt_trichotomy j d.requests.length with hj | rfl | hj
    · simpa [Desk.register, List.getElem?_append_left hj] using hstate
    · simpa [Desk.register, Agrees] using hstate
    · have hnone : d.register.requests[j]? = none := by
        simp [Desk.register]
        omega
      rw [List.getElem?_eq_none_iff.mpr (Nat.le_of_lt hj)] at hstate
      rw [hnone]
      exact hstate
  · exact fun j hj => h.waits j ((hwaiting j).mp hj)
  · intro j hj
    obtain ⟨state, hstate, hmade⟩ := h.place j hj
    have hlt := (List.getElem?_eq_some_iff.mp hstate).1
    exact ⟨state, by simpa [Desk.register, List.getElem?_append_left hlt] using hstate, hmade⟩
  · exact fun j hj => h.busy j ((hwaiting j).mp hj)

theorem keeps_initial (script : List Attempt) :
    Keeps [] (desk { script }) := by
  have hnone (i : Nat) : (desk { script }).requests[i]? = none := rfl
  refine ⟨rfl, List.nodup_nil, ?_, ?_, ?_, ?_, ?_, ?_⟩
  · intro i
    simp [hnone, Agrees, Made, Cancelled, Resolved]
  · intro i hi
    cases hi
  · intro i hi
    cases hi
  · intro k
    simp [desk, IsOpen]
  · intro i hi
    cases hi
  · intro k hk
    cases hk

/-! ## The protocol -/

theorem Happens.resolved_eq {c c' : Connection} {resolved : List (Nat × Answer)}
    (h : Happens c incident c') (hresolved : c'.answers = c.answers ++ resolved) :
    resolved = c.desk.resolves incident := by
  have hanswers : c'.answers = c.answers ++ c.desk.resolves incident :=
    (congrArg Desk.answers h.desk_eq.2).trans (Desk.answers_after c.desk incident)
  exact List.append_cancel_left (hresolved.symm.trans hanswers)

theorem course_keeps {script : List Attempt} {c : Connection} (h : Course script log c) :
    Keeps log c.desk := by
  induction h with
  | start => exact keeps_initial script
  | happens hcourse hhappens hresolved ih =>
      obtain ⟨hadmits, hdesk⟩ := hhappens.desk_eq
      rw [hhappens.resolved_eq hresolved, hdesk]
      exact ih.happens hadmits
  | aside hcourse haside ih => rwa [haside.desk_eq]
  | @asks log c hcourse ih =>
      rw [desk_request]
      exact ih.register

/-- What precedes an entry of the log of a course is the log of a course to a
connection at which the incident of the entry happened. -/
theorem Course.at_entry {script : List Attempt} {c : Connection} (h : Course script log c)
    {before after : List LogEntry} (hsplit : log = before ++ e :: after) :
    ∃ c₀ c₁, Course script before c₀ ∧ Happens c₀ e.incident c₁ ∧
      c₁.answers = c₀.answers ++ e.resolved := by
  induction h generalizing after with
  | start => simp at hsplit
  | happens hcourse hhappens hresolved ih =>
      rcases split_concat hsplit with ⟨-, rfl, rfl⟩ | ⟨after', -, hlog⟩
      · exact ⟨_, _, hcourse, hhappens, hresolved⟩
      · exact ih hlog
  | aside hcourse haside ih => exact ih hsplit
  | asks hcourse ih => exact ih hsplit

theorem Course.of_prefix {script : List Attempt} {c : Connection} (h : Course script log c)
    {before : List LogEntry} (hbefore : before <+: log) : ∃ c₀, Course script before c₀ := by
  obtain ⟨after, rfl⟩ := hbefore
  cases after with
  | nil =>
      rw [List.append_nil] at h
      exact ⟨c, h⟩
  | cons e after =>
      obtain ⟨c₀, -, hcourse, -⟩ := h.at_entry rfl
      exact ⟨c₀, hcourse⟩

theorem Keeps.pending_unique (h : Keeps log d) {j : Nat} (hi : Pending log i)
    (hj : Pending log j) : i = j := by
  have hwaits := h.waits i ((h.waiting_iff i).mpr hi)
  rw [h.waits j ((h.waiting_iff j).mpr hj), Option.some.injEq] at hwaits
  exact hwaits.symm

/-- The protocol of requests and answers, at every point of a log. -/
structure WaiterProtocol (log : List LogEntry) (c : Connection) : Prop where
  /-- The log misses no answer. -/
  answers : c.answers = log.flatMap LogEntry.resolved
  /-- No request is answered twice. -/
  once : (c.answers.map Prod.fst).Nodup
  /-- The log misses no request that was made or cancelled. -/
  asked : ∀ i, c.requests[i]? = some .asked ↔
    i < c.requests.length ∧ ¬ Made log i ∧ ¬ Cancelled log i
  waiting : ∀ i, c.requests[i]? = some .waiting ↔ Pending log i
  bus : ∀ k, c.bus = some k ↔ IsOpen log k
  /-- At most one request is pending at any time. -/
  alone : ∀ before, before <+: log → ∀ i j, Pending before i → Pending before j → i = j
  /-- What an incident resolves is what is due, no more and no less. -/
  due : ∀ before e after, log = before ++ e :: after →
    ∀ i a, (i, a) ∈ e.resolved ↔ Due before e.incident i a

theorem Course.waiterProtocol {script : List Attempt} {c : Connection}
    (h : Course script log c) : WaiterProtocol log c := by
  have hkeeps := course_keeps h
  refine ⟨hkeeps.answers, hkeeps.once, hkeeps.asked_iff, hkeeps.waiting_iff, hkeeps.bus, ?_, ?_⟩
  · intro before hbefore i j hi hj
    obtain ⟨c₀, hcourse⟩ := h.of_prefix hbefore
    exact (course_keeps hcourse).pending_unique hi hj
  · intro before e after hsplit i a
    obtain ⟨c₀, c₁, hcourse, hhappens, hresolved⟩ := h.at_entry hsplit
    rw [hhappens.resolved_eq hresolved]
    exact (course_keeps hcourse).mem_resolves_iff hhappens.desk_eq.1 a

/-- Every run of steps is a course of incidents, after which no request waits
for its turn once everything has settled.  Whatever course the incidents take, in
any order, requests are answered when it is due. -/
theorem requests_answered_when_due (script : List Attempt) :
    (∀ steps : List (Bool × Step), (∀ entry ∈ steps, entry.2 ≠ .dropController) →
      (∃ log, Course script log (run { script } steps)) ∧
        (run { script } steps).settle.Served) ∧
    ∀ log c, Course script log c → WaiterProtocol log c := by
  constructor
  · intro steps hsteps
    exact ⟨course_run script hsteps, served_run script hsteps⟩
  · intro log c hcourse
    exact hcourse.waiterProtocol

/-- One request is superseded and the newer one is cancelled before a link
opens; the third gets the bus at once; the fourth waits for a link that failed
until the last retry is used up. -/
theorem requests_answered_when_due_past_give_up :
    let steps : List (Bool × Step) := [(false, .request), (false, .request), (false, .cancel 1),
      (false, .connect "ws://a"), (false, .request), (false, .closeLink 0 (some .closed)),
      (false, .request), (false, .sleep 9000)]
    ∃ log, WaiterProtocol log (run { script := [{ opening := .opens none }] } steps) ∧
      log.flatMap LogEntry.resolved = [(0, .failure .superseded), (2, .bus 0),
        (3, .failure (.exhausted 5))] := by
  intro steps
  obtain ⟨hruns, hprotocol⟩ := requests_answered_when_due [{ opening := .opens none }]
  obtain ⟨⟨log, hcourse⟩, -⟩ := hruns steps (by simp [steps])
  have hkept := hprotocol log _ hcourse
  exact ⟨log, hkept, hkept.answers.symm.trans rfl⟩

end DevMachine.Connection

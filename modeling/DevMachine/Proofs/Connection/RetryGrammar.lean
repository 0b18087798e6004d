import DevMachine.Proofs.Connection.Rounds
import Mathlib.Data.List.Chain

/-!
# The retry budget and the grammar of notices

From a request to connect until the next one, or until the connection is
closed or given up, the driver tells the account of its rounds and nothing
else.  The proof carries the rounds along the changes of the situation; that
due times are never overrun makes the times in the account exact.
-/

namespace DevMachine.Connection

open Channel (Failure)

theorem Round.Explained.mono {url : String} {links links' : List Link} {r : Round}
    (h : r.Explained url links)
    (hlinks : ∀ (k : Nat) (l : Link), links[k]? = some l → ∃ l' : Link,
      links'[k]? = some l' ∧ l'.fadesAt = l.fadesAt ∧
        ∀ ending, l.farEnd = some ending → l'.farEnd = some ending) :
    r.Explained url links' := by
  have hopens : ∀ {k t}, r.Opens links k t → r.Opens links' k t := by
    rintro k t ⟨htime, l, fading, hl, hopening, hfades⟩
    obtain ⟨l', hl', hsame, -⟩ := hlinks k l hl
    exact ⟨htime, l', fading, hl', hopening, hsame.trans hfades⟩
  have hends : ∀ {k t : Nat} {ending : Option Failure},
      (∃ l : Link, links[k]? = some l ∧ l.EndsAt t ending) →
        ∃ l' : Link, links'[k]? = some l' ∧ l'.EndsAt t ending := by
    rintro k t ending ⟨l, hl, hend⟩
    obtain ⟨l', hl', hsame, hfar⟩ := hlinks k l hl
    refine ⟨l', hl', ?_⟩
    unfold Link.EndsAt at hend ⊢
    rw [hsame]
    cases hfades : l.fadesAt with
    | none =>
        rw [hfades] at hend
        exact hfar _ hend
    | some fading =>
        rw [hfades] at hend
        exact hend
  unfold Explained at h ⊢
  cases houtcome : r.outcome with
  | pending => trivial
  | failed t cause =>
      rw [houtcome] at h
      exact h
  | linked k t =>
      rw [houtcome] at h
      exact hopens h
  | closed k opened t =>
      rw [houtcome] at h
      exact ⟨hopens h.1, hends h.2⟩
  | broken k opened t cause =>
      rw [houtcome] at h
      exact ⟨hopens h.1, hends h.2⟩

theorem Round.Explained.append {url : String} {links : List Link} {r : Round}
    (h : r.Explained url links) (more : List Link) : r.Explained url (links ++ more) := by
  apply h.mono
  intro k l hl
  have hk := (List.getElem?_eq_some_iff.mp hl).1
  exact ⟨l, by rw [List.getElem?_append_left hk]; exact hl, rfl, fun _ => id⟩

theorem Round.Explained.endedBy {url : String} {links : List Link} {r : Round}
    (h : r.Explained url links) (k : Nat) (ending : Option Failure) :
    r.Explained url (links.modify k (Link.endedBy ending)) := by
  apply h.mono
  intro j l hl
  by_cases hj : k = j
  · subst j
    refine ⟨l.endedBy ending, by simp [hl], rfl, ?_⟩
    intro e he
    simp [Link.endedBy, he]
  · exact ⟨l, by simp [hj, hl], rfl, fun _ => id⟩

theorem nextDue?_endedBy (s : Situation) (k : Nat) (ending : Option Failure) :
    Situation.nextDue? { s with links := s.links.modify k (Link.endedBy ending) } =
      s.nextDue? := by
  have hfades : ∀ j : Nat, ((s.links.modify k (Link.endedBy ending))[j]?).bind Link.fadesAt =
      (s.links[j]?).bind Link.fadesAt := by
    intro j
    by_cases hj : k = j
    · subst j
      cases hlink : s.links[k]? <;> simp [hlink, Link.endedBy]
    · simp [hj]
  unfold Situation.nextDue?
  cases hdriver : s.driver with
  | none => rfl
  | some driver =>
      simp only [Option.bind_eq_bind, Option.bind_some]
      cases driver.phase with
      | linked j => simp only [← Option.bind_assoc, hfades]
      | opening opening due => cases opening <;> rfl
      | _ => rfl

/-- The rounds account for what was told since the start, used up the script
entry by entry, opened the links since then and follow one another. -/
structure Ledger (start : Situation) (url : String) (rounds : List Round) (s : Situation) :
    Prop where
  told : s.told = start.told ++ account url retryBudget rounds
  script : s.script = start.script.drop rounds.length
  attempts : ∀ (i : Nat) (r : Round), rounds[i]? = some r → r.attempt = start.script.getD i {}
  chained : rounds.IsChain Round.IsFollowedBy
  first : ∀ r ∈ rounds.head?, r.begun = start.clock
  explained : ∀ r ∈ rounds, r.Explained url s.links
  grown : start.links.length ≤ s.links.length
  links : rounds.filterMap Round.link? =
    List.range' start.links.length (s.links.length - start.links.length)

theorem Ledger.begin {start s s' : Situation} {url : String} {rounds : List Round}
    (h : Ledger start url rounds s) {r : Round}
    (hattempt : r.attempt = s.script.headD {}) (houtcome : r.outcome = .pending)
    (hfirst : rounds = [] → r.begun = start.clock)
    (hfollows : ∀ last ∈ rounds.getLast?, last.IsFollowedBy r)
    (htold : s'.told = s.told ++ [(r.begun, .attempt url)])
    (hscript : s'.script = s.script.tail) (hlinks : s'.links = s.links) :
    Ledger start url (rounds ++ [r]) s' where
  told := by
    rw [htold, h.told, account_append]
    simp [account, Round.account, houtcome, Outcome.notices]
  script := by simp [hscript, h.script]
  attempts := by
    intro i r' hr'
    rcases Nat.lt_trichotomy i rounds.length with hi | hi | hi
    · rw [List.getElem?_append_left hi] at hr'
      exact h.attempts i r' hr'
    · subst i
      rw [List.getElem?_concat_length, Option.some.injEq] at hr'
      rw [← hr', hattempt, h.script]
      simp [List.headD_eq_head?_getD, List.head?_drop]
    · rw [List.getElem?_eq_none (by simp; omega)] at hr'
      cases hr'
  chained := by
    rw [List.isChain_append]
    refine ⟨h.chained, List.isChain_singleton _, ?_⟩
    intro last hlast r' hr'
    simp only [List.head?_cons, Option.mem_def, Option.some.injEq] at hr'
    exact hr' ▸ hfollows last hlast
  first := by
    intro r' hr'
    cases rounds with
    | nil =>
        simp only [List.nil_append, List.head?_cons, Option.mem_def, Option.some.injEq] at hr'
        exact hr' ▸ hfirst rfl
    | cons r₀ rounds => exact h.first r' hr'
  explained := by
    intro r' hr'
    rw [hlinks]
    rcases List.mem_append.mp hr' with hr' | hr'
    · exact h.explained r' hr'
    · rw [List.mem_singleton.mp hr', Round.Explained, houtcome]
      trivial
  grown := by
    rw [hlinks]
    exact h.grown
  links := by
    rw [hlinks, List.filterMap_append, h.links]
    simp [Round.link?, houtcome]

theorem Ledger.turnOut {start s s' : Situation} {url : String} {done : List Round} {r : Round}
    (h : Ledger start url (done ++ [r]) s) {outcome : Outcome}
    (entries : List (Nat × Occurrence))
    (hentries : outcome.notices (retryBudget - done.length) =
      r.outcome.notices (retryBudget - done.length) ++ entries)
    (htold : s'.told = s.told ++ entries) (hscript : s'.script = s.script)
    (hmono : ∀ r' : Round, r'.Explained url s.links → r'.Explained url s'.links)
    (hexplained : { r with outcome }.Explained url s'.links)
    (hgrown : start.links.length ≤ s'.links.length)
    (hlinks : (done ++ [{ r with outcome }]).filterMap Round.link? =
      List.range' start.links.length (s'.links.length - start.links.length)) :
    Ledger start url (done ++ [{ r with outcome }]) s' where
  told := by
    have hnew : account url (retryBudget - done.length) [{ r with outcome }] =
        account url (retryBudget - done.length) [r] ++ entries := by
      simp [account, Round.account, hentries]
    rw [htold, h.told, account_append, account_append, hnew]
    simp
  script := by
    rw [hscript, h.script]
    simp
  attempts := by
    intro i r' hr'
    rcases Nat.lt_trichotomy i done.length with hi | hi | hi
    · rw [List.getElem?_append_left hi] at hr'
      exact h.attempts i r' (by rw [List.getElem?_append_left hi]; exact hr')
    · subst i
      rw [List.getElem?_concat_length, Option.some.injEq] at hr'
      rw [← hr']
      exact h.attempts done.length r (by simp)
    · rw [List.getElem?_eq_none (by simp; omega)] at hr'
      cases hr'
  chained := by
    have hold := h.chained
    rw [List.isChain_append] at hold ⊢
    refine ⟨hold.1, List.isChain_singleton _, ?_⟩
    intro last hlast r' hr'
    simp only [List.head?_cons, Option.mem_def, Option.some.injEq] at hr'
    rw [← hr']
    exact hold.2.2 last hlast r (by simp)
  first := by
    intro r' hr'
    cases done with
    | nil =>
        simp only [List.nil_append, List.head?_cons, Option.mem_def, Option.some.injEq] at hr'
        rw [← hr']
        exact h.first r (by simp)
    | cons r₀ done => exact h.first r' hr'
  explained := by
    intro r' hr'
    rcases List.mem_append.mp hr' with hr' | hr'
    · exact hmono r' (h.explained r' (List.mem_append_left _ hr'))
    · rw [List.mem_singleton.mp hr']
      exact hexplained
  grown := hgrown
  links := hlinks

theorem Ledger.of_frame {start s s' : Situation} {url : String} {rounds : List Round}
    (h : Ledger start url rounds s) (htold : s'.told = s.told) (hscript : s'.script = s.script)
    (hlength : s'.links.length = s.links.length)
    (hmono : ∀ r : Round, r.Explained url s.links → r.Explained url s'.links) :
    Ledger start url rounds s' where
  told := htold.trans h.told
  script := hscript.trans h.script
  attempts := h.attempts
  chained := h.chained
  first := h.first
  explained := fun r hr => hmono r (h.explained r hr)
  grown := by
    rw [hlength]
    exact h.grown
  links := by
    rw [hlength]
    exact h.links

/-- What the driver is doing after some failed rounds, with a current round
or without one. -/
inductive Stage (start : Situation) (url : String) (s : Situation) :
    List Round → Option Round → Prop
  | fresh (hdriver : s.driver = some { url, phase := .fresh })
      (hclock : s.clock = start.clock) : Stage start url s [] none
  | opening {done : List Round} {r : Round} (houtcome : r.outcome = .pending)
      (hdriver : s.driver = some
        { url, phase := .opening r.attempt.opening (r.begun + r.attempt.delay) }) :
      Stage start url s done (some r)
  | linked {done : List Round} {r : Round} {k opened : Nat}
      (houtcome : r.outcome = .linked k opened)
      (hdriver : s.driver = some { url, phase := .linked k }) :
      Stage start url s done (some r)
  | pausing {done : List Round} {r : Round} {t : Nat} {cause : Failure}
      (hlast : done.getLast? = some r) (hfailure : r.failure? = some (t, cause))
      (hbudget : done.length ≤ retryBudget)
      (hdriver : s.driver = some { url, phase := .pausing (t + retryDelay) }) :
      Stage start url s done none
  | closed {done : List Round} {r : Round} {k opened t : Nat}
      (houtcome : r.outcome = .closed k opened t)
      (hdriver : s.driver = some { url, phase := .finished }) :
      Stage start url s done (some r)
  | exhausted {done : List Round} (hlength : done.length = retryBudget + 1)
      (hdriver : s.driver = some { url, phase := .finished }) :
      Stage start url s done none

/-- The rounds since the start are those that failed and the current one. -/
structure Story (start : Situation) (url : String) (done : List Round) (current : Option Round)
    (s : Situation) : Prop where
  ledger : Ledger start url (done ++ current.toList) s
  stage : Stage start url s done current
  failed : ∀ r ∈ done, r.failure? ≠ none
  unfailed : ∀ r ∈ current, r.failure? = none
  retries : s.retries = retryBudget - done.length
  budget : (done ++ current.toList).length ≤ retryBudget + 1
  prompt : ∀ due, s.nextDue? = some due → s.clock ≤ due

theorem Stage.of_opening {start s : Situation} {url url' : String} {done : List Round}
    {current : Option Round} {opening : Opening} {due : Nat} (h : Stage start url s done current)
    (hdriver : s.driver = some { url := url', phase := .opening opening due }) :
    ∃ r, current = some r ∧ r.outcome = .pending ∧ url' = url ∧ opening = r.attempt.opening ∧
      due = r.begun + r.attempt.delay := by
  cases h with
  | opening houtcome hdriver' =>
      rw [hdriver'] at hdriver
      cases hdriver
      exact ⟨_, rfl, houtcome, rfl, rfl, rfl⟩
  | _ => simp_all

theorem Stage.of_linked {start s : Situation} {url url' : String} {done : List Round}
    {current : Option Round} {k : Nat} (h : Stage start url s done current)
    (hdriver : s.driver = some { url := url', phase := .linked k }) :
    ∃ r opened, current = some r ∧ r.outcome = .linked k opened := by
  cases h with
  | linked houtcome hdriver' =>
      rw [hdriver'] at hdriver
      cases hdriver
      exact ⟨_, _, rfl, houtcome⟩
  | _ => simp_all

theorem Story.url_eq {start s : Situation} {url url' : String} {done : List Round}
    {current : Option Round} (h : Story start url done current s) {phase : Phase}
    (hdriver : s.driver = some { url := url', phase }) : url' = url := by
  have hstage := h.stage
  cases hstage <;> simp_all

/-- A driver that begins an attempt does so at the start, or exactly one retry
delay after the last failure. -/
theorem Story.of_begins {start s : Situation} {url url' : String} {done : List Round}
    {current : Option Round} (h : Story start url done current s) {phase : Phase}
    (hdriver : s.driver = some { url := url', phase }) (hphase : s.Begins phase) :
    url' = url ∧ current = none ∧ done.length ≤ retryBudget ∧
      (done = [] → s.clock = start.clock) ∧
      ∀ last ∈ done.getLast?, ∃ t cause,
        last.failure? = some (t, cause) ∧ s.clock = t + retryDelay := by
  have hstage := h.stage
  cases hstage with
  | fresh hfresh hclock =>
      rw [hfresh] at hdriver
      cases hdriver
      exact ⟨rfl, rfl, by simp, fun _ => hclock, by simp⟩
  | @pausing _ last t cause hlast hfailure hlength hpausing =>
      rw [hpausing] at hdriver
      cases hdriver
      have hdue : t + retryDelay ≤ s.clock := hphase
      have hclock := h.prompt (t + retryDelay) (by simp [Situation.nextDue?, hpausing])
      refine ⟨rfl, rfl, hlength, ?_, ?_⟩
      · rintro rfl
        simp at hlast
      · intro last' hlast'
        rw [hlast, Option.mem_some] at hlast'
        exact ⟨t, cause, hlast' ▸ hfailure, Nat.le_antisymm hclock hdue⟩
  | opening _ hother | linked _ hother | closed _ hother | exhausted _ hother =>
      rw [hother] at hdriver
      cases hdriver
      exact hphase.elim

/-! ## The story goes on -/

variable {start s : Situation} {url url' : String} {done : List Round} {current : Option Round}

theorem Story.begins (h : Story start url done current s) {phase : Phase}
    (hdriver : s.driver = some { url := url', phase }) (hphase : s.Begins phase) :
    ∃ r, Story start url done (some r) (s.began url') := by
  obtain ⟨rfl, rfl, hlength, hclock, hlast⟩ := h.of_begins hdriver hphase
  let r : Round := { begun := s.clock, attempt := s.script.headD {} }
  have hledger := h.ledger
  simp only [Option.toList_none, List.append_nil] at hledger
  have hfollows : ∀ last ∈ done.getLast?, last.IsFollowedBy r := by
    intro last hmem
    obtain ⟨t, cause, hfailure, htime⟩ := hlast last hmem
    exact ⟨t, cause, hfailure, htime⟩
  refine ⟨r, ?_, .opening rfl ?_, h.failed, ?_, h.retries, ?_, ?_⟩
  · exact hledger.begin (r := r) rfl rfl hclock hfollows rfl rfl rfl
  · simp [Situation.began, Situation.tell, Situation.enter, hdriver, r]
  · simp [r, Round.failure?]
  · simpa using hlength
  · intro due hdue
    cases hopening : (s.script.headD {}).opening <;>
      simp_all [Situation.began, Situation.tell, Situation.enter, Situation.nextDue?] <;> omega

theorem Story.clock_eq_of_opening (h : Story start url done current s) {opening : Opening}
    {due : Nat} (hdriver : s.driver = some { url := url', phase := .opening opening due })
    (hopening : opening ≠ .hangs) (hdue : due ≤ s.clock) : s.clock = due := by
  refine Nat.le_antisymm (h.prompt due ?_) hdue
  cases opening <;> simp_all [Situation.nextDue?]

theorem Story.endsAt_of_ended (h : Story start url done current s) {k : Nat} {l : Link}
    {ending : Option Failure} (hdriver : s.driver = some { url := url', phase := .linked k })
    (hlink : s.links[k]? = some l) (hended : l.ended? s.clock = some ending) :
    l.EndsAt s.clock ending := by
  unfold Link.ended? at hended
  unfold Link.EndsAt
  cases hfades : l.fadesAt with
  | none =>
      rw [hfades] at hended
      exact hended
  | some fading =>
      obtain ⟨t, fadingEnd⟩ := fading
      simp only [hfades, Option.ite_none_right_eq_some, Option.some.injEq] at hended
      obtain ⟨hle, rfl⟩ := hended
      have hge := h.prompt t (by simp [Situation.nextDue?, hdriver, hlink, hfades])
      rw [Nat.le_antisymm hge hle]

theorem Story.opens (h : Story start url done current s) {fading : Option Fading} {due : Nat}
    (hdriver : s.driver = some { url := url', phase := .opening (.opens fading) due })
    (hdue : due ≤ s.clock) : ∃ r, Story start url done (some r) (s.opened fading) := by
  have hclock := h.clock_eq_of_opening hdriver (by simp) hdue
  obtain ⟨r, rfl, houtcome, rfl, hopening, rfl⟩ := h.stage.of_opening hdriver
  have hledger := h.ledger
  simp only [Option.toList_some] at hledger
  have hnew : (s.opened fading).links = s.links ++
      [{ fadesAt := fading.map fun f => (s.clock + f.after, f.failure) }] := rfl
  have hlength : (s.opened fading).links.length = s.links.length + 1 := by simp [hnew]
  refine ⟨{ r with outcome := .linked s.links.length s.clock }, ?_, .linked rfl ?_, h.failed, ?_,
    h.retries, ?_, ?_⟩
  · refine hledger.turnOut [(s.clock, .notice .started)] ?_ rfl rfl ?_ ?_ ?_ ?_
    · simp [houtcome, Outcome.notices]
    · intro r' hr'
      exact hr'.append _
    · refine ⟨hclock, { fadesAt := fading.map fun f => (s.clock + f.after, f.failure) }, fading,
        ?_, hopening.symm, rfl⟩
      rw [hnew, List.getElem?_concat_length]
    · exact Nat.le_trans hledger.grown (by omega)
    · have hgrown := hledger.grown
      have hlinks := hledger.links
      rw [List.filterMap_append] at hlinks ⊢
      rw [hlength, Nat.sub_add_comm hgrown, List.range'_1_concat, ← hlinks]
      simp [Round.link?, houtcome, Nat.add_sub_cancel' hgrown]
  · simp [Situation.opened, Situation.tell, Situation.enter, hdriver]
  · simp [Round.failure?]
  · simpa using h.budget
  · intro due hdue
    have hphase : (s.opened fading).driver =
        some { url := url', phase := .linked s.links.length } := by
      simp [Situation.opened, Situation.tell, Situation.enter, hdriver]
    simp only [Situation.nextDue?, hphase, hnew, Option.bind_eq_bind, Option.bind_some,
      List.getElem?_concat_length] at hdue
    cases fading with
    | none => simp at hdue
    | some f =>
        simp only [Option.map_some, Option.bind_some, Option.pure_def, Option.some.injEq] at hdue
        rw [← hdue]
        exact Nat.le_add_right _ _

theorem Story.closes (h : Story start url done current s) {k : Nat} {l : Link}
    (hdriver : s.driver = some { url := url', phase := .linked k })
    (hlink : s.links[k]? = some l) (hended : l.ended? s.clock = some none) :
    ∃ r, Story start url done (some r) s.closed := by
  have hend := h.endsAt_of_ended hdriver hlink hended
  obtain ⟨r, opened, rfl, houtcome⟩ := h.stage.of_linked hdriver
  have hledger := h.ledger
  simp only [Option.toList_some] at hledger
  have hopens := hledger.explained r (by simp)
  rw [Round.Explained, houtcome] at hopens
  have hfinished : s.closed.driver = some { url := url', phase := .finished } := by
    simp [Situation.closed, Situation.tell, Situation.enter, hdriver]
  refine ⟨{ r with outcome := .closed k opened s.clock }, ?_, .closed rfl ?_, h.failed, ?_,
    h.retries, ?_, ?_⟩
  · refine hledger.turnOut [(s.clock, .notice .stopped)] ?_ rfl rfl ?_ ?_
      hledger.grown ?_
    · simp [houtcome, Outcome.notices]
    · exact fun _ => id
    · exact ⟨hopens, l, hlink, hend⟩
    · have hlinks := hledger.links
      rw [List.filterMap_append] at hlinks ⊢
      exact Eq.trans (by simp [Round.link?, houtcome]) hlinks
  · rw [hfinished, ← h.url_eq hdriver]
  · simp [Round.failure?]
  · simpa using h.budget
  · intro due hdue
    simp [Situation.nextDue?, hfinished] at hdue

theorem Situation.failed_links (s : Situation) (cause : Failure) :
    (s.failed cause).links = s.links := by
  unfold failed
  split <;> rfl

theorem Situation.failed_script (s : Situation) (cause : Failure) :
    (s.failed cause).script = s.script := by
  unfold failed
  split <;> rfl

theorem Situation.failed_clock (s : Situation) (cause : Failure) :
    (s.failed cause).clock = s.clock := by
  unfold failed
  split <;> rfl

theorem Situation.failed_told (s : Situation) (cause : Failure) :
    (s.failed cause).told = s.told ++ [(s.clock, .notice (failureNotice s.retries cause))] := by
  unfold failed failureNotice
  split <;> rfl

theorem Situation.failed_retries (s : Situation) (cause : Failure) :
    (s.failed cause).retries = s.retries - 1 := by
  unfold failed
  split
  next hzero => simp [Situation.tell, Situation.enter, hzero]
  next => rfl

theorem Situation.failed_driver {url : String} {phase : Phase}
    (hdriver : s.driver = some { url, phase }) (cause : Failure) :
    (s.failed cause).driver = some
      { url, phase := if s.retries = 0 then .finished else .pausing (s.clock + retryDelay) } := by
  unfold failed
  split <;> simp [Situation.tell, Situation.enter, hdriver]

/-- The current round fails: it is one of the failed ones from now on. -/
theorem Story.turnsToFailure {r : Round} (h : Story start url done (some r) s) {phase : Phase}
    (hdriver : s.driver = some { url, phase }) (outcome : Outcome) {cause : Failure}
    (hfailure : Round.failure? { r with outcome } = some (s.clock, cause))
    (hlink : Round.link? { r with outcome } = r.link?)
    (hnotices : outcome.notices (retryBudget - done.length) =
      r.outcome.notices (retryBudget - done.length) ++
        [(s.clock, .notice (failureNotice (retryBudget - done.length) cause))])
    (hexplained : Round.Explained url s.links { r with outcome }) :
    ∃ done', Story start url done' none (s.failed cause) := by
  have hledger := h.ledger
  have hretries := h.retries
  have hbudget := h.budget
  simp only [Option.toList_some, List.length_append, List.length_singleton] at hledger hbudget
  have hlinks := s.failed_links cause
  have htold := s.failed_told cause
  rw [hretries] at htold
  have hfailed := Situation.failed_driver hdriver cause
  have hnew : Ledger start url (done ++ [{ r with outcome }]) (s.failed cause) := by
    refine hledger.turnOut _ hnotices htold (s.failed_script cause) ?_ ?_ ?_ ?_
    · rw [hlinks]
      exact fun _ => id
    · rw [hlinks]
      exact hexplained
    · rw [hlinks]
      exact hledger.grown
    · rw [hlinks, ← hledger.links]
      simp [List.filterMap_append, List.filterMap_cons, hlink]
  have hlength : (done ++ [{ r with outcome }]).length = done.length + 1 := by simp
  refine ⟨done ++ [{ r with outcome }], by simpa using hnew, ?_, ?_, by simp, ?_, ?_, ?_⟩
  · by_cases hzero : s.retries = 0
    · rw [if_pos hzero] at hfailed
      exact .exhausted (by omega) hfailed
    · rw [if_neg hzero] at hfailed
      exact .pausing (by simp) hfailure (by omega) hfailed
  · intro r' hr'
    rcases List.mem_append.mp hr' with hr' | hr'
    · exact h.failed r' hr'
    · rw [List.mem_singleton.mp hr', hfailure]
      simp
  · rw [s.failed_retries, hlength]
    omega
  · simpa using hbudget
  · intro due hdue
    by_cases hzero : s.retries = 0
    · simp [Situation.nextDue?, hfailed, hzero] at hdue
    · have hpause : s.clock + retryDelay = due := by
        simpa [Situation.nextDue?, hfailed, hzero] using hdue
      rw [s.failed_clock]
      omega

theorem Story.fails (h : Story start url done current s) {phase : Phase} {cause : Failure}
    (hdriver : s.driver = some { url := url', phase }) (hfails : s.Fails url' cause phase) :
    ∃ done', Story start url done' none (s.failed cause) := by
  obtain rfl := h.url_eq hdriver
  cases phase with
  | opening opening due =>
      obtain ⟨hdue, hcause⟩ := hfails
      have hhangs : opening ≠ .hangs := by
        rintro rfl
        simp [Opening.failure?] at hcause
      have hclock := h.clock_eq_of_opening hdriver hhangs hdue
      obtain ⟨r, rfl, houtcome, -, rfl, rfl⟩ := h.stage.of_opening hdriver
      apply h.turnsToFailure hdriver (.failed s.clock cause)
      · rfl
      · simp [Round.link?, houtcome]
      · simp [Outcome.notices, houtcome]
      · exact ⟨hclock, hcause⟩
  | linked k =>
      obtain ⟨l, hlink, hended⟩ := hfails
      have hend := h.endsAt_of_ended hdriver hlink hended
      obtain ⟨r, opened, rfl, houtcome⟩ := h.stage.of_linked hdriver
      have hopens := h.ledger.explained r (by simp)
      rw [Round.Explained, houtcome] at hopens
      apply h.turnsToFailure hdriver (.broken k opened s.clock cause)
      · rfl
      · simp [Round.link?, houtcome]
      · simp [Outcome.notices, houtcome]
      · exact ⟨hopens, l, hlink, hend⟩
  | _ => exact hfails.elim

theorem Story.change (h : Story start url done current s) {s' : Situation} (hchange : s.Change s') :
    ∃ done' current', Story start url done' current' s' := by
  cases hchange with
  | move hmove =>
      cases hmove with
      | begins hdriver hphase =>
          obtain ⟨r, hr⟩ := h.begins hdriver hphase
          exact ⟨_, _, hr⟩
      | opens hdriver hdue =>
          obtain ⟨r, hr⟩ := h.opens hdriver hdue
          exact ⟨_, _, hr⟩
      | closes hdriver hlink hended =>
          obtain ⟨r, hr⟩ := h.closes hdriver hlink hended
          exact ⟨_, _, hr⟩
      | fails hdriver hfails =>
          obtain ⟨done', hdone'⟩ := h.fails hdriver hfails
          exact ⟨_, _, hdone'⟩
  | @wait t hquiet hle hdue =>
      refine ⟨done, current, h.ledger.of_frame rfl rfl rfl fun _ => id, ?_, h.failed, h.unfailed,
        h.retries, h.budget, ?_⟩
      · have hstage := h.stage
        cases hstage with
        | fresh hdriver hclock => exact absurd (.begins hdriver trivial) (hquiet _)
        | opening houtcome hdriver => exact .opening houtcome hdriver
        | linked houtcome hdriver => exact .linked houtcome hdriver
        | pausing hlast hfailure hbudget hdriver => exact .pausing hlast hfailure hbudget hdriver
        | closed houtcome hdriver => exact .closed houtcome hdriver
        | exhausted hlength hdriver => exact .exhausted hlength hdriver
      · intro due hnext
        have hold : s.nextDue? = some due := hnext
        have hclock := h.prompt due hold
        have hbound := hdue due hold
        rw [Nat.max_eq_right hclock] at hbound
        exact hbound
  | farEnd k ending =>
      refine ⟨done, current, ?_, ?_, h.failed, h.unfailed, h.retries, h.budget, ?_⟩
      · exact h.ledger.of_frame rfl rfl (by simp) fun r hr => hr.endedBy k ending
      · have hstage := h.stage
        cases hstage with
        | fresh hdriver hclock => exact .fresh hdriver hclock
        | opening houtcome hdriver => exact .opening houtcome hdriver
        | linked houtcome hdriver => exact .linked houtcome hdriver
        | pausing hlast hfailure hbudget hdriver => exact .pausing hlast hfailure hbudget hdriver
        | closed houtcome hdriver => exact .closed houtcome hdriver
        | exhausted hlength hdriver => exact .exhausted hlength hdriver
      · intro due hnext
        apply h.prompt
        rw [← hnext]
        exact (nextDue?_endedBy s k ending).symm

theorem Story.leads (h : Story start url done current s) {s' : Situation} (hleads : s.Leads s') :
    ∃ done' current', Story start url done' current' s' := by
  induction hleads with
  | refl => exact ⟨done, current, h⟩
  | tail _ hchange ih =>
      obtain ⟨done', current', hstory⟩ := ih
      exact hstory.change hchange

/-- Once the driver has to wait there is a round, and nothing more has come of
the last one. -/
theorem Story.waits (h : Story start url done current s) (hquiet : s.Quiet) :
    ∃ r, (done ++ current.toList).getLast? = some r ∧
      r.Waits s.clock s.links (retryBudget - ((done ++ current.toList).length - 1)) := by
  have hstage := h.stage
  cases hstage with
  | fresh hdriver hclock => exact absurd (.begins hdriver trivial) (hquiet _)
  | @opening _ r houtcome hdriver =>
      refine ⟨r, by simp, ?_⟩
      rw [Round.Waits, houtcome]
      cases hopening : r.attempt.opening with
      | hangs => exact .inl rfl
      | opens fading =>
          rw [hopening] at hdriver
          exact .inr (Nat.lt_of_not_le fun hdue => hquiet _ (.opens hdriver hdue))
      | fails cause =>
          rw [hopening] at hdriver
          exact .inr (Nat.lt_of_not_le fun hdue => hquiet _ (.fails hdriver ⟨hdue, rfl⟩))
      | refused =>
          rw [hopening] at hdriver
          exact .inr (Nat.lt_of_not_le fun hdue => hquiet _ (.fails hdriver ⟨hdue, rfl⟩))
  | @linked _ r k opened houtcome hdriver =>
      refine ⟨r, by simp, ?_⟩
      have hopens := h.ledger.explained r (by simp)
      rw [Round.Explained, houtcome] at hopens
      obtain ⟨-, l, fading, hlink, -, -⟩ := hopens
      rw [Round.Waits, houtcome]
      refine ⟨l, hlink, ?_⟩
      cases hended : l.ended? s.clock with
      | none => rfl
      | some ending =>
          cases ending with
          | none => exact absurd (.closes hdriver hlink hended) (hquiet _)
          | some cause => exact absurd (.fails hdriver ⟨l, hlink, hended⟩) (hquiet _)
  | @pausing _ r t cause hlast hfailure hbudget hdriver =>
      refine ⟨r, by simpa using hlast, ?_⟩
      have hlt : s.clock < t + retryDelay :=
        Nat.lt_of_not_le fun hdue => hquiet _ (.begins hdriver hdue)
      cases houtcome : r.outcome <;> simp_all [Round.failure?, Round.Waits]
  | @closed _ r k opened t houtcome hdriver =>
      refine ⟨r, by simp, ?_⟩
      rw [Round.Waits, houtcome]
      trivial
  | exhausted hlength hdriver =>
      obtain ⟨r, hlast⟩ : ∃ r, done.getLast? = some r := by
        cases hlast : done.getLast? with
        | none => simp [List.getLast?_eq_none_iff.mp hlast] at hlength
        | some r => exact ⟨r, rfl⟩
      refine ⟨r, by simpa using hlast, ?_⟩
      have hfailed := h.failed r (List.mem_of_getLast? hlast)
      cases houtcome : r.outcome <;> simp_all [Round.failure?, Round.Waits]

theorem Story.countdown (h : Story start url done current s) :
    let left := Connection.countdown (account url retryBudget (done ++ current.toList))
    left = [4, 3, 2, 1, 0].take left.length ∧ s.retries + left.length = retryBudget := by
  have hdone := countdown_account h.failed url retryBudget
  have hcurrent : Connection.countdown
      (account url (retryBudget - done.length) current.toList) = [] := by
    cases current with
    | none => rfl
    | some r =>
        have hr := countdown_account_of_no_failure (h.unfailed r rfl) url
          (retryBudget - done.length)
        simpa [account] using hr
  have hall : Connection.countdown (account url retryBudget (done ++ current.toList)) =
      [4, 3, 2, 1, 0].take done.length := by
    rw [account_append]
    unfold Connection.countdown at hdone hcurrent ⊢
    rw [List.filterMap_append, hdone, hcurrent, List.append_nil]
    rfl
  have hretries := h.retries
  simp only [hall, List.length_take, List.length_cons, List.length_nil]
  constructor
  · rw [← List.take_take]
    simp
  · unfold retryBudget at hretries ⊢
    omega

/-! ## The period of a request to connect -/

/-- The rounds of the driver that a request to connect set to work on `c₀`, as
they stand in `c`. -/
structure RoundsSince (c₀ : Connection) (url : String) (rounds : List Round) (c : Connection) :
    Prop where
  /-- The driver told the account of its rounds, attempts to this url only. -/
  told : c.told = c₀.told ++ account url retryBudget rounds
  /-- The attempts are those of the script, in order. -/
  attempts : ∀ (i : Nat) (r : Round), rounds[i]? = some r → r.attempt = c₀.script.getD i {}
  /-- Outcomes are what the script and the ends of the links say. -/
  explained : ∀ r ∈ rounds, r.Explained url c.links
  /-- Each link opened since then was opened in one of the rounds. -/
  links : rounds.filterMap Round.link? =
    List.range' c₀.links.length (c.links.length - c₀.links.length)
  /-- The first attempt is made at once. -/
  first : ∀ r ∈ rounds.head?, r.begun = c₀.clock
  /-- Only a failure is followed by another round, one retry delay later. -/
  chained : rounds.IsChain Round.IsFollowedBy
  attemptBound : rounds.length ≤ 6
  /-- The retries are told to run down one by one. -/
  countdown : let left := Connection.countdown (account url retryBudget rounds)
    left = [4, 3, 2, 1, 0].take left.length ∧ c.retries + left.length = 5
  /-- When the driver has no turn to come, nothing more has come of the last
  round, and there is one. -/
  complete : Wake.driver ∉ c.ready → ∃ r, rounds.getLast? = some r ∧
    r.Waits c.clock c.links (retryBudget - (rounds.length - 1))

theorem explained_of_bare {url : String} {links : List Link} {r : Round}
    (h : r.Explained url (links.map Link.bare)) : r.Explained url links := by
  apply h.mono
  intro k l hl
  rw [List.getElem?_map, Option.map_eq_some_iff] at hl
  obtain ⟨l', hl', rfl⟩ := hl
  exact ⟨l', hl', rfl, fun _ => id⟩

theorem waits_of_bare {now retries : Nat} {links : List Link} {r : Round}
    (h : r.Waits now (links.map Link.bare) retries) : r.Waits now links retries := by
  unfold Round.Waits at h ⊢
  cases houtcome : r.outcome with
  | linked k opened =>
      rw [houtcome] at h
      obtain ⟨l, hl, hended⟩ := h
      rw [List.getElem?_map, Option.map_eq_some_iff] at hl
      obtain ⟨l', hl', rfl⟩ := hl
      exact ⟨l', hl', hended⟩
  | _ =>
      rw [houtcome] at h
      exact h

theorem story_initial (c : Connection) (url : String) :
    Story (c.connect url).situation url [] none (c.connect url).situation := by
  have hdriver : (c.connect url).situation.driver = some { url, phase := .fresh } := by
    rw [connect, situation_wake]
    rfl
  constructor
  · constructor <;> simp [account]
  · exact .fresh hdriver rfl
  · simp
  · simp
  · rw [connect, situation_wake]
    rfl
  · simp
  · simp [Situation.nextDue?, hdriver]

theorem Story.roundsSince {c₀ c : Connection}
    (h : Story (c₀.connect url).situation url done current c.situation) (hwaits : c.DriverWaits) :
    RoundsSince c₀ url (done ++ current.toList) c := by
  have hstart : (c₀.connect url).situation =
      { c₀.situation with retries := retryBudget, driver := some { url } } := by
    rw [connect, situation_wake]
    unfold abandonDriver
    split <;> rfl
  have hlength : ∀ c : Connection, c.situation.links.length = c.links.length := by
    simp [situation]
  have hledger := h.ledger
  rw [hstart] at hledger
  refine ⟨hledger.told, hledger.attempts, ?_, ?_, hledger.first, hledger.chained, h.budget,
    h.countdown, ?_⟩
  · intro r hr
    exact explained_of_bare (hledger.explained r hr)
  · rw [hledger.links, hlength]
    simp [hlength]
  · intro hready
    obtain ⟨r, hlast, hr⟩ := h.waits (hwaits hready)
    exact ⟨r, hlast, waits_of_bare hr⟩

/-- From a request to connect on, after any steps before it and as long as no
step puts an end to its driver, what the driver tells is the account of its
rounds. -/
theorem told_is_account_of_rounds (script : List Attempt) (before : List (Bool × Step))
    (queued : Bool) (url : String) (period : List (Bool × Step))
    (hperiod : ∀ entry ∈ period, entry.2.Continues) :
    let c₀ := run { script } before
    let c := run (c₀.step queued (.connect url)).2 period
    ∃ rounds, RoundsSince c₀ url rounds c := by
  intro c₀ c
  have hwaits : c₀.DriverWaits := run_waits (driverWaits_initial script) before
  have hstart : (c₀.connect url).situation.Leads (c₀.step queued (.connect url)).2.situation := by
    cases queued with
    | true => exact .refl
    | false => exact settle_leads _
  have hstep := step_waits hwaits queued (.connect url)
  have hleads := hstart.trans (run_leads hstep hperiod)
  obtain ⟨done, current, hstory⟩ := (story_initial c₀ url).leads hleads
  exact ⟨_, hstory.roundsSince (run_waits hstep period)⟩

/-- One failed attempt, one link that breaks and one that is closed. -/
theorem told_is_account_of_three_rounds :
    let script : List Attempt := [{ opening := .fails .closed, delay := 7 },
      { opening := .opens (some { after := 30, failure := some .closed }) },
      { opening := .opens none }]
    let period : List (Bool × Step) := [(false, .sleep 5000), (false, .closeLink 1 none)]
    let c := run (step { script } false (.connect "ws://endpoint")).2 period
    (∀ entry ∈ period, entry.2.Continues) ∧
      c.told = [(0, .attempt "ws://endpoint"), (7, .notice (.reconnecting 4)),
        (1007, .attempt "ws://endpoint"), (1007, .notice .started),
        (1037, .notice (.reconnecting 3)), (2037, .attempt "ws://endpoint"),
        (2037, .notice .started), (5000, .notice .stopped)] ∧
      ∃ rounds, RoundsSince { script } "ws://endpoint" rounds c := by
  intro script period c
  have hperiod : ∀ entry ∈ period, entry.2.Continues := by simp [period, Step.Continues]
  exact ⟨hperiod, by decide,
    told_is_account_of_rounds script [] false "ws://endpoint" period hperiod⟩

end DevMachine.Connection

import DevMachine.Proofs.Logs.Reassembly
import Mathlib.Order.Basic

/-!
# Whole runs of the reassembler

A run is a list of calls, in any order and with any numbers.  What waits at
any moment is determined by the calls made so far: for each number behind the
last line printed, the text of the latest message of that number.  Every line
that a run prints is explained by this.
-/

namespace DevMachine.Logs.Reassembly

def printed (s : Reassembly) : List Operation → List Message
  | [] => []
  | op :: ops => (s.perform op).1 ++ printed (s.perform op).2 ops

def after (s : Reassembly) (ops : List Operation) : Reassembly :=
  ops.foldl (fun s op => (s.perform op).2) s

@[simp] theorem after_nil (s : Reassembly) : s.after [] = s := rfl

@[simp] theorem after_cons (s : Reassembly) (op : Operation) (ops : List Operation) :
    s.after (op :: ops) = (s.perform op).2.after ops := rfl

@[simp] theorem after_append (s : Reassembly) (ops more : List Operation) :
    s.after (ops ++ more) = (s.after ops).after more := by
  simp [after]

theorem printed_append (s : Reassembly) (ops more : List Operation) :
    s.printed (ops ++ more) = s.printed ops ++ (s.after ops).printed more := by
  induction ops generalizing s with
  | nil => rfl
  | cons op ops ih => simp [printed, ih]

def Operation.message? : Operation → Option Message
  | .accept m => some m
  | .flush => none

def Operation.text? (n : UInt64) : Operation → Option String
  | .accept m => if m.number = n then some m.text else none
  | .flush => none

/-- The text of the latest message of a number. -/
def latest (n : UInt64) (ops : List Operation) : Option String :=
  (ops.filterMap (Operation.text? n)).getLast?

/-- Some message of a number arrived when the number was not yet passed. -/
def ArrivedFresh (s : Reassembly) (ops : List Operation) (n : UInt64) : Prop :=
  ∃ before m rest,
    ops = before ++ .accept m :: rest ∧ m.number = n ∧ (s.after before).lastPrinted < n

/-- The buffer holds exactly the latest texts of the numbers behind the last
line printed. -/
structure Tracks (s : Reassembly) (history : List Operation) : Prop where
  wellFormed : s.WellFormed
  waits_iff : ∀ m, m ∈ s.pending ↔
    s.lastPrinted < m.number ∧ latest m.number history = some m.text

theorem tracks_initial : Tracks {} [] :=
  ⟨wellFormed_initial, by simp [latest]⟩

theorem latest_append_singleton (n : UInt64) (history : List Operation) (op : Operation) :
    latest n (history ++ [op]) = (op.text? n).or (latest n history) := by
  unfold latest
  rw [List.filterMap_append, List.getLast?_append]
  cases hop : op.text? n with
  | none => simp [hop]
  | some text => simp [hop]

theorem Tracks.candidate_iff {s : Reassembly} {history : List Operation}
    (hs : s.Tracks history) (op : Operation) (m : Message) :
    m ∈ s.candidates op ↔
      s.lastPrinted < m.number ∧ latest m.number (history ++ [op]) = some m.text := by
  rw [latest_append_singleton]
  cases op with
  | flush => simpa [candidates, Operation.text?] using hs.waits_iff m
  | accept a =>
      rw [mem_candidates_accept_iff hs.wellFormed, hs.waits_iff]
      by_cases heq : a.number = m.number
      · have hmessage : m = a ↔ a.text = m.text := by
          cases m
          cases a
          simp_all [eq_comm]
        simp only [Operation.text?, heq, hmessage]
        simp [and_comm]
      · have hne : m ≠ a := fun h => heq (h ▸ rfl)
        simp [Operation.text?, heq, hne, Ne.symm heq]

theorem Tracks.perform {s : Reassembly} {history : List Operation}
    (hs : s.Tracks history) (op : Operation) :
    (s.perform op).2.Tracks (history ++ [op]) := by
  refine ⟨perform_wellFormed hs.wellFormed op, ?_⟩
  intro m
  rw [mem_pending_iff hs.wellFormed, hs.candidate_iff op]
  have hmono := lastPrinted_mono hs.wellFormed op
  constructor
  · rintro ⟨⟨-, htext⟩, hlt⟩
    exact ⟨hlt, htext⟩
  · rintro ⟨hlt, htext⟩
    exact ⟨⟨UInt64.lt_of_le_of_lt hmono hlt, htext⟩, hlt⟩

theorem Tracks.after {s : Reassembly} {history : List Operation}
    (hs : s.Tracks history) (ops : List Operation) :
    (s.after ops).Tracks (history ++ ops) := by
  induction ops generalizing s history with
  | nil => simpa using hs
  | cons op ops ih => simpa using ih (hs.perform op)

/-- A line that a call prints has the latest text of its number, the call
itself included. -/
theorem Tracks.latest_of_printed {s : Reassembly} {history : List Operation}
    (hs : s.Tracks history) {op : Operation} {m : Message}
    (hm : m ∈ (s.perform op).1) :
    latest m.number (history ++ [op]) = some m.text :=
  ((hs.candidate_iff op m).mp ((mem_printed_iff hs.wellFormed).mp hm).1).2

theorem after_wellFormed {s : Reassembly} (hs : s.WellFormed) (ops : List Operation) :
    (s.after ops).WellFormed := by
  induction ops generalizing s with
  | nil => exact hs
  | cons op ops ih => exact ih (perform_wellFormed hs op)

theorem lt_of_mem_printed {s : Reassembly} (hs : s.WellFormed) {ops : List Operation}
    {m : Message} (hm : m ∈ s.printed ops) : s.lastPrinted < m.number := by
  induction ops generalizing s with
  | nil => simp [printed] at hm
  | cons op ops ih =>
      rcases List.mem_append.mp hm with hm | hm
      · exact candidates_late hs op m ((mem_printed_iff hs).mp hm).1
      · exact UInt64.lt_of_le_of_lt (lastPrinted_mono hs op)
          (ih (perform_wellFormed hs op) hm)

theorem printed_sorted {s : Reassembly} (hs : s.WellFormed) (ops : List Operation) :
    (s.printed ops).Pairwise (fun p q => p.number < q.number) := by
  induction ops generalizing s with
  | nil => simp [printed]
  | cons op ops ih =>
      have hnext := perform_wellFormed hs op
      have hcandidates := candidates_sorted hs op
      rw [← (perform_spec hs op).1, List.pairwise_append] at hcandidates
      rw [printed, List.pairwise_append]
      refine ⟨hcandidates.1, ih hnext, ?_⟩
      intro p hp q hq
      exact UInt64.lt_of_le_of_lt (le_lastPrinted_of_mem_printed hs hp)
        (lt_of_mem_printed hnext hq)

theorem after_lastPrinted {s : Reassembly} (hs : s.WellFormed) (ops : List Operation) :
    (s.after ops).lastPrinted =
      ((s.printed ops).getLast?.map Message.number).getD s.lastPrinted := by
  induction ops generalizing s with
  | nil => rfl
  | cons op ops ih =>
      rw [after_cons, ih (perform_wellFormed hs op), (perform_spec hs op).2, printed,
        List.getLast?_append]
      cases ((s.perform op).2.printed ops).getLast? <;> rfl

theorem arrivedFresh_cons_iff {s : Reassembly} {op : Operation} {ops : List Operation}
    {n : UInt64} :
    s.ArrivedFresh (op :: ops) n ↔
      (∃ m, op = .accept m ∧ m.number = n ∧ s.lastPrinted < n) ∨
        (s.perform op).2.ArrivedFresh ops n := by
  constructor
  · rintro ⟨before, m, rest, hops, hn, hlt⟩
    cases before with
    | nil =>
        simp only [List.nil_append, List.cons.injEq] at hops
        exact .inl ⟨m, hops.1, hn, hlt⟩
    | cons first before =>
        simp only [List.cons_append, List.cons.injEq] at hops
        obtain ⟨rfl, hops⟩ := hops
        exact .inr ⟨before, m, rest, hops, hn, hlt⟩
  · rintro (⟨m, rfl, hn, hlt⟩ | ⟨before, m, rest, rfl, hn, hlt⟩)
    · exact ⟨[], m, ops, rfl, hn, hlt⟩
    · exact ⟨op :: before, m, rest, rfl, hn, hlt⟩

/-- A number is a candidate of a call if it waits already or arrives fresh. -/
theorem mem_candidates_numbers_iff {s : Reassembly} (hs : s.WellFormed) (op : Operation)
    (n : UInt64) :
    n ∈ (s.candidates op).map Message.number ↔
      n ∈ s.pending.map Message.number ∨
        ∃ m, op = .accept m ∧ m.number = n ∧ s.lastPrinted < n := by
  simp only [List.mem_map]
  cases op with
  | flush => simp [candidates]
  | accept a =>
      simp only [mem_candidates_accept_iff hs, Operation.accept.injEq]
      constructor
      · rintro ⟨p, ⟨rfl, hlt⟩ | ⟨hp, -⟩, rfl⟩
        · exact .inr ⟨p, rfl, rfl, hlt⟩
        · exact .inl ⟨p, hp, rfl⟩
      · rintro (⟨p, hp, rfl⟩ | ⟨m, rfl, rfl, hlt⟩)
        · by_cases heq : p.number = a.number
          · exact ⟨a, .inl ⟨rfl, heq ▸ hs.late p hp⟩, heq.symm⟩
          · exact ⟨p, .inr ⟨hp, heq⟩, rfl⟩
        · exact ⟨a, .inl ⟨rfl, hlt⟩, rfl⟩

/-- A run that ends with a flush prints the numbers that waited before it and
those that arrived fresh. -/
theorem mem_printed_numbers_iff {s : Reassembly} (hs : s.WellFormed) (ops : List Operation)
    (n : UInt64) :
    n ∈ (s.printed (ops ++ [.flush])).map Message.number ↔
      n ∈ s.pending.map Message.number ∨ s.ArrivedFresh (ops ++ [.flush]) n := by
  induction ops generalizing s with
  | nil =>
      have hstale : ¬ s.ArrivedFresh [.flush] n := by
        rw [arrivedFresh_cons_iff]
        rintro (⟨m, hop, -⟩ | ⟨before, m, rest, hops, -⟩)
        · cases hop
        · simp at hops
      simp [printed, perform, flush, hstale]
  | cons op ops ih =>
      have hsplit := congrArg (List.map Message.number) (perform_spec hs op).1
      rw [List.cons_append, printed, List.map_append, List.mem_append,
        ih (perform_wellFormed hs op), ← or_assoc, ← List.mem_append, ← List.map_append,
        (perform_spec hs op).1, mem_candidates_numbers_iff hs, arrivedFresh_cons_iff,
        or_assoc]

instance : Std.LawfulOrderMax UInt64 where
  max_le_iff a b c := by
    change (if a ≤ b then b else a) ≤ c ↔ _
    split <;> grind
  max_eq_or a b := by
    change (if a ≤ b then b else a) = a ∨ (if a ≤ b then b else a) = b
    split <;> simp

theorem max?_numbers_of_sorted {l : List Message}
    (hsorted : l.Pairwise (fun p q => p.number < q.number)) :
    (l.map Message.number).max? = l.getLast?.map Message.number := by
  cases hlast : l.getLast? with
  | none => simp [List.getLast?_eq_none_iff.mp hlast]
  | some m =>
      obtain ⟨front, rfl⟩ := List.getLast?_eq_some_iff.mp hlast
      rw [List.pairwise_append] at hsorted
      rw [Option.map_some, List.max?_eq_some_iff]
      refine ⟨by simp, ?_⟩
      intro n hn
      simp only [List.map_append, List.map_cons, List.map_nil, List.mem_append,
        List.mem_singleton, List.mem_map] at hn
      rcases hn with ⟨p, hp, rfl⟩ | rfl
      · exact UInt64.le_of_lt (hsorted.2.2 p hp m (by simp))
      · exact UInt64.le_refl _

/-- A run that ends with a flush prints every number that arrived before it
was passed, each once and in ascending order, with the latest text that its
number had when it was printed. -/
theorem run_prints_fresh_numbers (ops : List Operation) :
    let run := ops ++ [.flush]
    let lines := printed {} run
    lines.Pairwise (fun p q => p.number < q.number) ∧
      (∀ n, n ∈ lines.map Message.number ↔ ArrivedFresh {} run n) ∧
      (∀ before op rest, run = before ++ op :: rest →
        ∀ m ∈ ((after {} before).perform op).1,
          latest m.number (before ++ [op]) = some m.text) ∧
      (after {} run).pending = [] ∧
      (after {} run).lastPrinted = (lines.map Message.number).max?.getD 0 := by
  have hsorted := printed_sorted wellFormed_initial (ops ++ [.flush])
  refine ⟨hsorted, ?_, ?_, ?_, ?_⟩
  · intro n
    rw [mem_printed_numbers_iff wellFormed_initial]
    simp
  · intro before op rest _ m hm
    have htracks := tracks_initial.after before
    rw [List.nil_append] at htracks
    exact htracks.latest_of_printed hm
  · rw [after_append]
    exact perform_flush_pending _
  · rw [after_lastPrinted wellFormed_initial, max?_numbers_of_sorted hsorted]

end DevMachine.Logs.Reassembly

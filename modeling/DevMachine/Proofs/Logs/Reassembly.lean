import DevMachine.Logs.Reassembly
import Mathlib.Tactic.Common

/-!
# Single operations of the reassembler

Accepting a message and flushing have one shape.  The message is first put among
those that wait, unless it is stale; then a front part of the resulting list is
printed and the rest waits on.  This needs that the next number in turn is not
waiting, which is kept together with the order of the buffer.
-/

namespace DevMachine.Logs.Reassembly

inductive Operation
  | accept (m : Message)
  | flush
  deriving DecidableEq, Repr

def perform (s : Reassembly) : Operation → List Message × Reassembly
  | .accept m => s.accept m
  | .flush => s.flush

/-- The buffer is in order, lies behind the last line printed, and the number
in turn is not in it. -/
structure WellFormed (s : Reassembly) : Prop where
  sorted : s.pending.Pairwise (fun p q => p.number < q.number)
  late : ∀ p ∈ s.pending, s.lastPrinted < p.number
  blocked : ∀ p ∈ s.pending, nextExpected s.lastPrinted ≠ some p.number

theorem wellFormed_initial : WellFormed {} := by
  constructor <;> simp

theorem nextExpected_eq_some_iff {last n : UInt64} :
    nextExpected last = some n ↔ n.toNat = last.toNat + 1 := by
  have hsize : UInt64.size = 2 ^ 64 := rfl
  have hn := n.toNat_lt
  unfold nextExpected
  split
  next hlt =>
    rw [Option.some.injEq, ← UInt64.toNat_inj, UInt64.toNat_add, UInt64.toNat_one,
      Nat.mod_eq_of_lt (by omega)]
    exact eq_comm
  next hge =>
    simp only [reduceCtorEq, false_iff]
    omega

theorem lt_of_nextExpected {last n : UInt64} (h : nextExpected last = some n) :
    last < n := by
  rw [nextExpected_eq_some_iff] at h
  rw [UInt64.lt_iff_toNat_lt]
  omega

/-- No number lies between the last one printed and the one in turn. -/
theorem le_of_nextExpected {last n k : UInt64}
    (h : nextExpected last = some n) (hk : last < k) : n ≤ k := by
  rw [nextExpected_eq_some_iff] at h
  rw [UInt64.lt_iff_toNat_lt] at hk
  rw [UInt64.le_iff_toNat_le]
  omega

theorem mem_buffer_iff {m p : Message} {l : List Message}
    (hsorted : l.Pairwise (fun p q => p.number < q.number)) :
    p ∈ buffer m l ↔ p = m ∨ (p ∈ l ∧ p.number ≠ m.number) := by
  induction l with
  | nil => simp [buffer]
  | cons q rest ih =>
      obtain ⟨hq, hrest⟩ := List.pairwise_cons.mp hsorted
      simp only [buffer]
      split
      next hlt =>
        have hne : ∀ r ∈ q :: rest, r.number ≠ m.number := by
          intro r hr heq
          rcases List.mem_cons.mp hr with rfl | hr
          · exact UInt64.lt_irrefl _ (heq ▸ hlt)
          · exact UInt64.lt_irrefl _ (UInt64.lt_trans (heq ▸ hlt) (hq r hr))
        simp only [List.mem_cons] at hne ⊢
        grind
      next hge =>
        split
        next heq =>
          have hne : ∀ r ∈ rest, r.number ≠ m.number := by
            intro r hr hrm
            exact UInt64.lt_irrefl _ (hrm ▸ heq ▸ hq r hr)
          simp only [List.mem_cons]
          grind
        next hne =>
          simp only [List.mem_cons, ih hrest]
          grind

theorem buffer_sorted {m : Message} {l : List Message}
    (hsorted : l.Pairwise (fun p q => p.number < q.number)) :
    (buffer m l).Pairwise (fun p q => p.number < q.number) := by
  induction l with
  | nil => simp [buffer]
  | cons q rest ih =>
      obtain ⟨hq, hrest⟩ := List.pairwise_cons.mp hsorted
      simp only [buffer]
      split
      next hlt =>
        apply List.pairwise_cons.mpr
        refine ⟨?_, hsorted⟩
        intro r hr
        rcases List.mem_cons.mp hr with rfl | hr
        · exact hlt
        · exact UInt64.lt_trans hlt (hq r hr)
      next hge =>
        split
        next heq =>
          apply List.pairwise_cons.mpr
          exact ⟨fun r hr => heq ▸ hq r hr, hrest⟩
        next hne =>
          apply List.pairwise_cons.mpr
          refine ⟨?_, ih hrest⟩
          intro r hr
          rcases (mem_buffer_iff hrest).mp hr with rfl | ⟨hr, -⟩
          · rw [UInt64.not_lt] at hge
            exact UInt64.lt_of_le_of_ne hge (Ne.symm hne)
          · exact hq r hr

theorem buffer_of_forall_lt {m : Message} {l : List Message}
    (h : ∀ p ∈ l, m.number < p.number) : buffer m l = m :: l := by
  cases l with
  | nil => rfl
  | cons p rest => simp [buffer, h p (by simp)]

theorem drain_append (last : UInt64) (l : List Message) :
    (drain last l).1 ++ (drain last l).2.pending = l := by
  induction l generalizing last with
  | nil => simp [drain]
  | cons p rest ih =>
      simp only [drain]
      split
      · simp [ih]
      · simp

theorem drain_lastPrinted (last : UInt64) (l : List Message) :
    (drain last l).2.lastPrinted =
      ((drain last l).1.getLast?.map Message.number).getD last := by
  induction l generalizing last with
  | nil => simp [drain]
  | cons p rest ih =>
      simp only [drain]
      split
      · rw [List.getLast?_cons, ih]
        cases (drain p.number rest).1.getLast? <;> rfl
      · simp

theorem drain_blocked {last : UInt64} {l : List Message}
    (hsorted : l.Pairwise (fun p q => p.number < q.number))
    (hlate : ∀ p ∈ l, last < p.number) :
    ∀ p ∈ (drain last l).2.pending,
      nextExpected (drain last l).2.lastPrinted ≠ some p.number := by
  induction l generalizing last with
  | nil => simp [drain]
  | cons q rest ih =>
      obtain ⟨hq, hrest⟩ := List.pairwise_cons.mp hsorted
      simp only [drain]
      split
      · exact ih hrest hq
      next hturn =>
        intro p hp hnext
        rcases List.mem_cons.mp hp with rfl | hp
        · exact hturn hnext
        · have hle := le_of_nextExpected hnext (hlate q (by simp))
          exact absurd (UInt64.lt_of_lt_of_le (hq p hp) hle) (UInt64.lt_irrefl _)

/-- A buffer in which nothing has its turn stays as it is. -/
theorem drain_of_blocked {last : UInt64} {l : List Message}
    (h : ∀ p ∈ l, nextExpected last ≠ some p.number) :
    drain last l = ([], { lastPrinted := last, pending := l }) := by
  cases l with
  | nil => rfl
  | cons p rest => simp [drain, h p (by simp)]

/-- What may be printed by an operation: the buffer with the message that
arrives, unless that one is stale. -/
def candidates (s : Reassembly) : Operation → List Message
  | .accept m => if s.lastPrinted < m.number then buffer m s.pending else s.pending
  | .flush => s.pending

theorem candidates_sorted {s : Reassembly} (hs : s.WellFormed) (op : Operation) :
    (s.candidates op).Pairwise (fun p q => p.number < q.number) := by
  cases op with
  | accept m =>
      simp only [candidates]
      split
      · exact buffer_sorted hs.sorted
      · exact hs.sorted
  | flush => exact hs.sorted

theorem mem_candidates_accept_iff {s : Reassembly} (hs : s.WellFormed) {m p : Message} :
    p ∈ s.candidates (.accept m) ↔
      (p = m ∧ s.lastPrinted < m.number) ∨ (p ∈ s.pending ∧ p.number ≠ m.number) := by
  simp only [candidates]
  split
  next hlt =>
    rw [mem_buffer_iff hs.sorted]
    simp [hlt]
  next hge =>
    have hne : p ∈ s.pending → p.number ≠ m.number := fun hp heq =>
      hge (heq ▸ hs.late p hp)
    simp only [hge, and_false, false_or]
    exact ⟨fun hp => ⟨hp, hne hp⟩, And.left⟩

theorem candidates_late {s : Reassembly} (hs : s.WellFormed) (op : Operation) :
    ∀ p ∈ s.candidates op, s.lastPrinted < p.number := by
  intro p hp
  cases op with
  | accept m =>
      rcases (mem_candidates_accept_iff hs).mp hp with ⟨rfl, hlt⟩ | ⟨hp, -⟩
      · exact hlt
      · exact hs.late p hp
  | flush => exact hs.late p hp

/-- A message in turn is printed from the front of the buffer like any other. -/
theorem accept_eq_drain {s : Reassembly} (hs : s.WellFormed) (m : Message) :
    s.accept m = drain s.lastPrinted (s.candidates (.accept m)) := by
  simp only [accept, candidates]
  split
  next hturn =>
    have hlt := lt_of_nextExpected hturn
    have hfront : ∀ p ∈ s.pending, m.number < p.number := by
      intro p hp
      apply UInt64.lt_of_le_of_ne (le_of_nextExpected hturn (hs.late p hp))
      intro heq
      exact hs.blocked p hp (heq ▸ hturn)
    rw [if_pos hlt, buffer_of_forall_lt hfront, drain, if_pos hturn]
  next hturn =>
    split <;> rfl

/-- What one operation does: a front part of the candidates is printed and the
rest waits on. -/
theorem perform_spec {s : Reassembly} (hs : s.WellFormed) (op : Operation) :
    (s.perform op).1 ++ (s.perform op).2.pending = s.candidates op ∧
      (s.perform op).2.lastPrinted =
        ((s.perform op).1.getLast?.map Message.number).getD s.lastPrinted := by
  cases op with
  | accept m =>
      rw [perform, accept_eq_drain hs]
      exact ⟨drain_append _ _, drain_lastPrinted _ _⟩
  | flush => simp [perform, flush, candidates]

theorem perform_flush_pending (s : Reassembly) : (s.perform .flush).2.pending = [] := rfl

theorem accept_of_le {s : Reassembly} (hs : s.WellFormed) {m : Message}
    (hstale : m.number ≤ s.lastPrinted) : s.accept m = ([], s) := by
  rw [accept_eq_drain hs, candidates, if_neg (UInt64.not_lt.mpr hstale)]
  exact drain_of_blocked hs.blocked

/-! ## Printed and waiting candidates -/

variable {s : Reassembly} {p : Message}

theorem lastPrinted_mono (hs : s.WellFormed) (op : Operation) :
    s.lastPrinted ≤ (s.perform op).2.lastPrinted := by
  obtain ⟨hsplit, hlast⟩ := perform_spec hs op
  rw [hlast]
  cases hend : (s.perform op).1.getLast? with
  | none => exact UInt64.le_refl _
  | some q =>
      have hq : q ∈ s.candidates op := by
        rw [← hsplit]
        exact List.mem_append_left _ (List.mem_of_getLast? hend)
      exact UInt64.le_of_lt (candidates_late hs op q hq)

theorem le_lastPrinted_of_mem_printed (hs : s.WellFormed) {op : Operation}
    (hp : p ∈ (s.perform op).1) : p.number ≤ (s.perform op).2.lastPrinted := by
  obtain ⟨hsplit, hlast⟩ := perform_spec hs op
  have hsorted := candidates_sorted hs op
  rw [← hsplit, List.pairwise_append] at hsorted
  obtain ⟨front, q, hfront⟩ := List.eq_nil_or_concat (s.perform op).1 |>.resolve_left
    (List.ne_nil_of_mem hp)
  rw [hlast]
  have hinit := hsorted.1
  rw [hfront, List.concat_eq_append, List.pairwise_append] at hinit
  rw [hfront, List.concat_eq_append, List.mem_append] at hp
  simp only [hfront, List.concat_eq_append, List.getLast?_append, List.getLast?_singleton,
    Option.some_or, Option.map_some, Option.getD_some]
  rcases hp with hp | hp
  · exact UInt64.le_of_lt (hinit.2.2 p hp q (by simp))
  · rw [List.mem_singleton.mp hp]
    exact UInt64.le_refl _

theorem perform_wellFormed (hs : s.WellFormed) (op : Operation) :
    (s.perform op).2.WellFormed := by
  obtain ⟨hsplit, hlast⟩ := perform_spec hs op
  have hsorted := candidates_sorted hs op
  rw [← hsplit, List.pairwise_append] at hsorted
  refine ⟨hsorted.2.1, ?_, ?_⟩
  · intro q hq
    rw [hlast]
    cases hend : (s.perform op).1.getLast? with
    | none =>
        apply candidates_late hs op
        rw [← hsplit]
        exact List.mem_append_right _ hq
    | some r => exact hsorted.2.2 r (List.mem_of_getLast? hend) q hq
  · cases op with
    | accept m =>
        rw [perform, accept_eq_drain hs]
        exact drain_blocked (candidates_sorted hs _) (candidates_late hs _)
    | flush => simp [perform_flush_pending]

/-- A candidate is printed if the last line printed has come up to it. -/
theorem mem_printed_iff (hs : s.WellFormed) {op : Operation} :
    p ∈ (s.perform op).1 ↔
      p ∈ s.candidates op ∧ p.number ≤ (s.perform op).2.lastPrinted := by
  have hsplit := (perform_spec hs op).1
  constructor
  · intro hp
    refine ⟨?_, le_lastPrinted_of_mem_printed hs hp⟩
    rw [← hsplit]
    exact List.mem_append_left _ hp
  · rintro ⟨hp, hle⟩
    rw [← hsplit] at hp
    apply (List.mem_append.mp hp).resolve_right
    intro hq
    exact UInt64.not_lt.mpr hle ((perform_wellFormed hs op).late p hq)

/-- A candidate waits on if the last line printed has not come up to it. -/
theorem mem_pending_iff (hs : s.WellFormed) {op : Operation} :
    p ∈ (s.perform op).2.pending ↔
      p ∈ s.candidates op ∧ (s.perform op).2.lastPrinted < p.number := by
  have hsplit := (perform_spec hs op).1
  constructor
  · intro hp
    refine ⟨?_, (perform_wellFormed hs op).late p hp⟩
    rw [← hsplit]
    exact List.mem_append_right _ hp
  · rintro ⟨hp, hlt⟩
    rw [← hsplit] at hp
    apply (List.mem_append.mp hp).resolve_left
    intro hq
    exact UInt64.not_lt.mpr (le_lastPrinted_of_mem_printed hs hq) hlt

end DevMachine.Logs.Reassembly

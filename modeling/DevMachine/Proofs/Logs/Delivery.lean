import DevMachine.Proofs.Logs.ReassemblyRun
import Mathlib.Data.List.Dedup
import Mathlib.Data.List.Induction

/-!
# Delivery in any order

As long as nothing is flushed, the last line printed moves only over numbers
that have all arrived.  The first message of a number is therefore never stale,
and a run that is flushed at its very end prints what arrived at all.  The
order of delivery and repetitions leave no trace in it.
-/

namespace DevMachine.Logs

/-- Equal numbers carry equal texts. -/
def Consistent (arrivals : List Message) : Prop :=
  ∀ p ∈ arrivals, ∀ q ∈ arrivals, p.number = q.number → p.text = q.text

/-- The distinct messages with positive numbers, in ascending order. -/
def inOrder (arrivals : List Message) : List Message :=
  ((arrivals.filter fun m => 0 < m.number).dedup).mergeSort fun p q => p.number ≤ q.number

theorem mem_inOrder_iff {arrivals : List Message} {m : Message} :
    m ∈ inOrder arrivals ↔ m ∈ arrivals ∧ 0 < m.number := by
  simp [inOrder]

theorem Consistent.eq {arrivals : List Message} (h : Consistent arrivals) {p q : Message}
    (hp : p ∈ arrivals) (hq : q ∈ arrivals) (hnumber : p.number = q.number) : p = q := by
  have htext := h p hp q hq hnumber
  cases p
  cases q
  simp_all

theorem inOrder_sorted {arrivals : List Message} (h : Consistent arrivals) :
    (inOrder arrivals).Pairwise (fun p q => p.number < q.number) := by
  have hle : (inOrder arrivals).Pairwise (fun p q => p.number ≤ q.number) := by
    have hsorted := @List.pairwise_mergeSort Message (fun p q => p.number ≤ q.number)
      (fun p q r hpq hqr => by
        simp only [decide_eq_true_eq] at hpq hqr ⊢
        exact UInt64.le_trans hpq hqr)
      (fun p q => by simpa using UInt64.le_total p.number q.number)
      (arrivals.filter fun m => 0 < m.number).dedup
    simpa [inOrder] using hsorted
  have hnodup : (inOrder arrivals).Nodup :=
    (List.mergeSort_perm _ _).nodup_iff.mpr (List.nodup_dedup _)
  apply (hle.and hnodup).imp_of_mem
  rintro p q hp hq ⟨hpq, hne⟩
  apply UInt64.lt_of_le_of_ne hpq
  exact fun heq => hne (h.eq (mem_inOrder_iff.mp hp).1 (mem_inOrder_iff.mp hq).1 heq)

theorem eq_of_sorted_of_mem_iff {l l' : List Message}
    (hl : l.Pairwise (fun p q => p.number < q.number))
    (hl' : l'.Pairwise (fun p q => p.number < q.number)) (hmem : ∀ m, m ∈ l ↔ m ∈ l') :
    l = l' := by
  have hne {p q : Message} (hlt : p.number < q.number) : p ≠ q := by
    rintro rfl
    exact UInt64.lt_irrefl _ hlt
  have hperm : l.Perm l' :=
    (List.perm_ext_iff_of_nodup (hl.imp hne) (hl'.imp hne)).mpr hmem
  apply hperm.eq_of_pairwise _ hl hl'
  intro p q _ _ hpq hqp
  exact absurd (UInt64.lt_trans hpq hqp) (UInt64.lt_irrefl _)

namespace Reassembly

/-- The run that accepts some messages and is flushed at the end. -/
def delivery (arrivals : List Message) : List Operation := arrivals.map .accept ++ [.flush]

theorem mem_of_latest {m : Message} {ops : List Operation}
    (h : latest m.number ops = some m.text) : .accept m ∈ ops := by
  obtain ⟨op, hop, htext⟩ := List.mem_filterMap.mp (List.mem_of_getLast? h)
  cases op with
  | flush => cases htext
  | accept a =>
      simp only [Operation.text?, Option.ite_none_right_eq_some, Option.some.injEq] at htext
      have heq : a = m := by
        cases a
        cases m
        simp_all
      rwa [← heq]

theorem Tracks.arrived_of_printed {s : Reassembly} {history : List Operation}
    (hs : s.Tracks history) {ops : List Operation} {m : Message} (hm : m ∈ s.printed ops) :
    .accept m ∈ history ++ ops := by
  induction ops generalizing s history with
  | nil => simp [printed] at hm
  | cons op ops ih =>
      rw [← List.singleton_append, ← List.append_assoc]
      rcases List.mem_append.mp hm with hm | hm
      · exact List.mem_append_left _ (mem_of_latest (hs.latest_of_printed hm))
      · exact ih (hs.perform op) hm

theorem mem_drain_numbers {last n : UInt64} {l : List Message} (hlast : last < n)
    (hn : n ≤ (drain last l).2.lastPrinted) : n ∈ (drain last l).1.map Message.number := by
  induction l generalizing last with
  | nil => exact absurd hn (UInt64.not_le.mpr hlast)
  | cons p rest ih =>
      simp only [drain] at hn ⊢
      split at hn
      next hturn =>
        rw [if_pos hturn, List.map_cons, List.mem_cons]
        by_cases heq : n = p.number
        · exact .inl heq
        · have hlt := UInt64.lt_of_le_of_ne (le_of_nextExpected hturn hlast) (Ne.symm heq)
          exact .inr (ih hlt hn)
      next => exact absurd hn (UInt64.not_le.mpr hlast)

/-- The last line printed has come only over numbers that have arrived. -/
theorem arrived_of_le_lastPrinted (arrivals : List Message) {n : UInt64} (hpos : 0 < n)
    (hn : n ≤ (after {} (arrivals.map .accept)).lastPrinted) :
    n ∈ arrivals.map Message.number := by
  induction arrivals using List.reverseRecOn with
  | nil => exact absurd hn (UInt64.not_le.mpr hpos)
  | append_singleton arrivals m ih =>
      have htracks := tracks_initial.after (arrivals.map .accept)
      rw [List.map_append, after_append] at hn
      rw [List.map_append, List.mem_append]
      by_cases hold : n ≤ (after {} (arrivals.map .accept)).lastPrinted
      · exact .inl (ih hold)
      · have hlast := UInt64.not_le.mp hold
        change n ≤ ((after {} (arrivals.map .accept)).accept m).2.lastPrinted at hn
        rw [accept_eq_drain htracks.wellFormed] at hn
        obtain ⟨p, hp, rfl⟩ := List.mem_map.mp (mem_drain_numbers hlast hn)
        rw [← accept_eq_drain htracks.wellFormed] at hp
        have hprinted : p ∈ printed (after {} (arrivals.map .accept)) [.accept m] := by
          simpa [printed, perform] using hp
        have harrived := htracks.arrived_of_printed hprinted
        simp only [List.nil_append, List.mem_append, List.mem_map, List.mem_singleton,
          Operation.accept.injEq, exists_eq_right] at harrived
        rcases harrived with hmem | rfl
        · exact .inl (List.mem_map_of_mem hmem)
        · exact .inr (by simp)

theorem arrivedFresh_delivery_iff (arrivals : List Message) (n : UInt64) :
    ArrivedFresh {} (delivery arrivals) n ↔ 0 < n ∧ n ∈ arrivals.map Message.number := by
  constructor
  · rintro ⟨before, m, rest, hops, rfl, hlt⟩
    have hmem : Operation.accept m ∈ delivery arrivals := by simp [hops]
    refine ⟨UInt64.lt_of_le_of_lt UInt64.zero_le hlt, ?_⟩
    exact List.mem_map_of_mem (by simpa [delivery] using hmem)
  · rintro ⟨hpos, hn⟩
    -- the first message of the number is looked at: none of them came before it
    obtain ⟨numbers, rest, hsplit, hfirst⟩ := List.eq_append_cons_of_mem hn
    obtain ⟨before, others, rfl, rfl, hothers⟩ := List.map_eq_append_iff.mp hsplit
    obtain ⟨m, later, rfl, rfl, -⟩ := List.map_eq_cons_iff.mp hothers
    refine ⟨before.map .accept, m, later.map .accept ++ [.flush], by simp [delivery], rfl, ?_⟩
    exact UInt64.not_le.mp fun hle => hfirst (arrived_of_le_lastPrinted before hpos hle)

theorem mem_printed_delivery_iff {arrivals : List Message} (h : Consistent arrivals)
    (m : Message) : m ∈ printed {} (delivery arrivals) ↔ m ∈ arrivals ∧ 0 < m.number := by
  have harrived : ∀ p ∈ printed {} (delivery arrivals), p ∈ arrivals := by
    intro p hp
    simpa [delivery] using tracks_initial.arrived_of_printed hp
  have hnumbers := mem_printed_numbers_iff wellFormed_initial (arrivals.map .accept) m.number
  change _ ∈ (printed {} (delivery arrivals)).map _ ↔ _ ∨ ArrivedFresh {} (delivery arrivals) _
    at hnumbers
  rw [arrivedFresh_delivery_iff] at hnumbers
  constructor
  · intro hm
    have hpos := (hnumbers.mp (List.mem_map_of_mem hm)).resolve_left (by simp)
    exact ⟨harrived m hm, hpos.1⟩
  · rintro ⟨hm, hpos⟩
    obtain ⟨p, hp, heq⟩ := List.mem_map.mp (hnumbers.mpr (.inr ⟨hpos, List.mem_map_of_mem hm⟩))
    rwa [← h.eq (harrived p hp) hm heq]

theorem printed_delivery {arrivals : List Message} (h : Consistent arrivals) :
    printed {} (delivery arrivals) = inOrder arrivals := by
  apply eq_of_sorted_of_mem_iff (printed_sorted wellFormed_initial _) (inOrder_sorted h)
  intro m
  rw [mem_printed_delivery_iff h, mem_inOrder_iff]

/-- A delivery leaves nothing behind, and the last line it printed is the last
of its messages in their order. -/
theorem after_delivery {arrivals : List Message} (h : Consistent arrivals) :
    after {} (delivery arrivals) =
      { lastPrinted := ((inOrder arrivals).getLast?.map Message.number).getD 0 } := by
  have hlast := after_lastPrinted wellFormed_initial (delivery arrivals)
  have hpending : (after {} (delivery arrivals)).pending = [] := by
    rw [delivery, after_append]
    exact perform_flush_pending _
  rw [printed_delivery h] at hlast
  exact congrArg₂ Reassembly.mk hlast hpending

/-- Messages that are delivered in any order and any number of times, and then
flushed, are printed once each in ascending order, apart from those numbered 0.
Every delivery of the same messages prints the same lines and leaves the same
state behind. -/
theorem delivery_prints_in_order (arrivals : List Message) (h : Consistent arrivals) :
    printed {} (delivery arrivals) = inOrder arrivals ∧
      (inOrder arrivals).Pairwise (fun p q => p.number < q.number) ∧
      (∀ m, m ∈ inOrder arrivals ↔ m ∈ arrivals ∧ 0 < m.number) ∧
      ∀ redelivered, (∀ m, m ∈ redelivered ↔ m ∈ arrivals) →
        printed {} (delivery redelivered) = printed {} (delivery arrivals) ∧
          after {} (delivery redelivered) = after {} (delivery arrivals) ∧
          (after {} (delivery redelivered)).pending = [] := by
  refine ⟨printed_delivery h, inOrder_sorted h, fun _ => mem_inOrder_iff, ?_⟩
  intro redelivered hsame
  have h' : Consistent redelivered := fun p hp q hq =>
    h p ((hsame p).mp hp) q ((hsame q).mp hq)
  have heq : inOrder redelivered = inOrder arrivals := by
    apply eq_of_sorted_of_mem_iff (inOrder_sorted h') (inOrder_sorted h)
    intro m
    rw [mem_inOrder_iff, mem_inOrder_iff, hsame m]
  rw [printed_delivery h, printed_delivery h', after_delivery h, after_delivery h', heq]
  exact ⟨rfl, rfl, rfl⟩

/-- Two deliveries with gaps, a repetition and the number 0. -/
theorem delivery_prints_in_order_past_gaps :
    let a : Message := ⟨2, "a"⟩
    let b : Message := ⟨3, "b"⟩
    let c : Message := ⟨18446744073709551615, "c"⟩
    let zero : Message := ⟨0, "zero"⟩
    Consistent [c, b, zero, b, a] ∧
      printed {} (delivery [c, b, zero, b, a]) = [a, b, c] ∧
      printed {} (delivery [a, zero, c, c, b]) = [a, b, c] := by
  intro a b c zero
  have h : Consistent [c, b, zero, b, a] := by
    unfold Consistent
    decide +kernel
  have hprinted : printed {} (delivery [c, b, zero, b, a]) = [a, b, c] := by decide +kernel
  obtain ⟨-, -, -, hagain⟩ := delivery_prints_in_order _ h
  have hsame : ∀ m, m ∈ [a, zero, c, c, b] ↔ m ∈ [c, b, zero, b, a] := by
    clear_value a b c zero
    simp only [List.mem_cons, List.not_mem_nil, or_false]
    grind
  exact ⟨h, hprinted, (hagain _ hsame).1.trans hprinted⟩

end Reassembly

end DevMachine.Logs

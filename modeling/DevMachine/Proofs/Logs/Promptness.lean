import DevMachine.Proofs.Logs.Delivery
import Mathlib.Order.Bounds.Defs

/-!
# No line waits without reason

The buffer never holds the number in turn, so a line that waits has a predecessor
that was not printed.  Without a flush the last line printed is therefore as far as
the numbers have arrived without a gap.
-/

namespace DevMachine.Logs.Reassembly

variable {s : Reassembly} {n : UInt64} {p : Message}

/-- The message that waits under a number. -/
def waiting (s : Reassembly) (n : UInt64) : Option Message := s.pending.find? (·.number = n)

theorem WellFormed.nodup_numbers (hs : s.WellFormed) :
    (s.pending.map Message.number).Nodup := by
  rw [List.Nodup, List.pairwise_map]
  exact hs.sorted.imp fun hlt => UInt64.ne_of_lt hlt

theorem waiting_eq_some_iff (hs : s.WellFormed) :
    s.waiting n = some p ↔ p ∈ s.pending ∧ p.number = n := by
  constructor
  · intro h
    exact ⟨List.mem_of_find?_eq_some h, by simpa using List.find?_some h⟩
  · rintro ⟨hp, rfl⟩
    obtain ⟨q, hq⟩ : ∃ q, s.waiting p.number = some q := by
      rw [← Option.isSome_iff_exists, waiting, List.find?_isSome]
      exact ⟨p, hp, by simp⟩
    have hnumber : q.number = p.number := by simpa using List.find?_some hq
    rw [hq, List.inj_on_of_nodup_map hs.nodup_numbers (List.mem_of_find?_eq_some hq) hp hnumber]

theorem isSome_waiting_iff (hs : s.WellFormed) :
    (s.waiting n).isSome ↔ n ∈ s.pending.map Message.number := by
  rw [Option.isSome_iff_exists, List.mem_map]
  exact exists_congr fun p => waiting_eq_some_iff hs

theorem exists_nextExpected {last k : UInt64} (h : last < k) : ∃ n, nextExpected last = some n := by
  refine ⟨last + 1, nextExpected_eq_some_iff.mpr ?_⟩
  rw [UInt64.lt_iff_toNat_lt] at h
  have hk := k.toNat_lt
  rw [UInt64.toNat_add, UInt64.toNat_one, Nat.mod_eq_of_lt (by omega)]

/-- Whatever lies behind a number that misses its successor is no farther than
that number, if it is reached without a gap. -/
theorem le_of_missing_next {last k : UInt64} {P : UInt64 → Prop}
    (hmissing : ∀ n, nextExpected last = some n → ¬ P n)
    (hreached : ∀ n, last < n → n ≤ k → P n) : k ≤ last := by
  rw [← UInt64.not_lt]
  intro hlt
  obtain ⟨n, hn⟩ := exists_nextExpected hlt
  exact hmissing n hn (hreached n (lt_of_nextExpected hn) (le_of_nextExpected hn hlt))

/-- The lines printed from the front of the buffer bear consecutive numbers. -/
theorem drain_numbers (last : UInt64) (l : List Message) :
    (drain last l).1.map (·.number.toNat) =
        List.range' (last.toNat + 1) (drain last l).1.length ∧
      (drain last l).2.lastPrinted.toNat = last.toNat + (drain last l).1.length := by
  induction l generalizing last with
  | nil => simp [drain]
  | cons p rest ih =>
      simp only [drain]
      split
      next hturn =>
        obtain ⟨hnumbers, hlast⟩ := ih p.number
        have hp := nextExpected_eq_some_iff.mp hturn
        rw [List.map_cons, List.length_cons, List.range'_succ, hnumbers, hlast, hp]
        exact ⟨rfl, by omega⟩
      next => simp

/-- What the reassembler does with a message: it prints the longest consecutive
run of numbers behind the last line printed that wait or arrive with it. -/
structure PrintsRun (s : Reassembly) (m : Message) : Prop where
  /-- The run goes as far as all numbers are there. -/
  longest : IsGreatest
    {k | s.lastPrinted ≤ k ∧
      ∀ n, s.lastPrinted < n → n ≤ k → n = m.number ∨ (s.waiting n).isSome}
    (s.accept m).2.lastPrinted
  /-- Each number of the run is printed once, in order. -/
  numbers : (s.accept m).1.map (·.number.toNat) =
    List.range' (s.lastPrinted.toNat + 1)
      ((s.accept m).2.lastPrinted.toNat - s.lastPrinted.toNat)
  /-- A line is the new message or the one that waited under its number. -/
  lines : ∀ p ∈ (s.accept m).1,
    some p = if p.number = m.number then some m else s.waiting p.number
  /-- What lies behind the run waits on, the new message included. -/
  rest : ∀ n, (s.accept m).2.waiting n =
    if n ≤ (s.accept m).2.lastPrinted then none
    else if n = m.number then some m else s.waiting n
  /-- A message that is not in turn prints nothing. -/
  silent : m.number.toNat ≠ s.lastPrinted.toNat + 1 →
    (s.accept m).1 = [] ∧ (s.accept m).2.lastPrinted = s.lastPrinted

theorem mem_candidates_iff_there (hs : s.WellFormed) {m : Message} (hn : s.lastPrinted < n) :
    n ∈ (s.candidates (.accept m)).map Message.number ↔
      n = m.number ∨ (s.waiting n).isSome := by
  rw [mem_candidates_numbers_iff hs, isSome_waiting_iff hs, or_comm]
  refine or_congr_left ?_
  simp only [Operation.accept.injEq]
  constructor
  · rintro ⟨_, rfl, rfl, -⟩
    rfl
  · rintro rfl
    exact ⟨m, rfl, rfl, hn⟩

theorem mem_pending_accept_iff (hs : s.WellFormed) {m : Message} :
    p ∈ (s.accept m).2.pending ↔
      p ∈ s.candidates (.accept m) ∧ (s.accept m).2.lastPrinted < p.number :=
  @mem_pending_iff s p hs (.accept m)

theorem accept_longest (hs : s.WellFormed) (m : Message) :
    IsGreatest
      {k | s.lastPrinted ≤ k ∧
        ∀ n, s.lastPrinted < n → n ≤ k → n = m.number ∨ (s.waiting n).isSome}
      (s.accept m).2.lastPrinted := by
  have hmono : s.lastPrinted ≤ (s.accept m).2.lastPrinted := lastPrinted_mono hs (.accept m)
  constructor
  · refine ⟨hmono, ?_⟩
    intro n hlast hn
    rw [accept_eq_drain hs] at hn
    rw [← mem_candidates_iff_there hs hlast,
      ← drain_append s.lastPrinted (s.candidates (.accept m)), List.map_append]
    exact List.mem_append_left _ (mem_drain_numbers hlast hn)
  · rintro k ⟨-, hthere⟩
    -- the number behind the run would wait after it
    refine le_of_missing_next
      (P := fun n => n = m.number ∨ (s.waiting n).isSome) ?_ ?_
    · intro n hnext hn
      have hlt := lt_of_nextExpected hnext
      rw [← mem_candidates_iff_there hs (UInt64.lt_of_le_of_lt hmono hlt), List.mem_map] at hn
      obtain ⟨p, hp, rfl⟩ := hn
      have hwaits : p ∈ (s.accept m).2.pending := (mem_pending_accept_iff hs).mpr ⟨hp, hlt⟩
      exact (perform_wellFormed hs (.accept m)).blocked p hwaits hnext
    · exact fun n hn hle => hthere n (UInt64.lt_of_le_of_lt hmono hn) hle

theorem accept_rest (hs : s.WellFormed) (m : Message) (n : UInt64) :
    (s.accept m).2.waiting n =
      if n ≤ (s.accept m).2.lastPrinted then none
      else if n = m.number then some m else s.waiting n := by
  have hmono : s.lastPrinted ≤ (s.accept m).2.lastPrinted := lastPrinted_mono hs (.accept m)
  have hs' : (s.accept m).2.WellFormed := perform_wellFormed hs (.accept m)
  apply Option.ext
  intro p
  rw [waiting_eq_some_iff hs', mem_pending_accept_iff hs, mem_candidates_accept_iff hs]
  split
  next hle =>
    simp only [reduceCtorEq, iff_false]
    rintro ⟨⟨-, hlt⟩, rfl⟩
    exact UInt64.not_lt.mpr hle hlt
  next hgt =>
    have hlt := UInt64.not_le.mp hgt
    split
    next heq =>
      subst heq
      have hfresh := UInt64.lt_of_le_of_lt hmono hlt
      simp only [hfresh, and_true, Option.some.injEq]
      grind
    next hne =>
      rw [waiting_eq_some_iff hs]
      grind

theorem accept_lines (hs : s.WellFormed) {m : Message} (hp : p ∈ (s.accept m).1) :
    some p = if p.number = m.number then some m else s.waiting p.number := by
  have hcandidate : p ∈ s.candidates (.accept m) := ((mem_printed_iff hs).mp hp).1
  rcases (mem_candidates_accept_iff hs).mp hcandidate with ⟨rfl, -⟩ | ⟨hwaits, hne⟩
  · rw [if_pos rfl]
  · rw [if_neg hne]
    exact ((waiting_eq_some_iff hs).mpr ⟨hwaits, rfl⟩).symm

theorem accept_silent (hs : s.WellFormed) {m : Message}
    (hturn : nextExpected s.lastPrinted ≠ some m.number) :
    (s.accept m).1 = [] ∧ (s.accept m).2.lastPrinted = s.lastPrinted := by
  have hblocked : ∀ p ∈ s.candidates (.accept m), nextExpected s.lastPrinted ≠ some p.number := by
    intro p hp
    rcases (mem_candidates_accept_iff hs).mp hp with ⟨rfl, -⟩ | ⟨hp, -⟩
    · exact hturn
    · exact hs.blocked p hp
  rw [accept_eq_drain hs, drain_of_blocked hblocked]
  exact ⟨rfl, rfl⟩

theorem WellFormed.printsRun (hs : s.WellFormed) (m : Message) : s.PrintsRun m where
  longest := accept_longest hs m
  numbers := by
    obtain ⟨hnumbers, hlast⟩ := drain_numbers s.lastPrinted (s.candidates (.accept m))
    rw [accept_eq_drain hs, hlast, hnumbers, Nat.add_sub_cancel_left]
  lines := fun p hp => accept_lines hs hp
  rest := accept_rest hs m
  silent := by
    rw [Ne, ← nextExpected_eq_some_iff]
    exact accept_silent hs

theorem lastPrinted_le_after (hs : s.WellFormed) (ops : List Operation) :
    s.lastPrinted ≤ (s.after ops).lastPrinted := by
  induction ops generalizing s with
  | nil => exact UInt64.le_refl _
  | cons op ops ih =>
      exact UInt64.le_trans (lastPrinted_mono hs op) (ih (perform_wellFormed hs op))

theorem le_lastPrinted_of_mem_run (hs : s.WellFormed) {ops : List Operation}
    (hp : p ∈ s.printed ops) : p.number ≤ (s.after ops).lastPrinted := by
  induction ops generalizing s with
  | nil => cases hp
  | cons op ops ih =>
      have hs' := perform_wellFormed hs op
      rcases List.mem_append.mp hp with hp | hp
      · exact UInt64.le_trans (le_lastPrinted_of_mem_printed hs hp) (lastPrinted_le_after hs' ops)
      · exact ih hs' hp

/-- Before each line that waits there is one that was not printed. -/
theorem exists_unprinted_of_waiting (ops : List Operation)
    (hp : (after {} ops).waiting n = some p) :
    ∃ k, 0 < k ∧ k < n ∧ k ∉ (printed {} ops).map Message.number := by
  have hs : (after {} ops).WellFormed := after_wellFormed wellFormed_initial ops
  obtain ⟨hmem, rfl⟩ := (waiting_eq_some_iff hs).mp hp
  have hlate := hs.late p hmem
  obtain ⟨k, hk⟩ := exists_nextExpected hlate
  have hlast := lt_of_nextExpected hk
  refine ⟨k, UInt64.lt_of_le_of_lt UInt64.zero_le hlast, ?_, ?_⟩
  · apply UInt64.lt_of_le_of_ne (le_of_nextExpected hk hlate)
    rintro rfl
    exact hs.blocked p hmem hk
  · intro hprinted
    obtain ⟨q, hq, rfl⟩ := List.mem_map.mp hprinted
    exact UInt64.not_lt.mpr (le_lastPrinted_of_mem_run wellFormed_initial hq) hlast

/-- The numbers that arrived in a run. -/
def Arrived (ops : List Operation) (n : UInt64) : Prop := ∃ text, .accept ⟨n, text⟩ ∈ ops

theorem exists_latest_of_arrived {ops : List Operation} (h : Arrived ops n) :
    ∃ text, latest n ops = some text := by
  obtain ⟨text, hmem⟩ := h
  have hne : ops.filterMap (Operation.text? n) ≠ [] := by
    apply List.ne_nil_of_mem (a := text)
    exact List.mem_filterMap.mpr ⟨_, hmem, by simp [Operation.text?]⟩
  exact ⟨_, List.getLast?_eq_some_getLast hne⟩

theorem not_arrived_of_nextExpected (ops : List Operation)
    (hnext : nextExpected (after {} ops).lastPrinted = some n) : ¬ Arrived ops n := by
  intro harrived
  obtain ⟨text, htext⟩ := exists_latest_of_arrived harrived
  have htracks := tracks_initial.after ops
  rw [List.nil_append] at htracks
  have hwaits : (⟨n, text⟩ : Message) ∈ (after {} ops).pending :=
    (htracks.waits_iff ⟨n, text⟩).mpr ⟨lt_of_nextExpected hnext, htext⟩
  exact htracks.wellFormed.blocked _ hwaits hnext

theorem eq_map_accept {ops : List Operation} (h : .flush ∉ ops) :
    ops = (ops.filterMap Operation.message?).map .accept := by
  induction ops with
  | nil => rfl
  | cons op ops ih =>
      simp only [List.mem_cons, not_or] at h
      cases op with
      | flush => exact absurd rfl h.1
      | accept m => exact congrArg (Operation.accept m :: ·) (ih h.2)

theorem isGreatest_lastPrinted {ops : List Operation} (h : .flush ∉ ops) :
    IsGreatest {k | ∀ n, 0 < n → n ≤ k → Arrived ops n} (after {} ops).lastPrinted := by
  constructor
  · intro n hpos hn
    rw [eq_map_accept h] at hn ⊢
    obtain ⟨m, hm, rfl⟩ := List.mem_map.mp (arrived_of_le_lastPrinted _ hpos hn)
    exact ⟨m.text, List.mem_map_of_mem hm⟩
  · intro k hk
    apply le_of_missing_next (fun n => not_arrived_of_nextExpected ops)
    exact fun n hn hle => hk n (UInt64.lt_of_le_of_lt UInt64.zero_le hn) hle

/-- At any moment of a run, each number waits once, under itself and behind the
number in turn; a message that arrives prints exactly what can be printed in
sequence; and a line waits only if one before it was not printed.  Without a
flush the last line printed is the greatest number up to which all have arrived. -/
theorem consecutive_lines_never_wait (ops : List Operation) :
    let s := after {} ops
    (s.pending.map Message.number).Nodup ∧
      (∀ n p, s.waiting n = some p →
        s.lastPrinted < n ∧ n.toNat ≠ s.lastPrinted.toNat + 1 ∧ p.number = n) ∧
      (∀ m, s.PrintsRun m) ∧
      (∀ n p, s.waiting n = some p →
        ∃ k, 0 < k ∧ k < n ∧ k ∉ (printed {} ops).map Message.number) ∧
      (.flush ∉ ops →
        IsGreatest {k | ∀ n, 0 < n → n ≤ k → Arrived ops n} s.lastPrinted) := by
  intro s
  have hs : s.WellFormed := after_wellFormed wellFormed_initial ops
  refine ⟨hs.nodup_numbers, ?_, hs.printsRun, ?_, isGreatest_lastPrinted⟩
  · intro n p hp
    obtain ⟨hmem, rfl⟩ := (waiting_eq_some_iff hs).mp hp
    refine ⟨hs.late p hmem, ?_, rfl⟩
    rw [Ne, ← nextExpected_eq_some_iff]
    exact hs.blocked p hmem
  · exact fun n p => exists_unprinted_of_waiting ops

/-- The gap at 2 is filled while 4 and a second copy of 3 wait. -/
example :
    (after {} [.accept ⟨3, "c"⟩, .accept ⟨1, "a"⟩, .accept ⟨4, "d"⟩, .accept ⟨3, "again"⟩,
      .accept ⟨6, "f"⟩]).accept ⟨2, "b"⟩ =
      ([⟨2, "b"⟩, ⟨3, "again"⟩, ⟨4, "d"⟩], { lastPrinted := 4, pending := [⟨6, "f"⟩] }) := by
  decide +kernel

end DevMachine.Logs.Reassembly

import DevMachine.Proofs.Logs.Promptness

/-!
# A flush counts upward

A flush prints what waits in the order of the buffer.  It could as well count
upward from the last line printed, one number at a time, and print whatever
waits under the number that it has come to.  The highest number has no successor:
once it is printed nothing happens any more.
-/

namespace DevMachine.Logs.Reassembly

variable {s : Reassembly} {n : UInt64} {p : Message}

/-- The state in which a message that waits has been printed. -/
def print (s : Reassembly) (p : Message) : Reassembly :=
  { lastPrinted := p.number, pending := s.pending.filter (·.number ≠ p.number) }

theorem sub_lt_of_nextExpected {last : UInt64} (h : nextExpected last = some n) :
    UInt64.size - n.toNat < UInt64.size - last.toNat := by
  have hsize : UInt64.size = 2 ^ 64 := rfl
  have hn := n.toNat_lt
  rw [nextExpected_eq_some_iff] at h
  omega

/-- Counts upward from behind a number, printing what waits and skipping gaps,
until nothing waits.  A count that would leave the range of numbers while
something waits has no result. -/
def countUp (reached : UInt64) (s : Reassembly) : Option (List Message × Reassembly) :=
  if s.pending = [] then some ([], s)
  else
    match _h : nextExpected reached with
    | none => none
    | some n =>
      match s.waiting n with
      | none => countUp n s
      | some p => (countUp n (s.print p)).map fun (printed, after) => (p :: printed, after)
termination_by UInt64.size - reached.toNat
decreasing_by all_goals exact sub_lt_of_nextExpected _h

theorem flush_of_empty (h : s.pending = []) : s.flush = ([], s) := by
  obtain ⟨last, pending⟩ := s
  obtain rfl : pending = [] := h
  rfl

theorem print_pending_of_first {rest : List Message} (h : s.pending = p :: rest)
    (hrest : ∀ q ∈ rest, p.number < q.number) : (s.print p).pending = rest := by
  rw [print, h, List.filter_cons_of_neg (by simp), List.filter_eq_self]
  intro q hq
  simpa using (UInt64.ne_of_lt (hrest q hq)).symm

/-- A flush prints the first message that waits and then the others. -/
theorem flush_of_first {rest : List Message} (h : s.pending = p :: rest)
    (hrest : ∀ q ∈ rest, p.number < q.number) :
    s.flush = (p :: (s.print p).flush.1, (s.print p).flush.2) := by
  have hlast : ((p :: rest).getLast?.map Message.number).getD s.lastPrinted =
      (rest.getLast?.map Message.number).getD p.number := by
    rw [List.getLast?_cons]
    cases rest.getLast? <;> rfl
  unfold flush
  rw [print_pending_of_first h hrest, h, hlast]
  rfl

/-- What waits under the number in turn is the first message of the buffer. -/
theorem first_of_waiting {last : UInt64} {q : Message} {rest : List Message}
    (hnext : nextExpected last = some n) (hp : s.waiting n = some p) (h : s.pending = q :: rest)
    (hrest : ∀ p ∈ rest, q.number < p.number) (hq : last < q.number) : p = q := by
  have hnumber : p.number = n := by simpa using List.find?_some hp
  have hmem : p ∈ q :: rest := h ▸ List.mem_of_find?_eq_some hp
  rcases List.mem_cons.mp hmem with rfl | hbehind
  · rfl
  · have hle : n ≤ q.number := le_of_nextExpected hnext hq
    rw [← hnumber] at hle
    exact absurd (hrest p hbehind) (UInt64.not_lt.mpr hle)

/-- Counting comes to the same as flushing, whatever number the count has come
to, as long as all that waits lies behind it. -/
theorem countUp_eq_flush (reached : UInt64)
    (hsorted : s.pending.Pairwise (fun p q => p.number < q.number))
    (hlate : ∀ p ∈ s.pending, reached < p.number) : countUp reached s = some s.flush := by
  fun_induction countUp reached s with
  | case1 reached s hempty => rw [flush_of_empty hempty]
  | case2 reached s hwaits hnone =>
      -- a message that waits has a number, so the count is not at the highest one
      obtain ⟨p, hp⟩ := List.exists_mem_of_ne_nil _ hwaits
      obtain ⟨n, hn⟩ := exists_nextExpected (hlate p hp)
      rw [hnone] at hn
      cases hn
  | case3 reached s hwaits n hn hgap ih =>
      have hlate' : ∀ p ∈ s.pending, n < p.number := by
        intro p hp
        apply UInt64.lt_of_le_of_ne (le_of_nextExpected hn (hlate p hp))
        rintro rfl
        have hnone := List.find?_eq_none.mp hgap p hp
        simp at hnone
      exact ih hsorted hlate'
  | case4 reached s hwaits n hn p hp ih =>
      obtain ⟨q, rest, h⟩ := List.exists_cons_of_ne_nil hwaits
      rw [h] at hsorted hlate
      obtain ⟨hrest, hordered⟩ := List.pairwise_cons.mp hsorted
      obtain rfl := first_of_waiting hn hp h hrest (hlate q List.mem_cons_self)
      have hnumber : p.number = n := by simpa using List.find?_some hp
      have hpending := print_pending_of_first h hrest
      rw [hpending] at ih
      rw [ih hordered (hnumber ▸ hrest), flush_of_first h hrest]
      rfl

/-- The number without a successor. -/
def highest : UInt64 := 18446744073709551615

theorem le_highest (n : UInt64) : n ≤ highest := by
  have hn := n.toNat_lt
  have hhighest : highest.toNat = 2 ^ 64 - 1 := rfl
  rw [UInt64.le_iff_toNat_le]
  omega

theorem nextExpected_eq_none_iff {last : UInt64} : nextExpected last = none ↔ last = highest := by
  constructor
  · intro h
    apply UInt64.le_antisymm (le_highest last)
    rw [← UInt64.not_lt]
    intro hlt
    obtain ⟨n, hn⟩ := exists_nextExpected hlt
    rw [h] at hn
    cases hn
  · rintro rfl
    rfl

theorem pending_of_highest (hs : s.WellFormed) (h : s.lastPrinted = highest) : s.pending = [] := by
  rw [List.eq_nil_iff_forall_not_mem]
  intro p hp
  have hlate := hs.late p hp
  rw [h] at hlate
  exact UInt64.not_lt.mpr (le_highest p.number) hlate

theorem perform_of_highest (hs : s.WellFormed) (h : s.lastPrinted = highest) (op : Operation) :
    s.perform op = ([], s) := by
  cases op with
  | accept m => exact accept_of_le hs (h ▸ le_highest m.number)
  | flush => exact flush_of_empty (pending_of_highest hs h)

theorem run_of_highest (hs : s.WellFormed) (h : s.lastPrinted = highest) (ops : List Operation) :
    s.printed ops = [] ∧ s.after ops = s := by
  induction ops with
  | nil => exact ⟨rfl, rfl⟩
  | cons op ops ih =>
      have hop := perform_of_highest hs h op
      rw [printed, after_cons, hop]
      exact ih

theorem lastPrinted_lt_of_mem_perform (hs : s.WellFormed) {op : Operation}
    (hp : p ∈ (s.perform op).1) : s.lastPrinted < p.number :=
  candidates_late hs op p ((mem_printed_iff hs).mp hp).1

/-- At any moment of a run a flush prints the lines and leaves the state that
counting upward does, and the count stays in the range of numbers.  The number in
turn is always the true successor of a number and missing only behind the highest
one, and what an operation prints lies behind what was printed before.  Once the
highest number is printed nothing is printed and nothing changes any more. -/
theorem flush_counts_upward (ops : List Operation) :
    let s := after {} ops
    countUp s.lastPrinted s = some s.flush ∧
      (∀ last n, nextExpected last = some n ↔ n.toNat = last.toNat + 1) ∧
      (∀ last, nextExpected last = none ↔ last = highest) ∧
      (∀ op, s.lastPrinted ≤ (s.perform op).2.lastPrinted ∧
        ∀ p ∈ (s.perform op).1, s.lastPrinted < p.number ∧
          p.number ≤ (s.perform op).2.lastPrinted) ∧
      (highest ∈ (printed {} ops).map Message.number →
        ∀ more, s.printed more = [] ∧ s.after more = s) := by
  intro s
  have hs : s.WellFormed := after_wellFormed wellFormed_initial ops
  refine ⟨countUp_eq_flush s.lastPrinted hs.sorted hs.late,
    fun last n => nextExpected_eq_some_iff, fun last => nextExpected_eq_none_iff, ?_, ?_⟩
  · intro op
    exact ⟨lastPrinted_mono hs op,
      fun p hp => ⟨lastPrinted_lt_of_mem_perform hs hp, le_lastPrinted_of_mem_printed hs hp⟩⟩
  · intro hprinted
    obtain ⟨p, hp, hhighest⟩ := List.mem_map.mp hprinted
    have hle : highest ≤ s.lastPrinted :=
      hhighest ▸ le_lastPrinted_of_mem_run wellFormed_initial hp
    exact run_of_highest hs (UInt64.le_antisymm (le_highest _) hle)

end DevMachine.Logs.Reassembly

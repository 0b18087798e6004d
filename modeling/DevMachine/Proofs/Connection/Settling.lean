import DevMachine.Proofs.Connection.Situation
import Mathlib.Order.Basic

/-!
# Running the driver until it has to wait

Every move lowers the rank of the driver, so driving makes all moves that are
possible without waiting, and sleeping passes all due times up to the end of
the sleep.  After any steps, a driver that is not to have its turn has to wait.
-/

namespace DevMachine.Connection

open Channel (Failure)

namespace Situation

def rank (s : Situation) : Nat :=
  match s.driver.map Driver.phase with
  | some .fresh | some (.pausing _) => 4 * s.retries + 4
  | some (.opening ..) => 4 * s.retries + 3
  | some (.linked _) => 4 * s.retries + 2
  | some .finished | none => 0

theorem rank_failed_lt {s : Situation} {driver : Driver} {cause : Failure}
    (hdriver : s.driver = some driver) (hrank : 4 * s.retries < s.rank) :
    (s.failed cause).rank < s.rank := by
  simp only [failed]
  split
  next hzero =>
    have hnew : ((s.tell (.notice (.stoppedOnError cause))).enter .finished).rank = 0 := by
      simp [rank, tell, enter, hdriver]
    rw [hnew]
    omega
  next hpos =>
    have hnew : ((({ s with retries := s.retries - 1 } : Situation).tell
        (.notice (.reconnecting (s.retries - 1)))).enter
          (.pausing (s.clock + retryDelay))).rank = 4 * (s.retries - 1) + 4 := by
      simp [rank, tell, enter, hdriver]
    rw [hnew]
    omega

theorem Move.rank_lt {s s' : Situation} (h : s.Move s') : s'.rank < s.rank := by
  cases h with
  | @begins url phase hdriver hphase =>
      have hnew : (s.began url).rank = 4 * s.retries + 3 := by
        simp [rank, began, tell, enter, hdriver]
      have hold : s.rank = 4 * s.retries + 4 := by
        cases phase with
        | fresh => simp [rank, hdriver]
        | pausing due => simp [rank, hdriver]
        | _ => exact hphase.elim
      omega
  | @opens url fading due hdriver hdue =>
      have hnew : (s.opened fading).rank = 4 * s.retries + 2 := by
        simp [rank, opened, tell, enter, hdriver]
      have hold : s.rank = 4 * s.retries + 3 := by simp [rank, hdriver]
      omega
  | @closes url k l hdriver hlink hended =>
      have hnew : s.closed.rank = 0 := by simp [rank, closed, tell, enter, hdriver]
      have hold : s.rank = 4 * s.retries + 2 := by simp [rank, hdriver]
      omega
  | @fails url phase cause hdriver hfails =>
      apply rank_failed_lt hdriver
      cases phase with
      | opening opening due => simp [rank, hdriver]
      | linked k => simp [rank, hdriver]
      | _ => exact hfails.elim

theorem Move.clock_eq {s s' : Situation} (h : s.Move s') : s'.clock = s.clock := by
  cases h with
  | begins => rfl
  | opens => rfl
  | closes => rfl
  | fails =>
      simp only [failed]
      split <;> rfl

theorem quiet_of_driver_eq_none {s : Situation} (h : s.driver = none) : s.Quiet := by
  intro s' hmove
  cases hmove <;> simp_all

theorem not_quiet_of_due {s : Situation} (due : Nat)
    (hnext : s.nextDue? = some due) (hdue : due ≤ s.clock) : ¬ s.Quiet := by
  intro hquiet
  cases hdriver : s.driver with
  | none => simp [nextDue?, hdriver] at hnext
  | some driver =>
      obtain ⟨url, phase⟩ := driver
      simp only [nextDue?, hdriver, Option.bind_eq_bind, Option.bind_some] at hnext
      cases phase with
      | opening opening t =>
          cases opening with
          | opens fading =>
              obtain rfl : t = due := by simpa using hnext
              exact hquiet _ (.opens hdriver hdue)
          | fails cause =>
              obtain rfl : t = due := by simpa using hnext
              exact hquiet _ (.fails hdriver ⟨hdue, rfl⟩)
          | refused =>
              obtain rfl : t = due := by simpa using hnext
              exact hquiet _ (.fails hdriver ⟨hdue, rfl⟩)
          | hangs => simp at hnext
      | pausing t =>
          obtain rfl : t = due := by simpa using hnext
          exact hquiet _ (.begins hdriver hdue)
      | linked k =>
          cases hlink : s.links[k]? with
          | none => simp [hlink] at hnext
          | some l =>
              cases hfades : l.fadesAt with
              | none => simp [hlink, hfades] at hnext
              | some fading =>
                  obtain ⟨t, ending⟩ := fading
                  obtain rfl : t = due := by simpa [hlink, hfades] using hnext
                  have hended : l.ended? s.clock = some ending := by
                    simp [Link.ended?, hfades, hdue]
                  cases ending with
                  | none => exact hquiet _ (.closes hdriver hlink hended)
                  | some cause => exact hquiet _ (.fails hdriver ⟨l, hlink, hended⟩)
      | _ => simp at hnext

/-- A link that does not fade in a time span ends in it only if it has ended
before. -/
theorem ended?_of_wait {s : Situation} {url : String} {k t : Nat} {l : Link}
    {ending : Option Failure} (hdriver : s.driver = some { url, phase := .linked k })
    (hlink : s.links[k]? = some l) (hnext : ∀ due, s.nextDue? = some due → t < due)
    (hended : l.ended? t = some ending) : l.ended? s.clock = some ending := by
  cases hfades : l.fadesAt with
  | none => simpa [Link.ended?, hfades] using hended
  | some fading =>
      have hlt : t < fading.1 := by
        apply hnext
        simp [nextDue?, hdriver, hlink, hfades]
      simp [Link.ended?, hfades, Nat.not_le.mpr hlt] at hended

theorem Quiet.wait {s : Situation} (hquiet : s.Quiet) {t : Nat}
    (hnext : ∀ due, s.nextDue? = some due → t < due) :
    Quiet { s with clock := t } := by
  intro s' hmove
  cases hmove with
  | @begins url phase hdriver hphase =>
      cases phase with
      | fresh => exact hquiet _ (.begins hdriver trivial)
      | pausing due =>
          have hdue : due ≤ t := hphase
          have hlt : t < due := hnext due (by simp_all [nextDue?])
          omega
      | _ => exact hphase
  | @opens url fading due hdriver hdue =>
      have hdue : due ≤ t := hdue
      have hlt : t < due := hnext due (by simp_all [nextDue?])
      omega
  | @closes url k l hdriver hlink hended =>
      exact hquiet _ (.closes hdriver hlink (ended?_of_wait hdriver hlink hnext hended))
  | @fails url phase cause hdriver hfails =>
      cases phase with
      | opening opening due =>
          obtain ⟨hdue, hopening⟩ := hfails
          have hdue : due ≤ t := hdue
          have hlt : t < due := by
            apply hnext
            cases opening <;> simp_all [nextDue?, Opening.failure?]
          omega
      | linked k =>
          obtain ⟨l, hlink, hended⟩ := hfails
          exact hquiet _ (.fails hdriver
            ⟨l, hlink, ended?_of_wait hdriver hlink hnext hended⟩)
      | _ => exact hfails

/-- The end of a link is no matter for a driver that does not watch it. -/
theorem Quiet.farEnd {s : Situation} (hquiet : s.Quiet) {k : Nat}
    (hphase : s.driver.map Driver.phase ≠ some (.linked k)) (f : Link → Link) :
    Quiet { s with links := s.links.modify k f } := by
  have hother : ∀ {url j}, s.driver = some { url, phase := .linked j } →
      (s.links.modify k f)[j]? = s.links[j]? := by
    intro url j hdriver
    have hne : k ≠ j := by
      rintro rfl
      simp [hdriver] at hphase
    simp [hne]
  intro s' hmove
  cases hmove with
  | begins hdriver hphase =>
      rename_i phase
      cases phase <;> exact hquiet _ (.begins hdriver hphase)
  | opens hdriver hdue => exact hquiet _ (.opens hdriver hdue)
  | closes hdriver hlink hended =>
      exact hquiet _ (.closes hdriver (by rw [← hother hdriver]; exact hlink) hended)
  | @fails url phase cause hdriver hfails =>
      cases phase with
      | linked j =>
          obtain ⟨l, hlink, hended⟩ := hfails
          exact hquiet _ (.fails hdriver ⟨l, by rw [← hother hdriver]; exact hlink, hended⟩)
      | opening opening due => exact hquiet _ (.fails hdriver hfails)
      | _ => exact hfails

end Situation

/-! ## Driving -/

theorem rank_situation (c : Connection) : c.situation.rank = c.rank := rfl

theorem nextDue?_situation (c : Connection) : c.situation.nextDue? = c.nextDue? := by
  unfold nextDue? Situation.nextDue? phase?
  simp only [Option.bind_eq_bind, Option.map_eq_bind, Option.bind_assoc]
  cases hdriver : c.driver with
  | none => simp [situation, hdriver]
  | some driver =>
      obtain ⟨url, phase⟩ := driver
      have hsituation : c.situation.driver = some { url, phase } := hdriver
      cases phase with
      | linked k =>
          simp only [hsituation, Option.bind_some, Function.comp_apply,
            situation_links_getElem?]
          cases c.links[k]? <;> rfl
      | opening opening due => cases opening <;> simp [hsituation]
      | _ => simp [hsituation]

theorem moves_leads (fuel : Nat) (c : Connection) :
    c.situation.Leads (moves fuel c).situation := by
  induction fuel generalizing c with
  | zero => exact .refl
  | succ fuel ih =>
      simp only [moves]
      cases hmove : c.move? with
      | none => exact .refl
      | some c' => exact .head (.move (move_of_move? hmove)) (ih c')

theorem moves_rank_le (fuel : Nat) (c : Connection) : (moves fuel c).rank ≤ c.rank := by
  induction fuel generalizing c with
  | zero => exact Nat.le_refl _
  | succ fuel ih =>
      simp only [moves]
      cases hmove : c.move? with
      | none => exact Nat.le_refl _
      | some c' => exact Nat.le_trans (ih c') (Nat.le_of_lt (move_of_move? hmove).rank_lt)

theorem moves_quiet {fuel : Nat} {c : Connection} (hfuel : c.rank ≤ fuel) :
    (moves fuel c).situation.Quiet := by
  induction fuel generalizing c with
  | zero =>
      intro s' hmove
      have hlt := hmove.rank_lt
      rw [moves, rank_situation] at hlt
      omega
  | succ fuel ih =>
      simp only [moves]
      cases hmove : c.move? with
      | none => exact quiet_of_move?_eq_none hmove
      | some c' =>
          have hlt := (move_of_move? hmove).rank_lt
          rw [rank_situation, rank_situation] at hlt
          exact ih (by omega)

theorem drive_leads (c : Connection) : c.situation.Leads c.drive.situation :=
  moves_leads _ _

theorem drive_quiet (c : Connection) : c.drive.situation.Quiet :=
  moves_quiet (Nat.le_refl _)

theorem drive_rank_lt {c : Connection} (h : ¬ c.situation.Quiet) : c.drive.rank < c.rank := by
  cases hmove : c.move? with
  | none => exact absurd (quiet_of_move?_eq_none hmove) h
  | some c' =>
      have hlt := (move_of_move? hmove).rank_lt
      rw [rank_situation, rank_situation] at hlt
      obtain ⟨fuel, hfuel⟩ := Nat.exists_eq_succ_of_ne_zero (Nat.ne_zero_of_lt hlt)
      rw [drive, hfuel, moves, hmove, ← hfuel]
      exact Nat.lt_of_le_of_lt (moves_rank_le fuel c') hlt

/-! ## Settling -/

@[simp] theorem situation_serve (c : Connection) (i : Nat) :
    (c.serve i).situation = c.situation := by
  unfold serve
  split
  · dsimp only
    split
    · rw [situation_answer]
      rfl
    · exact situation_answerWaiter { c with requests := c.requests.set i .waiting } _
  · rfl

theorem turns_leads (wakes : List Wake) (c : Connection) :
    c.situation.Leads (wakes.foldl turn c).situation := by
  induction wakes generalizing c with
  | nil => exact .refl
  | cons w wakes ih =>
      cases w with
      | driver => exact (drive_leads c).trans (ih c.drive)
      | request i =>
          have hserve := ih (c.serve i)
          rw [situation_serve] at hserve
          exact hserve

theorem turns_quiet {wakes : List Wake} {c : Connection}
    (h : Wake.driver ∉ wakes → c.situation.Quiet) :
    (wakes.foldl turn c).situation.Quiet := by
  induction wakes generalizing c with
  | nil => exact h (by simp)
  | cons w wakes ih =>
      apply ih
      intro hrest
      cases w with
      | driver => exact drive_quiet c
      | request i =>
          rw [turn, situation_serve]
          exact h (by simp [hrest])

/-- A driver that is not to have its turn has to wait. -/
def DriverWaits (c : Connection) : Prop := Wake.driver ∉ c.ready → c.situation.Quiet

theorem settle_leads (c : Connection) : c.situation.Leads c.settle.situation :=
  turns_leads c.ready { c with ready := [] }

theorem settle_quiet {c : Connection} (h : c.DriverWaits) : c.settle.situation.Quiet :=
  turns_quiet (c := { c with ready := [] }) h

theorem passUntil_leads (target fuel : Nat) {c : Connection} (hquiet : c.situation.Quiet) :
    c.situation.Leads (passUntil target fuel c).situation := by
  induction fuel generalizing c with
  | zero => exact .refl
  | succ fuel ih =>
      simp only [passUntil]
      cases hnext : c.nextDue? with
      | none => exact .refl
      | some t =>
          dsimp only
          split
          · have hwait : c.situation.Change
                { c with clock := max c.clock t : Connection }.situation := by
              refine .wait (t := max c.clock t) hquiet (Nat.le_max_left _ _) ?_
              intro due hdue
              rw [nextDue?_situation, hnext, Option.some.injEq] at hdue
              rw [hdue]
              exact Nat.le_refl _
            exact .head hwait ((drive_leads _).trans (ih (drive_quiet _)))
          · exact .refl

theorem moves_clock (fuel : Nat) (c : Connection) : (moves fuel c).clock = c.clock := by
  induction fuel generalizing c with
  | zero => rfl
  | succ fuel ih =>
      simp only [moves]
      cases hmove : c.move? with
      | none => rfl
      | some c' =>
          exact (ih c').trans (move_of_move? hmove).clock_eq

/-- With more fuel than the rank all due times up to the target are passed. -/
theorem passUntil_spec (target : Nat) {fuel : Nat} {c : Connection} (hfuel : c.rank < fuel)
    (hquiet : c.situation.Quiet) (hclock : c.clock ≤ target) :
    (passUntil target fuel c).situation.Quiet ∧
      (passUntil target fuel c).clock ≤ target ∧
      ∀ due, (passUntil target fuel c).situation.nextDue? = some due → target < due := by
  induction fuel generalizing c with
  | zero => omega
  | succ fuel ih =>
      simp only [passUntil]
      cases hnext : c.nextDue? with
      | none =>
          refine ⟨hquiet, hclock, ?_⟩
          intro due hdue
          rw [nextDue?_situation, hnext] at hdue
          cases hdue
      | some t =>
          dsimp only
          split
          next hle =>
            have hdue : ¬ { c with clock := max c.clock t : Connection }.situation.Quiet := by
              apply Situation.not_quiet_of_due t
              · rw [nextDue?_situation]
                exact hnext
              · exact Nat.le_max_right _ _
            have hlt := drive_rank_lt hdue
            have hsame : ({ c with clock := max c.clock t : Connection }).rank = c.rank := rfl
            apply ih (by omega) (drive_quiet _)
            rw [drive, moves_clock]
            exact Nat.max_le.mpr ⟨hclock, hle⟩
          next hgt =>
            refine ⟨hquiet, hclock, ?_⟩
            intro due hdue
            rw [nextDue?_situation, hnext, Option.some.injEq] at hdue
            omega

theorem sleep_leads {c : Connection} (h : c.DriverWaits) (duration : Nat) :
    c.situation.Leads (c.sleep duration).situation ∧ (c.sleep duration).situation.Quiet := by
  have hspec := passUntil_spec (c.settle.clock + duration)
    (Nat.lt_succ_self c.settle.rank) (settle_quiet h) (Nat.le_add_right _ _)
  obtain ⟨hquiet, hclock, hnext⟩ := hspec
  constructor
  · refine ((settle_leads c).trans (passUntil_leads _ _ (settle_quiet h))).tail
      (.wait hquiet hclock ?_)
    intro due hdue
    exact Nat.le_trans (Nat.le_of_lt (hnext due hdue)) (Nat.le_max_right _ _)
  · exact hquiet.wait hnext

end DevMachine.Connection

import DevMachine.Proofs.Connection.Steps

/-!
# Rounds of a driver

A round is one attempt with what became of it: nothing yet, a failure, or a link
that is still up, was closed or broke.  Only a failure is followed by another round,
one retry delay later and only as long as there are retries; so the account of the
rounds is the grammar of attempts and notices.
-/

namespace DevMachine.Connection

open Channel (Failure)

/-- What became of an attempt.  Links are given by their numbers, with the
times at which they opened and ended. -/
inductive Outcome
  | pending
  | failed (time : Nat) (cause : Failure)
  | linked (link opened : Nat)
  | closed (link opened time : Nat)
  | broken (link opened time : Nat) (cause : Failure)

structure Round where
  begun : Nat
  attempt : Attempt
  outcome : Outcome := .pending

def failureNotice (retries : Nat) (cause : Failure) : Notice :=
  if retries = 0 then .stoppedOnError cause else .reconnecting (retries - 1)

def Outcome.notices (retries : Nat) : Outcome → List (Nat × Occurrence)
  | .pending => []
  | .failed t cause => [(t, .notice (failureNotice retries cause))]
  | .linked _ opened => [(opened, .notice .started)]
  | .closed _ opened t => [(opened, .notice .started), (t, .notice .stopped)]
  | .broken _ opened t cause =>
    [(opened, .notice .started), (t, .notice (failureNotice retries cause))]

namespace Round

def account (url : String) (retries : Nat) (r : Round) : List (Nat × Occurrence) :=
  (r.begun, .attempt url) :: r.outcome.notices retries

def failure? (r : Round) : Option (Nat × Failure) :=
  match r.outcome with
  | .failed t cause | .broken _ _ t cause => some (t, cause)
  | _ => none

def link? (r : Round) : Option Nat :=
  match r.outcome with
  | .linked k _ | .closed k _ _ | .broken k _ _ _ => some k
  | _ => none

/-- The next round begins one retry delay after the failure of the one before. -/
def IsFollowedBy (r r' : Round) : Prop :=
  ∃ t cause, r.failure? = some (t, cause) ∧ r'.begun = t + retryDelay

end Round

/-- The account of some rounds, each of which but the last uses up a retry. -/
def account (url : String) : (retries : Nat) → List Round → List (Nat × Occurrence)
  | _, [] => []
  | retries, r :: rounds => r.account url retries ++ account url (retries - 1) rounds

/-- The end of a link has come at a time: the time at which it fades, or
whenever the endpoint ended it. -/
def Link.EndsAt (l : Link) (t : Nat) (ending : Option Failure) : Prop :=
  match l.fadesAt with
  | some fading => fading = (t, ending)
  | none => l.farEnd = some ending

namespace Round

/-- The attempt opened a link, which fades as the script says. -/
def Opens (links : List Link) (r : Round) (k t : Nat) : Prop :=
  t = r.begun + r.attempt.delay ∧
    ∃ l fading, links[k]? = some l ∧ r.attempt.opening = .opens fading ∧
      l.fadesAt = fading.map fun f => (t + f.after, f.failure)

/-- The outcome of a round is what the script and the ends of the links say. -/
def Explained (url : String) (links : List Link) (r : Round) : Prop :=
  match r.outcome with
  | .pending => True
  | .failed t cause =>
    t = r.begun + r.attempt.delay ∧ r.attempt.opening.failure? url = some cause
  | .linked k opened => r.Opens links k opened
  | .closed k opened t =>
    r.Opens links k opened ∧ ∃ l, links[k]? = some l ∧ l.EndsAt t none
  | .broken k opened t cause =>
    r.Opens links k opened ∧ ∃ l, links[k]? = some l ∧ l.EndsAt t (some cause)

/-- Nothing more has to come of a round by now: the attempt hangs or goes on,
the link has not ended, the pause before the retry lasts, or there is no retry
left. -/
def Waits (now : Nat) (links : List Link) (retries : Nat) (r : Round) : Prop :=
  match r.outcome with
  | .pending => r.attempt.opening = .hangs ∨ now < r.begun + r.attempt.delay
  | .linked k _ => ∃ l, links[k]? = some l ∧ l.ended? now = none
  | .closed .. => True
  | .failed t _ | .broken _ _ t _ => retries = 0 ∨ now < t + retryDelay

end Round

theorem account_append (url : String) (retries : Nat) (rounds more : List Round) :
    account url retries (rounds ++ more) =
      account url retries rounds ++ account url (retries - rounds.length) more := by
  induction rounds generalizing retries with
  | nil => rfl
  | cons r rounds ih =>
      rw [List.cons_append, account, account, ih, List.append_assoc, List.length_cons,
        Nat.sub_sub, Nat.add_comm 1]

def Occurrence.remaining? : Occurrence → Option Nat
  | .notice (.reconnecting n) => some n
  | _ => none

/-- The retries left as told, in order. -/
def countdown (entries : List (Nat × Occurrence)) : List Nat :=
  entries.filterMap fun entry => entry.2.remaining?

theorem countdown_account_of_failure {r : Round} {t : Nat} {cause : Failure}
    (hfailure : r.failure? = some (t, cause)) (url : String) (retries : Nat) :
    countdown (r.account url retries) = if retries = 0 then [] else [retries - 1] := by
  cases houtcome : r.outcome with
  | failed u cause' =>
      simp only [countdown, Round.account, houtcome, Outcome.notices, failureNotice]
      split <;> simp [Occurrence.remaining?]
  | broken k opened u cause' =>
      simp only [countdown, Round.account, houtcome, Outcome.notices, failureNotice]
      split <;> simp [Occurrence.remaining?]
  | _ => simp [Round.failure?, houtcome] at hfailure

theorem countdown_account_of_no_failure {r : Round} (hfailure : r.failure? = none)
    (url : String) (retries : Nat) : countdown (r.account url retries) = [] := by
  cases houtcome : r.outcome with
  | failed t cause => simp [Round.failure?, houtcome] at hfailure
  | broken k opened t cause => simp [Round.failure?, houtcome] at hfailure
  | _ => simp [countdown, Round.account, houtcome, Outcome.notices, Occurrence.remaining?]

theorem countdown_account {rounds : List Round} (hfailed : ∀ r ∈ rounds, r.failure? ≠ none)
    (url : String) (retries : Nat) :
    countdown (account url retries rounds) =
      (List.range retries).reverse.take rounds.length := by
  induction rounds generalizing retries with
  | nil => simp [account, countdown]
  | cons r rounds ih =>
      obtain ⟨⟨t, cause⟩, hfailure⟩ :=
        Option.ne_none_iff_exists'.mp (hfailed r (by simp))
      have hrest := ih (fun r' hr' => hfailed r' (by simp [hr'])) (retries - 1)
      have hfirst := countdown_account_of_failure hfailure url retries
      unfold countdown at hrest hfirst ⊢
      rw [account, List.filterMap_append, hfirst, hrest]
      cases retries with
      | zero => simp
      | succ retries => simp [List.range_succ]

end DevMachine.Connection

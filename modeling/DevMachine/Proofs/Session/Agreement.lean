import DevMachine.Proofs.Session.ManagedCourse
import Mathlib.Logic.Function.Basic

/-!
# Manager, bus and endpoint agree

The manager lists its streams, the bus has a table of owners, and the endpoint knows
the claims that were queued for it.  They are compared through the stream that is on
duty on a channel, from its subscription until the turn in which it gives the channel
up.  Where they differ, that stream has a failure to read or a request to stop, which
is never so when the session is quiescent.
-/

namespace DevMachine

open Channel (Alternates Bus Failure Frame Item Mailbox)
open Logs (Ending Stream Turn)

namespace Session

/-- Some sink broke under a stream. -/
def Broken (s : Session) : Prop := ∃ t ∈ s.tasks, t.ending = some .broken

/-- What is on the books about a channel, given the stream on duty there. -/
inductive Staffed (s : Session) (channel : String) : Option Nat → Prop
  | vacant (howner : s.bus.owner? channel = none)
      (hgiven : (s.bus.claims channel).getLast? ≠ some .taken) : Staffed s channel none
  | stream {i : Nat} {t : Task} (htask : s.tasks[i]? = some t) (hlive : t.ending = none)
      (hinformed : s.bus.Informed channel t.subscription)
      (htaken : (s.bus.claims channel).getLast? = some .taken)
      (hasked : t.signal = none ∧ s.managed? channel = some i ∨ t.signal = some .stop) :
      Staffed s channel (some i)

/-- The books agree on which streams are on duty. -/
structure Agrees (s : Session) (duty : String → Option Nat) : Prop where
  bus : s.bus.WellFormed
  isOpen : s.bus.isOpen = true
  alternates : ∀ channel, Alternates (s.bus.claims channel)
  staffed : ∀ channel, s.Staffed channel (duty channel)
  /-- A stream that goes on is on duty somewhere. -/
  employed : ∀ (i : Nat) (t : Task), s.tasks[i]? = some t → t.ending = none →
    ∃ channel, duty channel = some i
  listed : ∀ (channel : String) (i : Nat), s.managed? channel = some i →
    ∃ t, s.tasks[i]? = some t ∧ (t.ending = none → duty channel = some i)

variable {stamp : Int64} {s s' : Session} {duty : String → Option Nat} {channel c : String}
  {i j : Nat} {t : Task}

theorem agrees_initial (stamp : Int64) : Agrees { bus := { stamp } } fun _ => none where
  bus := Bus.wellFormed_initial stamp
  isOpen := rfl
  alternates := by
    intro channel k claim hk
    cases hk
  staffed := fun _ => .vacant rfl nofun
  employed := by
    intro i t ht
    cases ht
  listed := by
    intro channel i hlisted
    cases hlisted

theorem Agrees.on_duty (h : s.Agrees duty) (hduty : duty channel = some i) :
    ∃ t, s.tasks[i]? = some t ∧ t.ending = none ∧ s.bus.Informed channel t.subscription ∧
      (s.bus.claims channel).getLast? = some .taken ∧
      (t.signal = none ∧ s.managed? channel = some i ∨ t.signal = some .stop) := by
  have hstaffed := h.staffed channel
  rw [hduty] at hstaffed
  cases hstaffed with
  | stream htask hlive hinformed htaken hasked =>
      exact ⟨_, htask, hlive, hinformed, htaken, hasked⟩

theorem Agrees.off_duty (h : s.Agrees duty) (hduty : duty channel = none) :
    s.bus.owner? channel = none ∧ (s.bus.claims channel).getLast? ≠ some .taken := by
  have hstaffed := h.staffed channel
  rw [hduty] at hstaffed
  cases hstaffed with
  | vacant howner hgiven => exact ⟨howner, hgiven⟩

theorem Agrees.duty_ne (h : s.Agrees duty) (hduty : duty c = some i) (hc : channel ≠ c) :
    duty channel ≠ some i := by
  intro hduty'
  obtain ⟨t, ht, -, hinformed, -⟩ := h.on_duty hduty
  obtain ⟨u, hu, -, hinformed', -⟩ := h.on_duty hduty'
  obtain rfl : t = u := Option.some.inj (ht.symm.trans hu)
  exact hinformed.ne hinformed' (Ne.symm hc) rfl

theorem Staffed.of_same {o : Option Nat} (h : s.Staffed channel o)
    (hclaims : s'.bus.claims channel = s.bus.claims channel)
    (hnone : s.bus.owner? channel = none → s'.bus.owner? channel = none)
    (hmanaged : s'.managed? channel = s.managed? channel)
    (hstream : ∀ (i : Nat) (t : Task), o = some i → s.tasks[i]? = some t →
      s.bus.Informed channel t.subscription →
        s'.tasks[i]? = some t ∧ s'.bus.Informed channel t.subscription) :
    s'.Staffed channel o := by
  cases h with
  | vacant howner hgiven => exact .vacant (hnone howner) (by rwa [hclaims])
  | stream htask hlive hinformed htaken hasked =>
      obtain ⟨htask', hinformed'⟩ := hstream _ _ rfl htask hinformed
      exact .stream htask' hlive hinformed' (by rwa [hclaims]) (by rwa [hmanaged])

theorem Agrees.of_same (h : s.Agrees duty) (htasks : s'.tasks = s.tasks)
    (hmanaged : s'.managed = s.managed) (hbus : s'.bus.WellFormed) (hopen : s'.bus.isOpen = true)
    (hclaims : ∀ channel, s'.bus.claims channel = s.bus.claims channel)
    (hnone : ∀ channel, s.bus.owner? channel = none → s'.bus.owner? channel = none)
    (hinformed : ∀ channel id, s.bus.Informed channel id → s'.bus.Informed channel id) :
    s'.Agrees duty where
  bus := hbus
  isOpen := hopen
  alternates := by
    intro channel
    rw [hclaims]
    exact h.alternates channel
  staffed := by
    intro channel
    refine (h.staffed channel).of_same (hclaims channel) (hnone channel) ?_ ?_
    · rw [managed?, hmanaged, managed?]
    · intro i t _ htask hinf
      rw [htasks]
      exact ⟨htask, hinformed channel _ hinf⟩
  employed := by
    rw [htasks]
    exact h.employed
  listed := by
    intro channel i hlisted
    rw [managed?, hmanaged] at hlisted
    rw [htasks]
    exact h.listed channel i hlisted

theorem Agrees.off_books (h : s.Agrees duty) (hbus : s'.bus = s.bus)
    (htasks : s'.tasks = s.tasks) (hmanaged : s'.managed = s.managed) : s'.Agrees duty := by
  refine h.of_same htasks hmanaged ?_ ?_ ?_ ?_ ?_ <;> rw [hbus]
  · exact h.bus
  · exact h.isOpen
  · exact fun _ => rfl
  · exact fun _ => id
  · exact fun _ _ => id

theorem Agrees.dispatch (h : s.Agrees duty) (frame : Frame) :
    (s.useBus (s.bus.dispatch frame)).Agrees duty :=
  h.of_same rfl rfl (h.bus.dispatch frame) ((Bus.isOpen_dispatch s.bus frame).trans h.isOpen)
    (fun _ => Bus.claims_dispatch s.bus frame)
    (fun _ hnone => Bus.owner?_dispatch_of_none hnone frame)
    fun _ _ hinformed => hinformed.dispatch h.bus frame

theorem Agrees.send (h : s.Agrees duty) {frame : Frame}
    (hframe : ∀ channel, frame.claim? channel = none) :
    (s.useBus (s.bus.send frame).2).Agrees duty := by
  refine h.of_same rfl rfl (h.bus.send frame) ((Bus.isOpen_send s.bus frame).trans h.isOpen)
    ?_ ?_ fun _ _ hinformed => hinformed.send frame
  · intro channel
    change (s.bus.send frame).2.claims channel = _
    rw [Bus.claims_send h.isOpen, hframe]
    exact List.append_nil _
  · intro channel hnone
    exact (Bus.owner?_send s.bus frame).trans hnone

theorem Agrees.failAll (h : s.Agrees duty) (failure : Failure) :
    (s.useBus (s.bus.failAll failure)).Agrees duty :=
  h.of_same rfl rfl (Bus.wellFormed_clear _)
    ((Bus.isOpen_postAll s.bus.owners s.bus _).trans h.isOpen)
    (fun _ => Bus.claims_failAll s.bus failure) (fun _ _ => rfl)
    fun _ _ hinformed => hinformed.failAll h.bus failure

/-! ## One turn -/

structure Turned (s : Session) (i : Nat) (t : Task) (turn : Turn) (s' : Session) : Prop where
  tasks : s'.tasks =
    s.tasks.modify i fun t => { t with stream := turn.stream, ending := turn.ending }
  bus : s'.bus = busAfter s.bus t turn
  managed : s'.managed = s.managed

theorem poll_turned (ht : s.tasks[i]? = some t) (hlive : t.ending = none) :
    ∃ turn, Turned s i t turn (s.poll i) ∧
      (turn.ending = some .broken ∨ turn = t.turn s.clock s.bus) := by
  unfold poll
  simp only [ht, hlive, Option.isSome_none, Bool.false_eq_true, if_false]
  split
  next => exact ⟨_, ⟨rfl, rfl, rfl⟩, .inl rfl⟩
  next => exact ⟨_, ⟨rfl, rfl, rfl⟩, .inr rfl⟩

theorem poll_of_ended (ht : s.tasks[i]? = some t) (hended : t.ending.isSome) : s.poll i = s := by
  unfold poll
  simp [ht, hended]

/-- A stream that was informed gives its channel up when it ends.  It goes on
only if it owns the channel and was not asked to stop. -/
theorem turn_of_informed {b : Bus} (hb : b.WellFormed) (hinformed : b.Informed c t.subscription)
    (hasked : t.signal ≠ some .abort) (now : Nat) :
    ((t.turn now b).ending.isSome ∧ (t.turn now b).releases = true) ∨
      ((t.turn now b).ending = none ∧ t.signal = none ∧ b.owner? c = some t.subscription) := by
  obtain ⟨items, hheld, howner⟩ := hinformed
  have hbox : b.mailboxes[t.subscription]? = some { channel := c, items } := hheld
  unfold Task.turn
  rw [hbox]
  cases hsignal : t.signal with
  | some signal =>
      cases signal with
      | abort => exact absurd hsignal hasked
      | stop => exact .inl ⟨rfl, rfl⟩
  | none =>
      simp only [Option.map_some, Option.getD_some, Stream.turn, Stream.takeAll_eq]
      cases hfailure : Logs.failure? items with
      | some e => exact .inl ⟨rfl, rfl⟩
      | none =>
          have howned : b.owner? c = some t.subscription := by
            refine howner.resolve_right ?_
            rintro ⟨-, e, he⟩
            have hnot := List.findSome?_eq_none_iff.mp hfailure _ he
            cases hnot
          have howns : b.owns t.subscription = true := by simp [hheld.owns_eq hb, howned]
          simp only [howns, Bool.not_true, Bool.false_eq_true, if_false]
          refine .inr ⟨?_, trivial, howned⟩
          split <;> rfl

theorem busAfter_ne {b : Bus} (hopen : b.isOpen = true) (hinformed : b.Informed c t.subscription)
    (hc : channel ≠ c) (turn : Turn) :
    (busAfter b t turn).owner? channel = b.owner? channel ∧
      (busAfter b t turn).claims channel = b.claims channel := by
  unfold busAfter
  split
  · exact ⟨rfl, rfl⟩
  · split
    · rw [hinformed.unsubscribe_eq]
      constructor
      · change (b.release c t.subscription).owner? channel = _
        rw [Bus.owner?_release, if_neg fun h => hc h.1]
      · change (b.release c t.subscription).claims channel = _
        rw [Bus.claims_release hopen hinformed.owner?, if_neg hc, List.append_nil]
    · exact ⟨rfl, rfl⟩

theorem Staffed.turn_ne {o : Option Nat} (h : s.Staffed channel o) {turn : Turn}
    (hturned : Turned s i t turn s') (ht : s.tasks[i]? = some t) (hopen : s.bus.isOpen = true)
    (hinformed : s.bus.Informed c t.subscription) (hc : channel ≠ c) :
    s'.Staffed channel o := by
  obtain ⟨howner, hclaims⟩ := busAfter_ne hopen hinformed hc turn
  rw [← hturned.bus] at howner hclaims
  refine h.of_same hclaims ?_ ?_ ?_
  · intro hnone
    rw [howner, hnone]
  · rw [managed?, hturned.managed, managed?]
  · intro j u _ hu hinformed'
    have hne : t.subscription ≠ u.subscription := hinformed'.ne hinformed hc
    have hij : i ≠ j := by
      rintro rfl
      rw [ht, Option.some.injEq] at hu
      exact hne (congrArg Task.subscription hu)
    refine ⟨by simp [hturned.tasks, hij, hu], hinformed'.of_same howner ?_⟩
    rw [hturned.bus]
    exact mailbox_busAfter_ne s.bus t turn hne

theorem Turned.task_self {turn : Turn} (hturned : Turned s i t turn s')
    (ht : s.tasks[i]? = some t) :
    s'.tasks[i]? = some { t with stream := turn.stream, ending := turn.ending } := by
  simp [hturned.tasks, ht]

theorem Turned.task_ne {turn : Turn} (hturned : Turned s i t turn s') (hij : i ≠ j) :
    s'.tasks[j]? = s.tasks[j]? := by
  simp [hturned.tasks, hij]

/-- The manager's list stays right if the streams that go on stay on duty. -/
theorem Turned.listed {turn : Turn} (hturned : Turned s i t turn s') (ht : s.tasks[i]? = some t)
    (h : s.Agrees duty) {duty' : String → Option Nat}
    (hself : turn.ending = none → ∀ channel, duty channel = some i → duty' channel = some i)
    (hother : ∀ (channel : String) (j : Nat), i ≠ j → duty channel = some j →
      duty' channel = some j) (hlive : t.ending = none) :
    ∀ (channel : String) (j : Nat), s'.managed? channel = some j →
      ∃ t, s'.tasks[j]? = some t ∧ (t.ending = none → duty' channel = some j) := by
  intro channel j hlisted
  rw [managed?, hturned.managed] at hlisted
  obtain ⟨u, hu, hduty⟩ := h.listed channel j hlisted
  by_cases hij : i = j
  · subst hij
    obtain rfl : t = u := Option.some.inj (ht.symm.trans hu)
    exact ⟨_, hturned.task_self ht, fun hgoes => hself hgoes channel (hduty hlive)⟩
  · refine ⟨u, (hturned.task_ne hij).trans hu, ?_⟩
    exact fun hgoes => hother channel j hij (hduty hgoes)

/-- A stream that goes on has read its mailbox and owns its channel as before. -/
theorem Agrees.goes_on (h : s.Agrees duty) (ht : s.tasks[i]? = some t) (hlive : t.ending = none)
    (hduty : duty c = some i) {turn : Turn} (hturned : Turned s i t turn s')
    (hending : turn.ending = none) (howner : s.bus.owner? c = some t.subscription) :
    s'.Agrees duty := by
  obtain ⟨u, hu, -, hinformed, htaken, hasked⟩ := h.on_duty hduty
  obtain rfl : t = u := Option.some.inj (ht.symm.trans hu)
  have hbus : s'.bus =
      s.bus.updateMailbox t.subscription fun box => { box with items := [] } := by
    rw [hturned.bus, busAfter, hending]
  have hself := hturned.task_self ht
  constructor
  · rw [hbus]
    exact h.bus.updateMailbox _ fun _ => rfl
  · rw [hbus]
    exact h.isOpen
  · rw [hbus]
    exact h.alternates
  · intro channel
    by_cases hc : channel = c
    · subst hc
      rw [hduty]
      obtain ⟨items, hheld, -⟩ := hinformed
      have hbox : s.bus.mailboxes[t.subscription]? = some { channel, items } := hheld
      refine .stream hself hending ⟨[], ?_, .inl ?_⟩ ?_ ?_
      · rw [hbus, Bus.Holds, Bus.mailbox_updateMailbox_self, hbox]
        rfl
      · rw [hbus]
        exact howner
      · rw [hbus]
        exact htaken
      · rw [managed?, hturned.managed]
        exact hasked
    · exact (h.staffed channel).turn_ne hturned ht h.isOpen hinformed hc
  · intro j u hu hgoes
    by_cases hij : i = j
    · exact ⟨c, hij ▸ hduty⟩
    · rw [hturned.task_ne hij] at hu
      exact h.employed j u hu hgoes
  · exact hturned.listed ht h (fun _ _ hduty => hduty) (fun _ _ _ hduty => hduty) hlive

/-- A stream that ends has given its channel up, and nobody is on duty there. -/
theorem Agrees.ends (h : s.Agrees duty) (ht : s.tasks[i]? = some t) (hlive : t.ending = none)
    (hduty : duty c = some i) {turn : Turn} (hturned : Turned s i t turn s')
    (hending : turn.ending.isSome) (hreleases : turn.releases = true) :
    s'.Agrees (Function.update duty c none) := by
  obtain ⟨u, hu, -, hinformed, htaken, -⟩ := h.on_duty hduty
  obtain rfl : t = u := Option.some.inj (ht.symm.trans hu)
  obtain ⟨ending, hending⟩ := Option.isSome_iff_exists.mp hending
  have hbus : s'.bus = (s.bus.release c t.subscription).drop t.subscription := by
    rw [hturned.bus, busAfter, hending, ← hinformed.unsubscribe_eq]
    simp [hreleases]
  have hclaims (channel : String) : s'.bus.claims channel =
      s.bus.claims channel ++ if channel = c then [.given] else [] := by
    rw [hbus]
    exact Bus.claims_release h.isOpen hinformed.owner?
  constructor
  · rw [hbus]
    exact (h.bus.release c _).updateMailbox _ fun _ => rfl
  · rw [hbus]
    exact (Bus.isOpen_release s.bus c _).trans h.isOpen
  · intro channel
    rw [hclaims]
    by_cases hc : channel = c
    · subst hc
      rw [if_pos rfl]
      exact (h.alternates channel).give htaken
    · rw [if_neg hc, List.append_nil]
      exact h.alternates channel
  · intro channel
    by_cases hc : channel = c
    · subst hc
      rw [Function.update_self]
      refine .vacant ?_ ?_
      · rw [hbus]
        exact hinformed.owner?_release
      · simp [hclaims]
    · rw [Function.update_of_ne hc]
      exact (h.staffed channel).turn_ne hturned ht h.isOpen hinformed hc
  · intro j u hu hgoes
    by_cases hij : i = j
    · subst hij
      rw [hturned.task_self ht, Option.some.injEq] at hu
      rw [← hu, hending] at hgoes
      cases hgoes
    · rw [hturned.task_ne hij] at hu
      obtain ⟨channel, hchannel⟩ := h.employed j u hu hgoes
      refine ⟨channel, ?_⟩
      rwa [Function.update_of_ne]
      rintro rfl
      rw [hduty, Option.some.injEq] at hchannel
      exact hij hchannel
  · refine hturned.listed ht h ?_ ?_ hlive
    · intro hgoes
      rw [hending] at hgoes
      cases hgoes
    · intro channel j hij hchannel
      rwa [Function.update_of_ne]
      rintro rfl
      rw [hduty, Option.some.injEq] at hchannel
      exact hij hchannel

theorem Agrees.turn (h : s.Agrees duty) (i : Nat) :
    (s.poll i).Broken ∨ ∃ duty, (s.poll i).Agrees duty := by
  cases ht : s.tasks[i]? with
  | none =>
      rw [poll_of_none ht]
      exact .inr ⟨duty, h⟩
  | some t =>
      cases hlive : t.ending with
      | some ending =>
          rw [poll_of_ended ht (by simp [hlive])]
          exact .inr ⟨duty, h⟩
      | none =>
          -- the stream is on duty somewhere, so it was informed and is not aborted
          obtain ⟨c, hduty⟩ := h.employed i t ht hlive
          obtain ⟨u, hu, -, hinformed, -, hasked⟩ := h.on_duty hduty
          obtain rfl : t = u := Option.some.inj (ht.symm.trans hu)
          have hkind : t.signal ≠ some .abort := by
            rcases hasked with ⟨hasked, -⟩ | hasked <;> simp [hasked]
          obtain ⟨turn, hturned, hbroken | rfl⟩ := poll_turned ht hlive
          · exact .inl ⟨_, List.mem_of_getElem? (hturned.task_self ht), hbroken⟩
          · rcases turn_of_informed h.bus hinformed hkind s.clock with
              ⟨hending, hreleases⟩ | ⟨hending, -, howner⟩
            · exact .inr ⟨_, h.ends ht hlive hduty hturned hending hreleases⟩
            · exact .inr ⟨duty, h.goes_on ht hlive hduty hturned hending howner⟩

theorem Agrees.dismiss (h : s.Agrees duty) (hlisted : s.managed? c = some i)
    (hended : (s.ending? i).isSome) : (s.unmanage c).Agrees duty := by
  refine ⟨h.bus, h.isOpen, h.alternates, ?_, h.employed, ?_⟩
  · intro channel
    by_cases hc : channel = c
    · subst hc
      cases hduty : duty channel with
      | none =>
          obtain ⟨howner, hgiven⟩ := h.off_duty hduty
          exact .vacant howner hgiven
      | some j =>
          obtain ⟨t, ht, hlive, hinformed, htaken, ⟨-, hlisted'⟩ | hasked⟩ := h.on_duty hduty
          · -- what is listed is the stream that has ended
            rw [hlisted, Option.some.injEq] at hlisted'
            simp [ending?, hlisted', ht, hlive] at hended
          · exact .stream ht hlive hinformed htaken (.inr hasked)
    · refine (h.staffed channel).of_same rfl id ?_ fun _ _ _ ht hinformed => ⟨ht, hinformed⟩
      rw [managed?_unmanage, if_neg hc]
  · intro channel j hlisted'
    rw [managed?_unmanage, Option.ite_none_left_eq_some] at hlisted'
    exact h.listed channel j hlisted'.2

theorem Agrees.retire (h : s.Agrees duty) (hlisted : s.managed? c = some i)
    (hlive : s.ending? i = none) : ((s.unmanage c).signal i .stop).Agrees duty := by
  obtain ⟨t, ht, hduty⟩ := h.listed c i hlisted
  have hlive : t.ending = none := by simpa [ending?, ht] using hlive
  have hduty := hduty hlive
  obtain ⟨u, hu, -, hinformed, htaken, -⟩ := h.on_duty hduty
  obtain rfl : t = u := Option.some.inj (ht.symm.trans hu)
  have htasks : ((s.unmanage c).signal i .stop).tasks =
      s.tasks.modify i fun t => { t with signal := some .stop } := rfl
  have hmanaged (channel : String) : ((s.unmanage c).signal i .stop).managed? channel =
      (s.unmanage c).managed? channel := rfl
  refine ⟨h.bus, h.isOpen, h.alternates, ?_, ?_, ?_⟩
  · intro channel
    by_cases hc : channel = c
    · subst hc
      rw [hduty]
      exact .stream (t := { t with signal := some .stop }) (by simp [htasks, ht]) hlive hinformed
        htaken (.inr rfl)
    · refine (h.staffed channel).of_same rfl id ?_ ?_
      · rw [hmanaged, managed?_unmanage, if_neg hc]
      · intro j u hj hu hinformed'
        have hij : i ≠ j := by
          rintro rfl
          exact h.duty_ne hduty hc hj
        exact ⟨by simp [htasks, hij, hu], hinformed'⟩
  · intro j u hu hgoes
    by_cases hij : i = j
    · exact ⟨c, hij ▸ hduty⟩
    · exact h.employed j u (by simpa [htasks, hij] using hu) hgoes
  · intro channel j hlisted'
    rw [hmanaged, managed?_unmanage, Option.ite_none_left_eq_some] at hlisted'
    obtain ⟨u, hu, hduty'⟩ := h.listed channel j hlisted'.2
    by_cases hij : i = j
    · subst hij
      obtain rfl : t = u := Option.some.inj (ht.symm.trans hu)
      exact ⟨{ t with signal := some .stop }, by simp [htasks, ht], fun _ => hduty' hlive⟩
    · exact ⟨u, by simp [htasks, hij, hu], hduty'⟩

theorem launch_of_open (hopen : s.bus.isOpen = true) (channel : String) (sink : Nat) :
    (s.launch channel sink).bus = (s.bus.subscribe channel).2 ∧
      (s.launch channel sink).tasks =
        s.tasks ++ [{ subscription := s.bus.mailboxes.length, sink, stream := {} }] ∧
      (s.launch channel sink).managed = (channel, s.tasks.length) :: s.managed := by
  unfold launch
  rw [Bus.subscribe_of_open hopen]
  exact ⟨rfl, rfl, rfl⟩

/-- Where the manager lists no stream and waits for none, none is on duty. -/
theorem Agrees.duty_of_unlisted (h : s.Agrees duty) (hidle : s.Unoccupied)
    (hfree : s.managed? c = none) : duty c = none := by
  cases hduty : duty c with
  | none => rfl
  | some i =>
      obtain ⟨t, ht, hlive, -, -, ⟨-, hlisted⟩ | hasked⟩ := h.on_duty hduty
      · rw [hfree] at hlisted
        cases hlisted
      · have hended := hidle t (List.mem_of_getElem? ht) (by simp [hasked])
        simp [hlive] at hended

theorem managed?_launch (hopen : s.bus.isOpen = true) (sink : Nat) :
    (s.launch c sink).managed? channel =
      if channel = c then some s.tasks.length else s.managed? channel := by
  rw [managed?, (launch_of_open hopen c sink).2.2, List.find?_cons, managed?]
  by_cases hc : channel = c
  · simp [hc]
  · simp [hc, Ne.symm hc]

theorem Staffed.launch_ne {o : Option Nat} (h : s.Staffed channel o)
    (hopen : s.bus.isOpen = true) (hc : channel ≠ c) (sink : Nat) :
    (s.launch c sink).Staffed channel o := by
  obtain ⟨hbus, htasks, -⟩ := launch_of_open hopen c sink
  refine h.of_same ?_ ?_ ?_ ?_
  · rw [hbus, Bus.claims_subscribe hopen, if_neg hc, List.append_nil]
  · intro hnone
    rw [hbus, Bus.owner?_subscribe hopen, if_neg hc, hnone]
  · rw [managed?_launch hopen, if_neg hc]
  · intro j u _ hu hinformed
    constructor
    · rw [htasks, List.getElem?_append_left (List.getElem?_eq_some_iff.mp hu).1, hu]
    · rw [hbus]
      exact hinformed.subscribe_ne hopen hc

theorem Agrees.launch (h : s.Agrees duty) (hidle : s.Unoccupied) (hfree : s.managed? c = none)
    (sink : Nat) : (s.launch c sink).Agrees (Function.update duty c (some s.tasks.length)) := by
  obtain ⟨hbus, htasks, -⟩ := launch_of_open h.isOpen c sink
  have hduty := h.duty_of_unlisted hidle hfree
  have hgiven := (h.off_duty hduty).2
  have hnew : (s.launch c sink).tasks[s.tasks.length]? =
      some { subscription := s.bus.mailboxes.length, sink, stream := {} } := by
    rw [htasks, List.getElem?_concat_length]
  constructor
  · rw [hbus]
    exact h.bus.subscribe c
  · rw [hbus, Bus.subscribe_of_open h.isOpen]
    exact h.isOpen
  · intro channel
    rw [hbus, Bus.claims_subscribe h.isOpen]
    by_cases hc : channel = c
    · subst hc
      rw [if_pos rfl]
      exact (h.alternates channel).take hgiven
    · rw [if_neg hc, List.append_nil]
      exact h.alternates channel
  · intro channel
    by_cases hc : channel = c
    · subst hc
      rw [Function.update_self]
      refine .stream hnew rfl ?_ ?_ (.inl ⟨rfl, ?_⟩)
      · rw [hbus]
        exact Bus.informed_subscribe h.isOpen
      · simp [hbus, Bus.claims_subscribe h.isOpen]
      · rw [managed?_launch h.isOpen, if_pos rfl]
    · rw [Function.update_of_ne hc]
      exact (h.staffed channel).launch_ne h.isOpen hc sink
  · intro j u hu hgoes
    rw [htasks] at hu
    rcases Nat.lt_trichotomy j s.tasks.length with hj | rfl | hj
    · rw [List.getElem?_append_left hj] at hu
      obtain ⟨channel, hchannel⟩ := h.employed j u hu hgoes
      refine ⟨channel, ?_⟩
      rwa [Function.update_of_ne]
      rintro rfl
      rw [hduty] at hchannel
      cases hchannel
    · exact ⟨c, Function.update_self _ _ _⟩
    · rw [List.getElem?_eq_none (by simp; omega)] at hu
      cases hu
  · intro channel j hlisted
    rw [managed?_launch h.isOpen] at hlisted
    by_cases hc : channel = c
    · subst hc
      rw [if_pos rfl, Option.some.injEq] at hlisted
      rw [← hlisted, Function.update_self]
      exact ⟨_, hnew, fun _ => rfl⟩
    · rw [if_neg hc] at hlisted
      obtain ⟨u, hu, hduty'⟩ := h.listed channel j hlisted
      rw [Function.update_of_ne hc]
      refine ⟨u, ?_, hduty'⟩
      rw [htasks, List.getElem?_append_left (List.getElem?_eq_some_iff.mp hu).1, hu]

/-! ## Courses -/

theorem Broken.turn (h : s.Broken) (i : Nat) : (s.poll i).Broken := by
  obtain ⟨t, ht, hbroken⟩ := h
  obtain ⟨j, ht⟩ := List.mem_iff_getElem?.mp ht
  cases hu : s.tasks[i]? with
  | none =>
      rw [poll_of_none hu]
      exact ⟨t, List.mem_of_getElem? ht, hbroken⟩
  | some u =>
      cases hlive : u.ending with
      | some ending =>
          rw [poll_of_ended hu (by simp [hlive])]
          exact ⟨t, List.mem_of_getElem? ht, hbroken⟩
      | none =>
          obtain ⟨turn, hturned, -⟩ := poll_turned hu hlive
          have hij : i ≠ j := by
            rintro rfl
            rw [hu, Option.some.injEq] at ht
            rw [← ht, hlive] at hbroken
            cases hbroken
          exact ⟨t, List.mem_of_getElem? ((hturned.task_ne hij).trans ht), hbroken⟩

theorem Broken.signal (h : s.Broken) (i : Nat) (signal : Signal) : (s.signal i signal).Broken := by
  obtain ⟨t, ht, hbroken⟩ := h
  obtain ⟨j, ht⟩ := List.mem_iff_getElem?.mp ht
  have htasks : (s.signal i signal).tasks =
      s.tasks.modify i fun t => { t with signal := some signal } := rfl
  by_cases hij : i = j
  · subst hij
    have hsignalled : (s.signal i signal).tasks[i]? = some { t with signal := some signal } := by
      simp [htasks, ht]
    exact ⟨_, List.mem_of_getElem? hsignalled, hbroken⟩
  · have hsame : (s.signal i signal).tasks[j]? = some t := by simp [htasks, hij, ht]
    exact ⟨t, List.mem_of_getElem? hsame, hbroken⟩

theorem Broken.launch (h : s.Broken) (channel : String) (sink : Nat) :
    (s.launch channel sink).Broken := by
  obtain ⟨t, ht, hbroken⟩ := h
  obtain ⟨more, htasks, -⟩ := tasks_launch s channel sink
  exact ⟨t, by rw [htasks]; exact List.mem_append_left _ ht, hbroken⟩

theorem Course.broken_or_agrees (h : Course stamp s) : s.Broken ∨ ∃ duty, s.Agrees duty := by
  -- what a sink breaks stays broken; until then each part of the course keeps the books
  induction h with
  | start => exact .inr ⟨_, agrees_initial stamp⟩
  | turn hcourse i ih =>
      rcases ih with hbroken | ⟨duty, h⟩
      · exact .inl (hbroken.turn i)
      · exact h.turn i
  | schedule hcourse ready ih => exact ih.imp id fun ⟨duty, h⟩ => ⟨duty, h.off_books rfl rfl rfl⟩
  | dispatch hcourse frame ih => exact ih.imp id fun ⟨duty, h⟩ => ⟨duty, h.dispatch frame⟩
  | send hcourse hframe ih => exact ih.imp id fun ⟨duty, h⟩ => ⟨duty, h.send hframe⟩
  | failAll hcourse failure ih => exact ih.imp id fun ⟨duty, h⟩ => ⟨duty, h.failAll failure⟩
  | pass hcourse duration ih => exact ih.imp id fun ⟨duty, h⟩ => ⟨duty, h.off_books rfl rfl rfl⟩
  | output hcourse sinks ih => exact ih.imp id fun ⟨duty, h⟩ => ⟨duty, h.off_books rfl rfl rfl⟩
  | dismiss hcourse hlisted hended ih =>
      exact ih.imp id fun ⟨duty, h⟩ => ⟨duty, h.dismiss hlisted hended⟩
  | retire hcourse hlisted hlive ih =>
      rcases ih with hbroken | ⟨duty, h⟩
      · exact .inl (Broken.signal hbroken _ _)
      · exact .inr ⟨duty, h.retire hlisted hlive⟩
  | launch hcourse hidle hfree sink ih =>
      rcases ih with hbroken | ⟨duty, h⟩
      · exact .inl (hbroken.launch _ sink)
      · exact .inr ⟨_, h.launch hidle hfree sink⟩

/-- In a quiescent session a stream on duty owns its channel and is listed. -/
theorem Agrees.at_rest (h : s.Agrees duty) (hquiet : s.Quiescent) (hduty : duty c = some i) :
    (s.bus.owner? c).isSome ∧ s.managed? c = some i ∧ s.ending? i = none := by
  obtain ⟨t, ht, hlive, hinformed, -, hasked⟩ := h.on_duty hduty
  obtain ⟨turn, hturned, hturn⟩ := poll_turned ht hlive
  -- a turn that changes nothing does not end the stream
  have hending : turn.ending = none := by
    have hself := hturned.task_self ht
    rw [hquiet i, ht, Option.some.injEq] at hself
    rw [← hlive, hself]
  rcases hturn with hbroken | rfl
  · rw [hending] at hbroken
    cases hbroken
  · have hkind : t.signal ≠ some .abort := by
      rcases hasked with ⟨hasked, -⟩ | hasked <;> simp [hasked]
    rcases turn_of_informed h.bus hinformed hkind s.clock with ⟨hended, -⟩ | ⟨-, hsignal, howner⟩
    · simp [hending] at hended
    · refine ⟨by simp [howner], ?_, by simp [ending?, ht, hlive]⟩
      rcases hasked with ⟨-, hlisted⟩ | hasked
      · exact hlisted
      · rw [hsignal] at hasked
        cases hasked

theorem Agrees.isStreaming_iff (h : s.Agrees duty) (hquiet : s.Quiescent) :
    s.isStreaming c = true ↔ (duty c).isSome := by
  constructor
  · intro hstreams
    unfold isStreaming at hstreams
    cases hlisted : s.managed? c with
    | none => simp [hlisted] at hstreams
    | some i =>
        obtain ⟨t, ht, hduty⟩ := h.listed c i hlisted
        have hlive : t.ending = none := by simpa [hlisted, ending?, ht] using hstreams
        simp [hduty hlive]
  · intro hsome
    obtain ⟨i, hduty⟩ := Option.isSome_iff_exists.mp hsome
    obtain ⟨-, hlisted, hlive⟩ := h.at_rest hquiet hduty
    simp [isStreaming, hlisted, hlive]

theorem Agrees.mem_channels_iff (h : s.Agrees duty) (hquiet : s.Quiescent) :
    c ∈ s.bus.channels ↔ (duty c).isSome := by
  rw [Bus.mem_channels_iff]
  cases hduty : duty c with
  | none => simp [(h.off_duty hduty).1]
  | some i => simp [(h.at_rest hquiet hduty).1]

theorem Agrees.taken_iff (h : s.Agrees duty) :
    (s.bus.claims c).getLast? = some .taken ↔ (duty c).isSome := by
  cases hduty : duty c with
  | none => simp [(h.off_duty hduty).2]
  | some i =>
      obtain ⟨-, -, -, -, htaken, -⟩ := h.on_duty hduty
      simp [htaken]

theorem Course.agrees (h : Course stamp s) (hsturdy : ¬ s.Broken) : ∃ duty, s.Agrees duty :=
  h.broken_or_agrees.resolve_left hsturdy

theorem Underway.given_of_stop (h : s.Underway stamp)
    (hsturdy : ¬ (s.stopStreaming c).2.Broken) :
    ((s.stopStreaming c).2.bus.claims c).getLast? ≠ some .taken := by
  obtain ⟨hstopped, hfree⟩ := h.stopStreaming c
  obtain ⟨duty, hagrees⟩ := hstopped.course.agrees hsturdy
  have hduty := hagrees.duty_of_unlisted hstopped.unoccupied hfree
  exact (hagrees.off_duty hduty).2

theorem Underway.taken_of_start (h : s.Underway stamp) {sink : Nat}
    (hsturdy : ¬ (s.startStreaming c sink).2.Broken) :
    ((s.startStreaming c sink).2.bus.claims c).getLast? = some .taken := by
  rw [startStreaming_eq] at hsturdy ⊢
  obtain ⟨hstopped, hfree⟩ := h.stopStreaming c
  obtain ⟨duty, hagrees⟩ := hstopped.course.agrees fun hbroken => hsturdy (hbroken.launch c sink)
  have hlaunched := hagrees.launch hstopped.unoccupied hfree sink
  rw [hlaunched.taken_iff, Function.update_self]
  rfl

/-- Runs of managed streams are courses, a round makes a session quiescent, and a
channel is taken when its stream is started and given up when that is stopped.
In every course in which no sink breaks under a stream, the endpoint sees each
channel being taken and given up in turn.  Whenever the session is quiescent the
manager streams a channel iff the bus has an owner for it iff the endpoint was
last told that it is taken. -/
theorem manager_bus_and_endpoint_agree (stamp : Int64) :
    (∀ steps : List (Bool × Step), (∀ entry ∈ steps, entry.2.Managed) →
      let s := run { bus := { stamp } } steps
      Course stamp s ∧ Course stamp s.settle ∧ s.settle.Quiescent ∧
        ∀ channel breaksOn,
          let started := (s.perform (.startStreaming channel breaksOn)).2
          let stopped := (s.perform (.stopStreaming channel)).2
          (¬ started.Broken → (started.bus.claims channel).getLast? = some .taken) ∧
            (¬ stopped.Broken → (stopped.bus.claims channel).getLast? ≠ some .taken)) ∧
    ∀ s, Course stamp s → ¬ s.Broken → ∀ channel,
      Alternates (s.bus.claims channel) ∧
        (s.Quiescent →
          (s.isStreaming channel = true ↔ channel ∈ s.bus.channels) ∧
            (channel ∈ s.bus.channels ↔
              (s.bus.claims channel).getLast? = some .taken)) := by
  constructor
  · intro steps hsteps s
    have hrun := (underway_initial stamp).run hsteps
    refine ⟨hrun.course, hrun.course.settle, hrun.quiescent_settle, ?_⟩
    intro channel breaksOn
    exact ⟨(hrun.openSink breaksOn).taken_of_start, hrun.given_of_stop⟩
  · intro s hcourse hsturdy channel
    obtain ⟨duty, h⟩ := hcourse.agrees hsturdy
    refine ⟨h.alternates channel, ?_⟩
    intro hquiet
    rw [h.isStreaming_iff hquiet, h.mem_channels_iff hquiet, h.taken_iff]
    exact ⟨Iff.rfl, Iff.rfl⟩

/-- One stream gets an error and is started anew before it had its turn, the
other one loses its channel when everything fails. -/
theorem manager_bus_and_endpoint_agree_past_failures :
    let steps : List (Bool × Step) :=
      [(false, .startStreaming "out" none), (false, .startStreaming "err" none),
        (true, .dispatch (.error (some "out") "gone")), (true, .failAll .closed),
        (true, .startStreaming "out" none)]
    let s := (run { bus := { stamp := 7 } } steps).settle
    s.Quiescent ∧ s.bus.claims "out" = [.taken, .given, .taken] ∧
      s.bus.claims "err" = [.taken, .given] ∧ s.isStreaming "out" = true ∧
      "out" ∈ s.bus.channels ∧ s.isStreaming "err" = false ∧ "err" ∉ s.bus.channels := by
  intro steps s
  obtain ⟨hruns, hagree⟩ := manager_bus_and_endpoint_agree 7
  have hsteps : ∀ entry ∈ steps, entry.2.Managed := by simp [steps, Step.Managed]
  obtain ⟨-, hcourse, hquiet, -⟩ := hruns steps hsteps
  have hsturdy : ¬ s.Broken := by
    unfold Broken
    decide +kernel
  have hout : s.bus.claims "out" = [.taken, .given, .taken] := by decide +kernel
  have herr : s.bus.claims "err" = [.taken, .given] := by decide +kernel
  obtain ⟨-, hbooks⟩ := hagree s hcourse hsturdy "out"
  obtain ⟨-, hbooks'⟩ := hagree s hcourse hsturdy "err"
  obtain ⟨hstreams, hclaims⟩ := hbooks hquiet
  obtain ⟨hstreams', hclaims'⟩ := hbooks' hquiet
  have hheld := hclaims.mpr (by simp [hout])
  have hlost : "err" ∉ s.bus.channels := by simp [hclaims', herr]
  exact ⟨hquiet, hout, herr, hstreams.mpr hheld, hheld,
    Bool.eq_false_iff.mpr (hstreams'.not.mpr hlost), hlost⟩

end Session

end DevMachine

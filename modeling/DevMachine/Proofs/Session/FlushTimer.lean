import DevMachine.Proofs.Session.Lifetimes
import Mathlib.Data.List.Induction

/-!
# When a stream flushes

The flush timer of a stream is told by two things: when the items arrived that
hold a message, whatever the reassembler makes of it, and when the stream got
its turns.
-/

namespace DevMachine

open Channel (Item)
open Logs (Message Reassembly Sink Stream Turn)

namespace Session

variable {s : Session} {i : Nat} {v : View} {w : Watch}

def decodable : Item → Bool
  | .ok body => (Message.ofValue body).isOk
  | .error _ => false

/-- When the last item arrived that holds a message. -/
def lastDecodable (arrived : List (Nat × Item)) : Option Nat :=
  ((arrived.filter fun entry => decodable entry.2).getLast?).map (·.1)

/-- One timeout after the last message, unless that is over. -/
def armed (timeout now : Nat) (arrived : List (Nat × Item)) : Option Nat :=
  ((lastDecodable arrived).map (· + timeout)).filter (now < ·)

def latest (looks : List Look) : Nat := (looks.getLast?.map Look.now).getD 0

/-- Whether the timer makes a stream flush at a look: one timeout is over since
the last message, and it was not yet over at the look before. -/
def strikes (timeout : Nat) (before : List Look) (l : Look) : Bool :=
  (lastDecodable (taken (before ++ [l]))).any fun heard =>
    heard + timeout ≤ l.now && (l.found.any decodable || latest before < heard + timeout)

/-- What a stream that goes on does to its reassembler: it accepts what it finds
and flushes when the timer strikes. -/
def timed (timeout : Nat) (before : List Look) : List Look → List Reassembly.Operation
  | [] => []
  | l :: later =>
    (Logs.messages l.found).map .accept ++ (if strikes timeout before l then [.flush] else []) ++
      timed timeout (before ++ [l]) later

theorem messages_isEmpty {items : List Item} (hitems : Logs.failure? items = none) :
    (Logs.messages items).isEmpty = !items.any decodable := by
  induction items with
  | nil => rfl
  | cons item items ih =>
      cases item with
      | error e => cases hitems
      | ok body =>
          have hrest : Logs.failure? items = none := hitems
          cases hbody : Message.ofValue body with
          | error refusal =>
              rw [Logs.messages_cons_of_error hbody, ih hrest]
              simp [decodable, hbody, Except.isOk, Except.toBool]
          | ok m =>
              rw [Logs.messages_cons_of_ok hbody]
              simp [decodable, hbody, Except.isOk, Except.toBool]

theorem lastDecodable_append (arrived : List (Nat × Item)) (now : Nat) (items : List Item) :
    lastDecodable (arrived ++ items.map fun item => (now, item)) =
      if items.any decodable then some now else lastDecodable arrived := by
  have hfilter : (items.map fun item => (now, item)).filter (fun entry => decodable entry.2) =
      (items.filter decodable).map fun item => (now, item) := List.filter_map
  rw [lastDecodable, List.filter_append, hfilter, List.getLast?_append, List.getLast?_map]
  cases hlast : (items.filter decodable).getLast? with
  | none =>
      have hnone : items.any decodable = false := by
        rw [List.getLast?_eq_none_iff, List.filter_eq_nil_iff] at hlast
        exact List.any_eq_false.mpr hlast
      simp [hnone, lastDecodable]
  | some item =>
      have hmem := List.mem_filter.mp (List.mem_of_getLast? hlast)
      have hany : items.any decodable = true := List.any_eq_true.mpr ⟨item, hmem⟩
      simp [hany]

theorem lastDecodable_concat (looks : List Look) (l : Look) :
    lastDecodable (taken (looks ++ [l])) =
      if l.found.any decodable then some l.now else lastDecodable (taken looks) := by
  have htaken : taken (looks ++ [l]) = taken looks ++ l.found.map fun item => (l.now, item) := by
    simp [taken]
  rw [htaken, lastDecodable_append]

theorem latest_concat (looks : List Look) (l : Look) : latest (looks ++ [l]) = l.now := by
  simp [latest]

theorem Look.deadline_of_live {l : Look} (hlive : l.ending? = none) (timeout : Nat)
    (earlier : Option Nat) :
    l.deadline timeout earlier =
      if l.found.any decodable then some (l.now + timeout) else earlier := by
  obtain ⟨hasked, hfailure, -⟩ := Look.eq_of_live hlive
  rw [Look.deadline, l.messages_eq (by simp [hasked]), messages_isEmpty hfailure]
  cases l.found.any decodable <;> rfl

theorem Look.later_eq (l : Look) (timeout : Nat) (earlier : Option Nat) :
    l.later timeout earlier = (l.deadline timeout earlier).filter (l.now < ·) := by
  unfold Look.later Look.expires
  cases l.deadline timeout earlier with
  | none => rfl
  | some t =>
      by_cases ht : t ≤ l.now
      · simp [Option.filter, ht, Nat.not_lt.mpr ht]
      · simp [Option.filter, ht, Nat.lt_of_not_le ht]

theorem armed_filter {now now' : Nat} (hnow : now ≤ now') (timeout : Nat)
    (arrived : List (Nat × Item)) :
    (armed timeout now arrived).filter (now' < ·) = armed timeout now' arrived := by
  unfold armed
  cases lastDecodable arrived with
  | none => rfl
  | some heard =>
      by_cases hover : heard + timeout ≤ now
      · have hover' : heard + timeout ≤ now' := Nat.le_trans hover hnow
        simp [Option.filter, Nat.not_lt.mpr hover, Nat.not_lt.mpr hover']
      · simp [Option.filter, Nat.lt_of_not_le hover]

theorem armed_eq_some_iff {timeout now deadline : Nat} {arrived : List (Nat × Item)} :
    armed timeout now arrived = some deadline ↔
      ∃ heard, lastDecodable arrived = some heard ∧ now < heard + timeout ∧
        heard + timeout = deadline := by
  unfold armed
  simp only [Option.filter_eq_some_iff, Option.map_eq_some_iff, decide_eq_true_eq]
  constructor
  · rintro ⟨⟨heard, hheard, rfl⟩, hnow⟩
    exact ⟨heard, hheard, hnow, rfl⟩
  · rintro ⟨heard, hheard, hnow, rfl⟩
    exact ⟨⟨heard, hheard, rfl⟩, hnow⟩

/-- The deadline of a stream is one timeout after its last message until a look
takes place then or later. -/
theorem deadlineAfter_eq (timeout : Nat) {looks : List Look} (hlive : endingOf looks = none)
    (hordered : (looks.map Look.now).Pairwise (· ≤ ·)) :
    deadlineAfter timeout none looks = armed timeout (latest looks) (taken looks) := by
  induction looks using List.reverseRecOn with
  | nil => rfl
  | append_singleton looks l ih =>
      rw [endingOf_eq_none_iff, List.forall_mem_append, List.forall_mem_singleton] at hlive
      obtain ⟨hlooks, hl⟩ := hlive
      rw [List.map_append, List.pairwise_append] at hordered
      have hlatest : latest looks ≤ l.now := by
        unfold latest
        cases hlast : looks.getLast? with
        | none => exact Nat.zero_le _
        | some l' =>
            exact hordered.2.2 _ (List.mem_map_of_mem (List.mem_of_getLast? hlast)) _
              List.mem_cons_self
      have hdeadline : deadlineAfter timeout none (looks ++ [l]) =
          l.later timeout (deadlineAfter timeout none looks) := by simp [deadlineAfter]
      rw [hdeadline, ih (endingOf_eq_none_iff.mpr hlooks) hordered.1, Look.later_eq,
        Look.deadline_of_live hl, latest_concat]
      cases hany : l.found.any decodable with
      | true => simp [armed, lastDecodable_concat, hany]
      | false =>
          -- a look without messages can only let the deadline run out
          have harmed := armed_filter hlatest timeout (taken looks)
          simpa [armed, lastDecodable_concat, hany] using harmed

/-- The timer of a stream strikes when its deadline has come. -/
theorem expires_eq_strikes (timeout : Nat) (before : List Look) {l : Look}
    (hlive : l.ending? = none) :
    l.expires timeout (armed timeout (latest before) (taken before)) =
      strikes timeout before l := by
  rw [Look.expires, Look.deadline_of_live hlive, strikes, lastDecodable_concat]
  cases hany : l.found.any decodable with
  | true => simp
  | false =>
      unfold armed
      cases lastDecodable (taken before) with
      | none => rfl
      | some heard =>
          by_cases hover : latest before < heard + timeout
          · simp [hover]
          · simp [hover]

theorem operations_eq_timed (timeout : Nat) {before looks : List Look}
    (hlive : endingOf (before ++ looks) = none)
    (hordered : ((before ++ looks).map Look.now).Pairwise (· ≤ ·)) :
    operations timeout (deadlineAfter timeout none before) looks = timed timeout before looks := by
  induction looks generalizing before with
  | nil => rfl
  | cons l looks ih =>
      have hsplit : before ++ l :: looks = (before ++ [l]) ++ looks := by simp
      have hlives := endingOf_eq_none_iff.mp hlive
      have hl : l.ending? = none := hlives l (by simp)
      have hbefore : endingOf before = none :=
        endingOf_eq_none_iff.mpr fun l' hl' => hlives l' (List.mem_append_left _ hl')
      have hpast : (before.map Look.now).Pairwise (· ≤ ·) :=
        hordered.sublist ((List.sublist_append_left before _).map _)
      have hmessages := l.messages_eq (by simp [(Look.eq_of_live hl).1])
      have hflushes : l.flushes timeout (deadlineAfter timeout none before) =
          strikes timeout before l := by
        rw [deadlineAfter_eq timeout hbefore hpast, ← expires_eq_strikes timeout before hl]
        simp [Look.flushes, hl]
      have hlater : l.later timeout (deadlineAfter timeout none before) =
          deadlineAfter timeout none (before ++ [l]) := by simp [deadlineAfter]
      rw [hsplit] at hlive hordered
      rw [operations, Look.operations, hl, hmessages, hflushes, hlater, timed, ← ih hlive hordered]
      rfl

theorem deadlineAfter_isSome (timeout : Nat) {r : Reassembly} {earlier : Option Nat}
    {looks : List Look} (hlive : endingOf looks = none)
    (hcovered : r.pending ≠ [] → earlier.isSome)
    (hwaits : (r.after (operations timeout earlier looks)).pending ≠ []) :
    (deadlineAfter timeout earlier looks).isSome := by
  induction looks generalizing r earlier with
  | nil => exact hcovered hwaits
  | cons l looks ih =>
      have hlives := endingOf_eq_none_iff.mp hlive
      have hl : l.ending? = none := hlives l List.mem_cons_self
      have hlooks : endingOf looks = none :=
        endingOf_eq_none_iff.mpr fun l' hl' => hlives l' (List.mem_cons_of_mem l hl')
      rw [operations, hl, Reassembly.after_append] at hwaits
      refine ih hlooks ?_ hwaits
      intro hpending
      have hflushes : l.flushes timeout earlier = l.expires timeout earlier := by
        simp [Look.flushes, hl]
      rw [Look.operations, hflushes, Reassembly.after_append] at hpending
      rw [Look.later]
      cases hexpires : l.expires timeout earlier with
      | true =>
          rw [hexpires] at hpending
          exact absurd (Reassembly.perform_flush_pending _) hpending
      | false =>
          cases hmessages : l.messages with
          | nil =>
              have hbefore : r.pending ≠ [] := by simpa [hexpires, hmessages] using hpending
              simpa [Look.deadline, hmessages] using hcovered hbefore
          | cons m messages => simp [Look.deadline, hmessages]

def View.elapsed (v : View) (duration : Nat) : View := { v with now := v.now + duration }

theorem Shows.sleep (hs : s.Sound) (hv : s.Shows i v) (halert : s.Alert i v) (hidle : v.Idle)
    (queued : Bool) (duration : Nat) :
    (s.step queued (.sleep duration)).2.Shows i (v.elapsed duration).poll := by
  have hsettled := hv.settle hs halert
  rw [View.poll_of_idle hidle] at hsettled
  have helapsed := hsettled.1.advance hsettled.2 duration
  have hsound : (s.settle.move (.advance duration)).Sound := hs.settle.move trivial
  have hturned := helapsed.1.settle hsound helapsed.2
  cases queued with
  | true => exact hturned.1
  | false =>
      have hagain := hturned.1.settle hsound.settle hturned.2
      rw [View.poll_poll] at hagain
      exact hagain.1

/-- A broken sink ends a stream, but not before its turn has done its work. -/
theorem View.stream_turn (v : View) : v.turn.stream = (lookTurn v.task.stream v.look).stream := by
  unfold View.turn
  split <;> rfl

theorem View.poll_elapsed (hidle : v.Idle) (hlive : v.task.ending = none) (duration : Nat) :
    if v.task.stream.isDue (v.now + duration) then
      (v.elapsed duration).poll.task.stream = v.task.stream.flush.2 ∧
        (v.elapsed duration).poll.sink =
          v.sink.write (v.task.stream.reassembly.pending.map (·.text))
    else (v.elapsed duration).poll = v.elapsed duration := by
  split
  next hdue =>
    have hlook : lookTurn v.task.stream (v.elapsed duration).look =
        { printed := v.task.stream.flush.1, stream := v.task.stream.flush.2 } := by
      simp [lookTurn, look, elapsed, hidle.unasked, hidle.read, hidle.owned, Stream.turn,
        Stream.takeAll, hdue]
    have hlive' : (v.elapsed duration).task.ending = none := hlive
    have hstream := (v.elapsed duration).stream_turn
    have hlines : (v.elapsed duration).lines = v.task.stream.flush.1.map (·.text) :=
      congrArg (fun turn => turn.printed.map (·.text)) hlook
    rw [View.poll_of_live hlive']
    constructor
    · exact hstream.trans (congrArg Turn.stream hlook)
    · exact congrArg v.sink.write hlines
  next hdue =>
    have hwaits : v.task.stream.isDue (v.now + duration) = false := by simpa using hdue
    exact View.poll_of_idle ⟨⟨hidle.unasked, hidle.read, hidle.owned⟩, hwaits⟩

/-- What waits is printed once the deadline has come and not before. -/
theorem Shows.flushes_after_sleep (hs : s.Sound) (hv : s.Shows i v) (halert : s.Alert i v)
    (hidle : v.Idle) (hlive : v.task.ending = none) (queued : Bool) (duration : Nat) :
    let later := (s.step queued (.sleep duration)).2
    if v.task.stream.deadline.any (· ≤ s.clock + duration) then
      later.tasks[i]?.map Task.stream = some v.task.stream.flush.2 ∧
        later.sinks[v.task.sink]? =
          some (v.sink.write (v.task.stream.reassembly.pending.map (·.text)))
    else later.tasks[i]? = some v.task ∧ later.sinks[v.task.sink]? = some v.sink := by
  intro later
  have hlater : later.Shows i (v.elapsed duration).poll :=
    hv.sleep hs halert hidle queued duration
  have hpoll := View.poll_elapsed hidle hlive duration
  rw [Stream.isDue_eq, ← hv.now] at hpoll
  split
  next hdue =>
    rw [if_pos hdue] at hpoll
    have hattached : (v.elapsed duration).poll.task.sink = v.task.sink := by
      rw [View.poll_of_live (v := v.elapsed duration) hlive]
      rfl
    have hsink := hlater.sink
    rw [hattached, hpoll.2] at hsink
    exact ⟨by rw [hlater.task, Option.map_some, hpoll.1], hsink⟩
  next hdue =>
    rw [if_neg hdue] at hpoll
    rw [hpoll] at hlater
    exact ⟨hlater.task, hlater.sink⟩

/-! ## The flush timer law -/

/-- A stream at rest, in the light of what arrived for it and when it had its
turns. -/
structure FlushesOnTime (s : Session) (i : Nat) (t : Task) (looks : List Look)
    (arrived : List (Nat × Item)) : Prop where
  /-- Every item was found when it arrived. -/
  found : arrived = taken looks
  /-- The deadline is one timeout after the last message. -/
  deadline : t.stream.deadline = armed t.stream.timeout s.clock arrived
  /-- There is one when messages wait, and it is still to come. -/
  covered : t.stream.reassembly.pending ≠ [] →
    ∃ heard, lastDecodable arrived = some heard ∧ s.clock < heard + t.stream.timeout ∧
      t.stream.deadline = some (heard + t.stream.timeout)
  /-- All that was done is to accept messages, and to flush when the timer
  struck. -/
  done : t.stream.reassembly = Reassembly.after {} (timed t.stream.timeout [] looks)
  /-- All that was printed is what this prints. -/
  printed : ∃ k, s.sinks[t.sink]? = some k ∧
    let lines := (Reassembly.printed {} (timed t.stream.timeout [] looks)).map (·.text)
    k.lines <+: lines ∧ (k.discards = false → k.lines = lines)
  /-- When nothing else arrives, what waits is printed once the deadline has come
  and not before. -/
  next : ∀ (queued : Bool) (duration : Nat) (k : Sink), s.sinks[t.sink]? = some k →
    let later := (s.step queued (.sleep duration)).2
    if t.stream.deadline.any (· ≤ s.clock + duration) then
      later.tasks[i]?.map Task.stream = some t.stream.flush.2 ∧
        later.sinks[t.sink]? = some (k.write (t.stream.reassembly.pending.map (·.text)))
    else later.tasks[i]? = some t ∧ later.sinks[t.sink]? = some k

theorem latest_le (h : Timely s w) : latest w.looks ≤ s.clock := by
  unfold latest
  cases hlast : w.looks.getLast? with
  | none => exact Nat.zero_le _
  | some l => exact h.past l (List.mem_of_getLast? hlast)

theorem Live.deadline_eq (hw : Live v w) (hlive : endingOf w.looks = none) (htimely : Timely s w)
    (hwaits : v.task.stream.isDue s.clock = false) :
    v.task.stream.deadline = armed w.timeout s.clock (taken w.looks) := by
  have harmed := hw.deadline.trans (deadlineAfter_eq w.timeout hlive htimely.ordered)
  rw [← armed_filter (latest_le htimely), ← harmed]
  rw [Stream.isDue_eq] at hwaits
  cases hdeadline : v.task.stream.deadline with
  | none => rfl
  | some deadline =>
      have hahead : s.clock < deadline := by simpa [hdeadline] using hwaits
      simp [Option.filter, hahead]

theorem Accounts.covered (hw : Accounts v w) (hlive : v.task.ending = none)
    (hwaits : v.task.stream.reassembly.pending ≠ []) : v.task.stream.deadline.isSome := by
  have hpast := hw.live hlive
  rw [hpast.reassembly] at hwaits
  rw [hpast.deadline]
  exact deadlineAfter_isSome w.timeout (hw.ending.symm.trans hlive) (fun h => absurd rfl h) hwaits

/-- Whenever a stream that goes on has nothing to do, its timer is set by the last
message that arrived, and everything was flushed on time. -/
theorem live_stream_flushes_on_time (steps : List (Bool × Step)) (hsteps : Permitted {} steps)
    (i : Nat) (t : Task) (ht : (run {} steps).tasks[i]? = some t) (hlive : t.ending = none)
    (hrest : (run {} steps).poll i = run {} steps) :
    FlushesOnTime (run {} steps) i t (watched i steps).looks (arrivedBy i steps) := by
  have hsound := sound_run hsteps
  obtain ⟨v, hv, rfl⟩ := hsound.shows ht
  obtain ⟨haccounts, halert⟩ := accounts_of_live hsteps hv hlive
  have hpast := haccounts.live hlive
  have hunended : endingOf (watched i steps).looks = none := haccounts.ending.symm.trans hlive
  have htimely := timely_run i steps
  have hidle := hv.idle_of_rest hsound hlive hrest
  have hfound : arrivedBy i steps = taken (watched i steps).looks := by
    rw [arrivedBy_eq, ← hpast.found, hidle.read]
    exact List.append_nil _
  have hdone : (watched i steps).operations =
      timed v.task.stream.timeout [] (watched i steps).looks := by
    have hoperations : operations (watched i steps).timeout
        (deadlineAfter (watched i steps).timeout none []) (watched i steps).looks =
          timed (watched i steps).timeout [] (watched i steps).looks :=
      operations_eq_timed (watched i steps).timeout hunended htimely.ordered
    rw [hpast.timeout]
    exact hoperations
  have hdeadline : v.task.stream.deadline =
      armed v.task.stream.timeout (run {} steps).clock (arrivedBy i steps) := by
    rw [hfound, hpast.timeout]
    exact hpast.deadline_eq hunended htimely (hv.now ▸ hidle.waits)
  constructor
  · exact hfound
  · exact hdeadline
  · intro hwaits
    obtain ⟨deadline, hsome⟩ := Option.isSome_iff_exists.mp (haccounts.covered hlive hwaits)
    obtain ⟨heard, hheard, hahead, rfl⟩ := armed_eq_some_iff.mp (hdeadline.symm.trans hsome)
    exact ⟨heard, hheard, hahead, hsome⟩
  · rw [← hdone]
    exact hpast.reassembly
  · refine ⟨v.sink, hv.sink, ?_⟩
    rw [← hdone]
    exact ⟨haccounts.lines, haccounts.complete⟩
  · intro queued duration k hk
    obtain rfl : v.sink = k := Option.some.inj (hv.sink.symm.trans hk)
    exact hv.flushes_after_sleep hsound halert hidle hlive queued duration

/-- The line 2 was given up at 6000, the line 4 waits, and a stale line has put
its flush off. -/
theorem live_stream_flushes_on_time_past_stale_line :
    let message (number : Nat) (text : String) : Step :=
      .dispatch (.event "logs" (.object [("num", .ofNat number), ("line", .string text)]))
    let before : List (Bool × Step) :=
      [(false, .spawn "logs" 5000 none), (false, message 2 "b"), (false, .sleep 6000),
        (false, message 4 "d"), (false, .sleep 3000), (true, message 1 "a"),
        (false, .dispatch (.event "logs" .null))]
    let steps := before ++ [(false, .sleep 1000)]
    Permitted {} steps ∧ (run {} steps).poll 0 = run {} steps ∧
      ∃ t, (run {} steps).tasks[0]? = some t ∧ t.ending = none ∧
        t.stream.deadline = some 14000 ∧ t.stream.reassembly.pending = [⟨4, "d"⟩] ∧
        FlushesOnTime (run {} steps) 0 t (watched 0 steps).looks (arrivedBy 0 steps) := by
  intro message before steps
  have hsteps : Permitted {} steps :=
    ⟨trivial, trivial, trivial, trivial, trivial, trivial, trivial, trivial, trivial⟩
  have hrest : (run {} steps).poll 0 = run {} steps := quiescent_of_unqueued hsteps 0
  have hstarted : ((run {} steps).tasks[0]?).isSome := by decide +kernel
  obtain ⟨t, ht⟩ := Option.isSome_iff_exists.mp hstarted
  have hstate : ∀ t ∈ (run {} steps).tasks, t.ending = none ∧ t.stream.deadline = some 14000 ∧
      t.stream.reassembly.pending = [⟨4, "d"⟩] := by decide +kernel
  obtain ⟨hlive, hdeadline, hpending⟩ := hstate t (List.mem_of_getElem? ht)
  exact ⟨hsteps, hrest, t, ht, hlive, hdeadline, hpending,
    live_stream_flushes_on_time steps hsteps 0 t ht hlive hrest⟩

end Session

end DevMachine

import DevMachine.Proofs.Session.Moves
import Mathlib.Data.List.TakeWhile

/-!
# Streams refine the reassembler

A stream is watched from outside: what the bus delivers to its subscription,
what it is asked to do and when it gets a turn.  From this alone the looks of
the stream are known, and with them what it does to its reassembler.  The lines
in its sink are those that the reassembler prints, whatever else goes on in the
session.
-/

namespace DevMachine

open Channel (Bus Item Mailbox)
open Logs (Ending Message Reassembly Sink Stream)

namespace Session

/-- The items that an operation of the bus delivers to a stream. -/
def delivered (s : Session) (i : Nat) (op : Bus.Operation) : List Item :=
  match s.tasks[i]?, s.channel? i with
  | some t, some channel => s.bus.received channel t.subscription op
  | _, _ => []

def backlog (s : Session) (id : Nat) : List Item :=
  ((s.bus.mailboxes[id]?).map (·.items)).getD []

def sourceEnded (s : Session) (i : Nat) : Bool :=
  ((s.tasks[i]?).map fun t => !s.bus.owns t.subscription).getD true

/-- What is seen of a stream from outside: the timeout it was started with, its
looks, and what was delivered and asked since the last one. -/
structure Watch where
  timeout : Nat := 0
  looks : List Look := []
  found : List Item := []
  asked : Option Signal := none

namespace Watch

def note (i : Nat) (s : Session) (w : Watch) : Move → Watch
  | .bus op => { w with found := w.found ++ s.delivered i op }
  | .spawn subscription _ timeout =>
    if i = s.tasks.length then { timeout, found := s.backlog subscription } else w
  | .signal j signal => if j = i then { w with asked := some signal } else w
  | .settle =>
    let look : Look :=
      { now := s.clock, found := w.found, asked := w.asked, sourceEnded := s.sourceEnded i }
    { w with looks := w.looks ++ [look], found := [] }
  | _ => w

def operations (w : Watch) : List Reassembly.Operation :=
  Session.operations w.timeout none w.looks

/-- The lines that the reassembler prints. -/
def written (w : Watch) : List String := (Reassembly.printed {} w.operations).map (·.text)

end Watch

/-- Watches a stream while a session goes through some moves. -/
def watch (i : Nat) (s : Session) (w : Watch) : List Move → Watch
  | [] => w
  | m :: moves => (s.move m).watch i (w.note i s m) moves

def watched (i : Nat) (steps : List (Bool × Step)) : Watch :=
  watch i {} {} (runMoves {} steps)

variable {s : Session} {i : Nat} {v : View} {w : Watch}

theorem mem_ready_wake (s : Session) (woken : List Nat) (i : Nat) :
    i ∈ (s.wake woken).ready ↔ i ∈ s.ready ∨ i ∈ woken := by
  simp only [wake, List.mem_append, List.mem_filter, Bool.not_eq_true', List.contains_eq_mem,
    decide_eq_false_iff_not]
  tauto

/-- An operation of the bus changes the mailbox of a task and its ownership at
most, and the task is woken if it does. -/
theorem Shows.bus (hs : s.Sound) (hv : s.Shows i v) (halert : s.Alert i v) (op : Bus.Operation) :
    ∃ box owned, (s.move (.bus op)).Shows i { v with box, owned } ∧
      (s.move (.bus op)).Alert i { v with box, owned } := by
  have hmem := List.mem_of_getElem? hv.task
  have hlt := Nat.lt_of_lt_of_le (hs.subscribed v.task hmem) (s.bus.length_mailboxes_le_perform op)
  have hbox := List.getElem?_eq_getElem hlt
  refine ⟨(s.bus.perform op).mailboxes[v.task.subscription],
    (s.bus.perform op).owns v.task.subscription, ⟨hv.task, hbox, rfl, hv.sink, hv.now⟩, ?_⟩
  intro hlive hready
  have hnoticed := (mem_ready_wake s (s.noticed (s.bus.perform op)) i).not.mp hready
  rw [not_or] at hnoticed
  have hcalm := halert hlive hnoticed.1
  have hunchanged : v.box.items.length =
        (s.bus.perform op).mailboxes[v.task.subscription].items.length ∧
      s.bus.owns v.task.subscription = (s.bus.perform op).owns v.task.subscription := by
    have hi := List.mem_range.mpr (List.getElem?_eq_some_iff.mp hv.task).1
    have hnot := not_and.mp (List.mem_filter.not.mp hnoticed.2) hi
    simpa [hv.task, hv.box, hbox] using hnot
  constructor
  · exact hcalm.unasked
  · have hlength := hunchanged.1
    rw [hcalm.read] at hlength
    exact List.length_eq_zero_iff.mp hlength.symm
  · rw [← hunchanged.2, hv.owned]
    exact hcalm.owned

/-- What is delivered to a task is put behind what it has not read yet. -/
theorem Shows.delivered (hs : s.Sound) (hv : s.Shows i v) {op : Bus.Operation}
    (hop : (Move.bus op).Permitted s) (hkept : v.box.dropped = false) {box : Mailbox}
    (hbox : (s.bus.perform op).mailboxes[v.task.subscription]? = some box) :
    box = { v.box with items := v.box.items ++ s.delivered i op } := by
  have hmem := List.mem_of_getElem? hv.task
  have hheld : s.bus.Holds v.box.channel v.task.subscription v.box.items := by
    unfold Bus.Holds
    rw [hv.box, ← hkept]
  have hchannel : s.channel? i = some v.box.channel := by simp [channel?, hv.task, hv.box]
  have hdelivered : s.delivered i op = s.bus.received v.box.channel v.task.subscription op := by
    unfold Session.delivered
    rw [hv.task, hchannel]
  have hdrop : op ≠ .drop v.task.subscription := by
    rintro rfl
    exact hop v.task hmem rfl
  have hyielded : s.bus.yielded v.task.subscription op = [] := by
    cases op with
    | next id => exact if_neg fun heq => hop v.task hmem heq.symm
    | _ => rfl
  obtain ⟨rest, hrest, heq⟩ := hheld.perform hs.bus hdrop
  rw [hyielded, List.nil_append] at heq
  unfold Bus.Holds at hrest
  rw [hbox, Option.some.injEq] at hrest
  rw [hrest, hdelivered, heq]
  simp [hkept]

theorem Shows.wake (hv : s.Shows i v) (halert : s.Alert i v) (woken : List Nat) :
    (s.wake woken).Shows i v ∧ (s.wake woken).Alert i v := by
  refine ⟨⟨hv.task, hv.box, hv.owned, hv.sink, hv.now⟩, ?_⟩
  intro hlive hready
  exact halert hlive fun hmem => hready ((mem_ready_wake s woken i).mpr (.inl hmem))

theorem Shows.spawn (hv : s.Shows i v) (halert : s.Alert i v) (subscription sink timeout : Nat) :
    (s.move (.spawn subscription sink timeout)).Shows i v ∧
      (s.move (.spawn subscription sink timeout)).Alert i v := by
  have hlt := (List.getElem?_eq_some_iff.mp hv.task).1
  have hadded (t : Task) : (s.addTask t).Shows i v :=
    ⟨(List.getElem?_append_left hlt).trans hv.task, hv.box, hv.owned, hv.sink, hv.now⟩
  exact (hadded _).wake halert [s.tasks.length]

theorem Shows.openSink (hv : s.Shows i v) (halert : s.Alert i v) (breaksOn : Option String) :
    (s.move (.openSink breaksOn)).Shows i v ∧ (s.move (.openSink breaksOn)).Alert i v := by
  have hlt := (List.getElem?_eq_some_iff.mp hv.sink).1
  have hsink : (s.openSink breaksOn).2.sinks[v.task.sink]? = some v.sink := by
    unfold Session.openSink
    rw [List.getElem?_append_left hlt]
    exact hv.sink
  exact ⟨⟨hv.task, hv.box, hv.owned, hsink, hv.now⟩, halert⟩

theorem Shows.discard (hv : s.Shows i v) (halert : s.Alert i v) (sink : Nat) :
    ∃ k, (s.move (.discard sink)).Shows i { v with sink := k } ∧
      (s.move (.discard sink)).Alert i { v with sink := k } ∧
      k.lines = v.sink.lines ∧ k.breaksOn = v.sink.breaksOn ∧
      (k.discards = false → v.sink.discards = false) := by
  have halert' (k : Sink) : (s.move (.discard sink)).Alert i { v with sink := k } :=
    fun hlive hready =>
      let hcalm := halert hlive hready
      ⟨hcalm.unasked, hcalm.read, hcalm.owned⟩
  by_cases hsink : sink = v.task.sink
  · refine ⟨{ v.sink with discards := true }, ?_, halert' _, rfl, rfl, fun h => by cases h⟩
    exact ⟨hv.task, hv.box, hv.owned, by simp [move, hsink, hv.sink], hv.now⟩
  · refine ⟨v.sink, ?_, halert' _, rfl, rfl, fun h => h⟩
    exact ⟨hv.task, hv.box, hv.owned, by simp [move, hsink, hv.sink], hv.now⟩

theorem Shows.signal (hv : s.Shows i v) (halert : s.Alert i v) (j : Nat) (signal : Signal) :
    let v' := if j = i then { v with task := { v.task with signal := some signal } } else v
    (s.move (.signal j signal)).Shows i v' ∧ (s.move (.signal j signal)).Alert i v' := by
  intro v'
  by_cases hij : j = i
  · subst hij
    have hv' : v' = { v with task := { v.task with signal := some signal } } := if_pos rfl
    rw [hv']
    constructor
    · have htask : (s.move (.signal j signal)).tasks[j]? =
          some { v.task with signal := some signal } := by
        simp [move, Session.signal, Session.wake, updateTask, hv.task]
      exact ⟨htask, hv.box, hv.owned, hv.sink, hv.now⟩
    · intro _ hready
      exact absurd ((mem_ready_wake _ [j] j).mpr (.inr (by simp))) hready
  · have hv' : v' = v := if_neg hij
    rw [hv']
    have hupdated : (s.updateTask j fun t => { t with signal := some signal }).Shows i v :=
      ⟨by simp [updateTask, hij, hv.task], hv.box, hv.owned, hv.sink, hv.now⟩
    exact hupdated.wake halert [j]

theorem Shows.advance (hv : s.Shows i v) (halert : s.Alert i v) (duration : Nat) :
    (s.move (.advance duration)).Shows i { v with now := v.now + duration } ∧
      (s.move (.advance duration)).Alert i { v with now := v.now + duration } := by
  refine ⟨⟨hv.task, hv.box, hv.owned, hv.sink, congrArg (· + duration) hv.now⟩, ?_⟩
  intro hlive hready
  have hcalm := halert hlive hready
  exact ⟨hcalm.unasked, hcalm.read, hcalm.owned⟩

/-! ## One look -/

/-- The sink breaks on none of the lines to be written. -/
def Sturdy (k : Sink) (w : Watch) : Prop := ∀ line ∈ w.written, k.breaks line = false

/-- A stream that goes on is where its looks have brought it. -/
structure Live (v : View) (w : Watch) : Prop where
  timeout : v.task.stream.timeout = w.timeout
  reassembly : v.task.stream.reassembly = Reassembly.after {} w.operations
  deadline : v.task.stream.deadline = deadlineAfter w.timeout none w.looks
  found : v.box.items = w.found
  kept : v.box.dropped = false
  asked : v.task.signal = w.asked

/-- A stream has ended as its looks tell and its sink holds what they tell. -/
structure Accounts (v : View) (w : Watch) : Prop where
  ending : v.task.ending = endingOf w.looks
  lines : v.sink.lines <+: w.written
  complete : v.sink.discards = false → v.sink.lines = w.written
  live : v.task.ending = none → Live v w

def Watch.look (w : Watch) (l : Look) : Watch :=
  { w with looks := w.looks ++ [l], found := [] }

theorem Watch.written_look_of_ended (hended : (endingOf w.looks).isSome) (l : Look) :
    (w.look l).written = w.written := by
  unfold Watch.written Watch.operations Watch.look
  rw [operations_append_of_ended hended]

theorem Watch.written_look (hlive : endingOf w.looks = none) (l : Look) :
    (w.look l).written = w.written ++
      ((Reassembly.after {} w.operations).printed
        (l.operations w.timeout (deadlineAfter w.timeout none w.looks))).map (·.text) := by
  unfold Watch.written Watch.operations Watch.look
  rw [operations_concat hlive, Reassembly.printed_append, List.map_append]

theorem Watch.written_prefix_look (w : Watch) (l : Look) : w.written <+: (w.look l).written := by
  cases hending : endingOf w.looks with
  | none =>
      rw [Watch.written_look hending]
      exact List.prefix_append _ _
  | some ending =>
      have hended : (endingOf w.looks).isSome := by simp [hending]
      have hsame := Watch.written_look_of_ended hended l
      simp [hsame]

theorem Sturdy.of_look {k : Sink} {l : Look} (hk : Sturdy k (w.look l)) : Sturdy k w :=
  fun line hline => hk line ((w.written_prefix_look l).subset hline)

theorem breaksOn_write (k : Sink) (lines : List String) :
    (k.write lines).breaksOn = k.breaksOn := by
  unfold Sink.write
  split <;> rfl

theorem discards_write (k : Sink) (lines : List String) :
    (k.write lines).discards = k.discards := by
  unfold Sink.write
  split <;> rfl

theorem takeWhile_of_unbroken {k : Sink} {lines : List String}
    (hk : k.breaksWithin lines = false) :
    lines.takeWhile (fun line => !k.breaks line) = lines := by
  rw [List.takeWhile_eq_self_iff]
  intro line hline
  have hnot := List.any_eq_false.mp hk line hline
  simpa using hnot

theorem lines_write {k : Sink} {lines : List String} (hk : k.breaksWithin lines = false) :
    (k.write lines).lines = if k.discards then k.lines else k.lines ++ lines := by
  unfold Sink.write
  rw [takeWhile_of_unbroken hk]
  split <;> rfl

theorem Live.written_look (hpast : Live v w) (hending : endingOf w.looks = none) :
    (w.look v.look).written = w.written ++ v.lines := by
  rw [Watch.written_look hending, View.lines, lookTurn_printed, hpast.timeout, hpast.reassembly,
    hpast.deadline]

theorem Live.unbroken (hpast : Live v w) (hending : endingOf w.looks = none)
    (hk : Sturdy v.sink (w.look v.look)) : v.sink.breaksWithin v.lines = false := by
  rw [Sink.breaksWithin, List.any_eq_false]
  intro line hline
  have hmem : line ∈ (w.look v.look).written := by
    rw [hpast.written_look hending]
    exact List.mem_append_right _ hline
  simp [hk line hmem]

theorem Live.look (hpast : Live v w) (hending : endingOf w.looks = none)
    (hlive : v.task.ending = none) (hunbroken : v.sink.breaksWithin v.lines = false)
    (hlook : v.look.ending? = none) : Live v.poll (w.look v.look) := by
  have hoperations : (w.look v.look).operations = w.operations ++
      v.look.operations w.timeout (deadlineAfter w.timeout none w.looks) :=
    operations_concat hending v.look
  rw [View.poll_of_live hlive, View.turn_of_unbroken hunbroken, lookTurn_of_live _ hlook]
  constructor
  · exact hpast.timeout
  · simp only [hpast.timeout, hpast.reassembly, hpast.deadline]
    rw [hoperations, Reassembly.after_append]
  · simp only [hpast.timeout, hpast.deadline]
    simp [deadlineAfter, Watch.look]
  · rfl
  · exact hpast.kept
  · exact hpast.asked

theorem Accounts.look_of_live (hw : Accounts v w) (hlive : v.task.ending = none)
    (hk : Sturdy v.sink (w.look v.look)) : Accounts v.poll (w.look v.look) := by
  have hpast := hw.live hlive
  have hending : endingOf w.looks = none := by rw [← hw.ending, hlive]
  have hwritten := hpast.written_look hending
  have hunbroken := hpast.unbroken hending hk
  have htold : v.poll.task.ending = v.look.ending? := by
    rw [View.poll_of_live hlive, View.turn_of_unbroken hunbroken]
    exact lookTurn_ending v.task.stream v.look
  have hsink : v.poll.sink = v.sink.write v.lines := by rw [View.poll_of_live hlive]
  constructor
  · exact htold.trans (endingOf_concat hending v.look).symm
  · rw [hsink, lines_write hunbroken]
    cases hdiscards : v.sink.discards with
    | true => exact hw.lines.trans (w.written_prefix_look v.look)
    | false =>
        have hcomplete := hw.complete hdiscards
        simp [hwritten, hcomplete]
  · intro hdiscards
    rw [hsink, discards_write] at hdiscards
    rw [hsink, lines_write hunbroken, hdiscards, hwritten, hw.complete hdiscards]
    rfl
  · intro hgoes
    rw [htold] at hgoes
    exact hpast.look hending hlive hunbroken hgoes

theorem Accounts.look_of_ended (hw : Accounts v w) (hended : v.task.ending.isSome) (l : Look) :
    Accounts v.poll (w.look l) := by
  have hending : (endingOf w.looks).isSome := by
    rw [← hw.ending]
    exact hended
  have hwritten := Watch.written_look_of_ended hending l
  rw [View.poll_of_ended hended]
  constructor
  · rw [hw.ending]
    exact (endingOf_concat_of_ended hending l).symm
  · rw [hwritten]
    exact hw.lines
  · rw [hwritten]
    exact hw.complete
  · intro hlive
    simp [hlive] at hended

theorem breaksOn_poll (v : View) : v.poll.sink.breaksOn = v.sink.breaksOn := by
  unfold View.poll
  split
  · rfl
  · exact breaksOn_write v.sink v.lines

/-! ## Runs -/

/-- What is in the session about a stream agrees with what was seen of it. -/
def Follows (s : Session) (i : Nat) (w : Watch) : Prop :=
  s.tasks[i]? = none ∨
    ∃ v, s.Shows i v ∧ s.Alert i v ∧ (Sturdy v.sink w → Accounts v w)

theorem Sturdy.congr {k k' : Sink} (hk : Sturdy k w) (hsame : k'.breaksOn = k.breaksOn) :
    Sturdy k' w := by
  intro line hline
  have hbreaks := hk line hline
  unfold Sink.breaks at hbreaks ⊢
  rw [hsame]
  exact hbreaks

theorem Accounts.of_unread {v' : View} {w' : Watch} (hw : Accounts v w)
    (htimeout : w'.timeout = w.timeout) (hlooks : w'.looks = w.looks)
    (hending : v'.task.ending = v.task.ending) (hlines : v'.sink.lines = v.sink.lines)
    (hdiscards : v'.sink.discards = false → v.sink.discards = false)
    (hlive : Live v w → Live v' w') : Accounts v' w' := by
  have hwritten : w'.written = w.written := by
    unfold Watch.written Watch.operations
    rw [htimeout, hlooks]
  constructor
  · rw [hending, hlooks]
    exact hw.ending
  · rw [hlines, hwritten]
    exact hw.lines
  · intro hheard
    rw [hlines, hwritten]
    exact hw.complete (hdiscards hheard)
  · intro hgoes
    rw [hending] at hgoes
    exact hlive (hw.live hgoes)

theorem Follows.bus (hs : s.Sound) (h : s.Follows i w) {op : Bus.Operation}
    (hop : (Move.bus op).Permitted s) : (s.move (.bus op)).Follows i (w.note i s (.bus op)) := by
  rcases h with hnone | ⟨v, hv, halert, hw⟩
  · exact .inl hnone
  · obtain ⟨box, owned, hv', halert'⟩ := hv.bus hs halert op
    refine .inr ⟨_, hv', halert', ?_⟩
    intro hk
    refine (hw hk).of_unread rfl rfl rfl rfl id ?_
    intro hpast
    have hbox := hv.delivered hs hop hpast.kept hv'.box
    simp only at hbox
    constructor
    · exact hpast.timeout
    · exact hpast.reassembly
    · exact hpast.deadline
    · simp [hbox, hpast.found, Watch.note]
    · simp [hbox, hpast.kept]
    · exact hpast.asked

theorem Follows.spawn (h : s.Follows i w) {subscription sink timeout : Nat}
    (hm : (Move.spawn subscription sink timeout).Permitted s) :
    (s.move (.spawn subscription sink timeout)).Follows i
      (w.note i s (.spawn subscription sink timeout)) := by
  obtain ⟨⟨-, channel, items, hheld⟩, ⟨k, hk, hempty⟩, -⟩ := hm
  have htasks : (s.move (.spawn subscription sink timeout)).tasks =
      s.tasks ++ [{ subscription, sink, stream := { timeout } }] := rfl
  by_cases hi : i = s.tasks.length
  · have hnote : w.note i s (.spawn subscription sink timeout) =
        { timeout, found := s.backlog subscription } := if_pos hi
    rw [hnote]
    let v : View :=
      { task := { subscription, sink, stream := { timeout } }
        box := { channel, items }
        owned := s.bus.owns subscription
        sink := k
        now := s.clock }
    have hv : (s.move (.spawn subscription sink timeout)).Shows i v :=
      ⟨by simp [htasks, hi, v], hheld, rfl, hk, rfl⟩
    refine .inr ⟨v, hv, ?_, ?_⟩
    · intro _ hready
      exact absurd ((mem_ready_wake _ [s.tasks.length] i).mpr (.inr (by simp [hi]))) hready
    · intro _
      have hbacklog : s.backlog subscription = items := by
        have hbox : s.bus.mailboxes[subscription]? = some { channel, items } := hheld
        simp [backlog, hbox]
      constructor
      · rfl
      · rw [hempty]
        exact List.nil_prefix
      · exact fun _ => hempty
      · exact fun _ => ⟨rfl, rfl, rfl, hbacklog.symm, rfl, rfl⟩
  · have hnote : w.note i s (.spawn subscription sink timeout) = w := if_neg hi
    rw [hnote]
    rcases h with hnone | ⟨v, hv, halert, hw⟩
    · left
      rw [htasks]
      have hle := List.getElem?_eq_none_iff.mp hnone
      rw [List.getElem?_eq_none_iff, List.length_append, List.length_singleton]
      omega
    · obtain ⟨hv', halert'⟩ := hv.spawn halert subscription sink timeout
      exact .inr ⟨v, hv', halert', hw⟩

theorem Follows.signal (h : s.Follows i w) (j : Nat) (signal : Signal) :
    (s.move (.signal j signal)).Follows i (w.note i s (.signal j signal)) := by
  rcases h with hnone | ⟨v, hv, halert, hw⟩
  · left
    change (s.tasks.modify j _)[i]? = none
    rw [List.getElem?_eq_none_iff, List.length_modify]
    exact List.getElem?_eq_none_iff.mp hnone
  · obtain ⟨hv', halert'⟩ := hv.signal halert j signal
    by_cases hij : j = i
    · simp only [hij, if_true] at hv' halert' ⊢
      refine .inr ⟨_, hv', halert', ?_⟩
      intro hk
      have hnote : w.note i s (.signal i signal) = { w with asked := some signal } := if_pos rfl
      rw [hnote] at hk ⊢
      refine (hw hk).of_unread rfl rfl rfl rfl id ?_
      intro hpast
      exact ⟨hpast.timeout, hpast.reassembly, hpast.deadline, hpast.found, hpast.kept, rfl⟩
    · have hnote : w.note i s (.signal j signal) = w := if_neg hij
      simp only [hij, if_false] at hv' halert'
      rw [hnote]
      exact .inr ⟨v, hv', halert', hw⟩

theorem Follows.settle (hs : s.Sound) (h : s.Follows i w) :
    s.settle.Follows i (w.note i s .settle) := by
  rcases h with hnone | ⟨v, hv, halert, hw⟩
  · left
    have hsame : s.settle.tasks.map Task.subscription = s.tasks.map Task.subscription :=
      map_settle s fun _ _ _ => rfl
    have hlength := congrArg List.length hsame
    rw [List.length_map, List.length_map] at hlength
    rw [List.getElem?_eq_none_iff, hlength]
    exact List.getElem?_eq_none_iff.mp hnone
  · obtain ⟨hv', halert'⟩ := hv.settle hs halert
    refine .inr ⟨v.poll, hv', halert', ?_⟩
    intro hk
    have hk' := hk.congr (breaksOn_poll v).symm
    have hpast := hw hk'.of_look
    cases hending : v.task.ending with
    | some ending => exact hpast.look_of_ended (by simp [hending]) _
    | none =>
        have hlive := hpast.live hending
        have hlook : w.note i s .settle = w.look v.look := by
          simp [Watch.note, Watch.look, View.look, sourceEnded, hv.task, hv.now, hv.owned,
            hlive.found, hlive.asked]
        rw [hlook] at hk' ⊢
        exact hpast.look_of_live hending hk'

theorem Follows.move (hs : s.Sound) (h : s.Follows i w) {m : Move} (hm : m.Permitted s) :
    (s.move m).Follows i (w.note i s m) := by
  cases m with
  | bus op => exact h.bus hs hm
  | spawn subscription sink timeout => exact h.spawn hm
  | signal j signal => exact h.signal j signal
  | settle => exact h.settle hs
  | openSink breaksOn =>
      rcases h with hnone | ⟨v, hv, halert, hw⟩
      · exact .inl hnone
      · obtain ⟨hv', halert'⟩ := hv.openSink halert breaksOn
        exact .inr ⟨v, hv', halert', hw⟩
  | discard sink =>
      rcases h with hnone | ⟨v, hv, halert, hw⟩
      · exact .inl hnone
      · obtain ⟨k, hv', halert', hlines, hbreaksOn, hdiscards⟩ := hv.discard halert sink
        refine .inr ⟨_, hv', halert', ?_⟩
        intro hk
        refine (hw (hk.congr hbreaksOn.symm)).of_unread rfl rfl rfl hlines hdiscards ?_
        intro hpast
        exact ⟨hpast.timeout, hpast.reassembly, hpast.deadline, hpast.found, hpast.kept,
          hpast.asked⟩
  | manage managed =>
      rcases h with hnone | ⟨v, hv, halert, hw⟩
      · exact .inl hnone
      · exact .inr ⟨v, ⟨hv.task, hv.box, hv.owned, hv.sink, hv.now⟩, halert, hw⟩
  | advance duration =>
      rcases h with hnone | ⟨v, hv, halert, hw⟩
      · exact .inl hnone
      · obtain ⟨hv', halert'⟩ := hv.advance halert duration
        refine .inr ⟨_, hv', halert', ?_⟩
        intro hk
        refine (hw hk).of_unread rfl rfl rfl rfl id ?_
        intro hpast
        exact ⟨hpast.timeout, hpast.reassembly, hpast.deadline, hpast.found, hpast.kept,
          hpast.asked⟩

theorem Follows.go (hs : s.Sound) (h : s.Follows i w) {moves : List Move}
    (hmoves : s.AllPermitted moves) : (s.go moves).Follows i (s.watch i w moves) := by
  induction moves generalizing s w with
  | nil => exact h
  | cons m moves ih => exact ih (hs.move hmoves.1) (h.move hs hmoves.1) hmoves.2

/-- Nothing that happens to a session concerns a stream that has ended. -/
theorem Shows.move_of_ended (hs : s.Sound) (hv : s.Shows i v) (hended : v.task.ending.isSome)
    {m : Move} (hm : m.Permitted s) :
    ∃ v', (s.move m).Shows i v' ∧ v'.task.ending = v.task.ending ∧
      v'.task.sink = v.task.sink ∧ v'.sink.lines = v.sink.lines := by
  have halert : s.Alert i v := fun hlive => by simp [hlive] at hended
  cases m with
  | bus op =>
      obtain ⟨box, owned, hv', -⟩ := hv.bus hs halert op
      exact ⟨_, hv', rfl, rfl, rfl⟩
  | openSink breaksOn => exact ⟨v, (hv.openSink halert breaksOn).1, rfl, rfl, rfl⟩
  | discard sink =>
      obtain ⟨k, hv', -, hlines, -⟩ := hv.discard halert sink
      exact ⟨_, hv', rfl, rfl, hlines⟩
  | spawn subscription sink timeout =>
      exact ⟨v, (hv.spawn halert subscription sink timeout).1, rfl, rfl, rfl⟩
  | signal j signal =>
      have hv' := (hv.signal halert j signal).1
      by_cases hij : j = i
      · subst hij
        simp only [if_true] at hv'
        exact ⟨_, hv', rfl, rfl, rfl⟩
      · simp only [hij, if_false] at hv'
        exact ⟨v, hv', rfl, rfl, rfl⟩
  | manage managed => exact ⟨v, ⟨hv.task, hv.box, hv.owned, hv.sink, hv.now⟩, rfl, rfl, rfl⟩
  | advance duration => exact ⟨_, (hv.advance halert duration).1, rfl, rfl, rfl⟩
  | settle =>
      have hv' := (hv.settle hs halert).1
      rw [View.poll_of_ended hended] at hv'
      exact ⟨v, hv', rfl, rfl, rfl⟩

theorem Shows.go_of_ended (hs : s.Sound) (hv : s.Shows i v) (hended : v.task.ending.isSome)
    {moves : List Move} (hmoves : s.AllPermitted moves) :
    ∃ v', (s.go moves).Shows i v' ∧ v'.task.ending = v.task.ending ∧
      v'.task.sink = v.task.sink ∧ v'.sink.lines = v.sink.lines := by
  induction moves generalizing s v with
  | nil => exact ⟨v, hv, rfl, rfl, rfl⟩
  | cons m moves ih =>
      obtain ⟨v₁, hv₁, hending₁, hsink₁, hlines₁⟩ := hv.move_of_ended hs hended hmoves.1
      have hended₁ : v₁.task.ending.isSome := by rw [hending₁]; exact hended
      obtain ⟨v₂, hv₂, hending₂, hsink₂, hlines₂⟩ := ih (hs.move hmoves.1) hv₁ hended₁ hmoves.2
      exact ⟨v₂, hv₂, hending₂.trans hending₁, hsink₂.trans hsink₁, hlines₂.trans hlines₁⟩

/-- Whatever happens in a session, a stream ends as its looks tell, and the
sink of a stream holds what one fresh reassembler prints that accepts the
messages the stream has read and is flushed when the looks say so.  A sink whose
listener has gone holds a beginning of it.  Once a stream has ended nothing more
is written. -/
theorem streams_refine_reassembler (steps : List (Bool × Step)) (hsteps : Permitted {} steps)
    (i : Nat) (t : Task) (ht : (run {} steps).tasks[i]? = some t) :
    let w := watched i steps
    w.operations.filterMap Reassembly.Operation.message? = Logs.messages (heard w.looks) ∧
      ∃ k, (run {} steps).sinks[t.sink]? = some k ∧
        (Sturdy k w →
          t.ending = endingOf w.looks ∧ k.lines <+: w.written ∧
            (k.discards = false → k.lines = w.written)) ∧
        (t.ending.isSome → ∀ more, (run {} steps).Permitted more →
          ∃ k', ((run {} steps).run more).sinks[t.sink]? = some k' ∧ k'.lines = k.lines) := by
  intro w
  have hmoves := sound_initial.allPermitted_runMoves hsteps
  have hsound := sound_initial.go hmoves
  have hfollows := Follows.go (i := i) (w := {}) sound_initial (.inl rfl) hmoves
  rw [go_runMoves] at hsound hfollows
  refine ⟨accepted_operations w.timeout none w.looks, ?_⟩
  rcases hfollows with hmissing | ⟨v, hv, -, hw⟩
  · rw [ht] at hmissing
    cases hmissing
  · have htask : v.task = t := by
      have heq := hv.task.symm.trans ht
      rwa [Option.some.injEq] at heq
    subst htask
    refine ⟨v.sink, hv.sink, ?_, ?_⟩
    · intro hk
      have haccounts := hw hk
      exact ⟨haccounts.ending, haccounts.lines, haccounts.complete⟩
    · intro hended more hmore
      have hmoves' := hsound.allPermitted_runMoves hmore
      obtain ⟨v', hv', -, hsink, hlines⟩ := hv.go_of_ended hsound hended hmoves'
      rw [go_runMoves] at hv'
      exact ⟨v'.sink, hsink ▸ hv'.sink, hlines⟩

/-- The line 4 comes after its turn was given up, the line 7 never comes. -/
theorem stream_refines_reassembler_past_gaps :
    let message (number : Nat) (text : String) : Step :=
      .dispatch (.event "logs" (.object [("num", .ofNat number), ("line", .string text)]))
    let steps : List (Bool × Step) :=
      [(false, .spawn "logs" 5000 none), (true, message 2 "b"), (false, message 1 "a"),
        (false, message 5 "e"), (false, .sleep 5100), (false, message 4 "d"),
        (false, message 6 "f"), (false, message 8 "h"), (false, .stop 0)]
    Permitted {} steps ∧
      ∃ t k, (run {} steps).tasks[0]? = some t ∧ (run {} steps).sinks[t.sink]? = some k ∧
        t.ending = some .finished ∧ k.lines = ["a", "b", "e", "f", "h"] ∧
        ∀ more, (run {} steps).Permitted more →
          ∃ k', ((run {} steps).run more).sinks[t.sink]? = some k' ∧ k'.lines = k.lines := by
  intro message steps
  have hsteps : Permitted {} steps :=
    ⟨trivial, trivial, trivial, trivial, trivial, trivial, trivial, trivial, trivial, trivial⟩
  have hstarted : ((run {} steps).tasks[0]?).isSome := by decide +kernel
  have hwritten : (watched 0 steps).written = ["a", "b", "e", "f", "h"] := by decide +kernel
  have hending : endingOf (watched 0 steps).looks = some .finished := by decide +kernel
  have hsinks : ∀ k ∈ (run {} steps).sinks, k.breaksOn = none ∧ k.discards = false := by
    decide +kernel
  obtain ⟨t, ht⟩ := Option.isSome_iff_exists.mp hstarted
  obtain ⟨-, k, hk, hrefines, hafter⟩ := streams_refine_reassembler steps hsteps 0 t ht
  obtain ⟨hbreaksOn, hheard⟩ := hsinks k (List.mem_of_getElem? hk)
  have hsturdy : Sturdy k (watched 0 steps) := fun line _ => by simp [Sink.breaks, hbreaksOn]
  obtain ⟨hend, -, hlines⟩ := hrefines hsturdy
  rw [hending] at hend
  refine ⟨hsteps, t, k, ht, hk, hend, ?_, hafter (by simp [hend])⟩
  rw [hlines hheard, hwritten]

end Session

end DevMachine

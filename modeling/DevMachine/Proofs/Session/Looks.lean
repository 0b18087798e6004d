import DevMachine.Proofs.Logs.ReassemblyRun
import DevMachine.Session.Basic

/-!
# What a stream makes of what it finds

Whenever a stream gets a turn it takes one look: at the clock, at the items
that have arrived, at what it was asked to do, at whether its source has ended.
What it does to its reassembler is a function of these looks alone, and this is
the specification of a stream.  A turn is shown to do what one look tells.
-/

namespace DevMachine

open Channel (Failure Item)
open Json (Value)

namespace Logs

/-- The bodies among some items, up to the first failure. -/
def bodies (items : List Item) : List Value :=
  (items.takeWhile Except.isOk).filterMap Except.toOption

/-- The log messages among some items, up to the first failure. -/
def messages (items : List Item) : List Message :=
  (bodies items).filterMap fun body => (Message.ofValue body).toOption

def failure? (items : List Item) : Option Failure :=
  items.findSome? fun
    | .error e => some e
    | .ok _ => none

theorem messages_cons_of_error {body : Value} {refusal : Refusal}
    (hbody : Message.ofValue body = .error refusal) (items : List Item) :
    messages (.ok body :: items) = messages items := by
  have hbodies : bodies (.ok body :: items) = body :: bodies items := rfl
  rw [messages, hbodies, List.filterMap_cons, hbody]
  rfl

theorem messages_cons_of_ok {body : Value} {m : Message}
    (hbody : Message.ofValue body = .ok m) (items : List Item) :
    messages (.ok body :: items) = m :: messages items := by
  have hbodies : bodies (.ok body :: items) = body :: bodies items := rfl
  rw [messages, hbodies, List.filterMap_cons, hbody]
  rfl

theorem messages_append {items : List Item} (hitems : failure? items = none) (more : List Item) :
    messages (items ++ more) = messages items ++ messages more := by
  induction items with
  | nil => rfl
  | cons item items ih =>
      cases item with
      | error e => cases hitems
      | ok body =>
          have hrest : failure? items = none := hitems
          rw [List.cons_append]
          cases hbody : Message.ofValue body with
          | error refusal =>
              rw [messages_cons_of_error hbody, messages_cons_of_error hbody, ih hrest]
          | ok m =>
              rw [messages_cons_of_ok hbody, messages_cons_of_ok hbody, ih hrest, List.cons_append]

namespace Stream

def rearmed (s : Stream) (now : Nat) (ms : List Message) : Option Nat :=
  if ms.isEmpty then s.deadline else some (now + s.timeout)

theorem isDue_eq (s : Stream) (now : Nat) : s.isDue now = s.deadline.any (· ≤ now) := by
  unfold isDue
  cases s.deadline <;> rfl

theorem takeAll_eq (s : Stream) (now : Nat) (items : List Item) :
    s.takeAll now items =
      (s.reassembly.printed ((messages items).map .accept),
        { s with
          reassembly := s.reassembly.after ((messages items).map .accept)
          deadline := s.rearmed now (messages items) },
        failure? items) := by
  induction items generalizing s with
  | nil => rfl
  | cons item items ih =>
      cases item with
      | error e => rfl
      | ok body =>
          have hfailure : failure? (.ok body :: items) = failure? items := rfl
          rw [takeAll, take]
          cases hbody : Message.ofValue body with
          | error refusal =>
              rw [messages_cons_of_error hbody, hfailure]
              simp only [ih, List.nil_append]
          | ok m =>
              rw [messages_cons_of_ok hbody, hfailure]
              simp only [ih]
              simp [Reassembly.printed, Reassembly.perform, rearmed]

end Stream

end Logs

namespace Session

open Logs (Ending Message Reassembly Stream Turn)

/-- What a stream finds when it gets a turn: the time, the items that arrived
since its last turn, what it was asked to do, whether its source has ended. -/
structure Look where
  now : Nat
  found : List Item
  asked : Option Signal
  sourceEnded : Bool

namespace Look

/-- The messages that count as delivered.  A stream that is aborted reads
nothing any more. -/
def messages (l : Look) : List Message :=
  if l.asked = some .abort then [] else Logs.messages l.found

theorem messages_eq (l : Look) (hasked : l.asked ≠ some .abort) :
    l.messages = Logs.messages l.found := if_neg hasked

/-- How a stream ends that takes this look. -/
def ending? (l : Look) : Option Ending :=
  match l.asked with
  | some .abort => some .aborted
  | some .stop => some .finished
  | none =>
    match Logs.failure? l.found with
    | some e => some (.failed e)
    | none => if l.sourceEnded then some .finished else none

/-- The flush deadline after the messages of a look: one timeout after the
latest of them. -/
def deadline (timeout : Nat) (earlier : Option Nat) (l : Look) : Option Nat :=
  if l.messages.isEmpty then earlier else some (l.now + timeout)

def expires (timeout : Nat) (earlier : Option Nat) (l : Look) : Bool :=
  (l.deadline timeout earlier).any (· ≤ l.now)

/-- The flush deadline that a stream goes on with. -/
def later (timeout : Nat) (earlier : Option Nat) (l : Look) : Option Nat :=
  if l.expires timeout earlier then none else l.deadline timeout earlier

theorem later_any (timeout : Nat) (earlier : Option Nat) (l : Look) :
    (l.later timeout earlier).any (· ≤ l.now) = false := by
  unfold later
  by_cases hexpires : l.expires timeout earlier = true
  · rw [if_pos hexpires]
    rfl
  · rw [if_neg hexpires]
    exact Bool.eq_false_iff.mpr hexpires

/-- A stream flushes when it finishes, and when it goes on and its deadline has
come. -/
def flushes (timeout : Nat) (earlier : Option Nat) (l : Look) : Bool :=
  match l.ending? with
  | some ending => ending = .finished
  | none => l.expires timeout earlier

/-- What a look makes a stream do to its reassembler. -/
def operations (timeout : Nat) (earlier : Option Nat) (l : Look) : List Reassembly.Operation :=
  l.messages.map .accept ++ if l.flushes timeout earlier then [.flush] else []

end Look

/-- What a stream does to its reassembler, look by look, until it ends. -/
def operations (timeout : Nat) (earlier : Option Nat) : List Look → List Reassembly.Operation
  | [] => []
  | l :: looks =>
    l.operations timeout earlier ++
      if l.ending?.isSome then [] else operations timeout (l.later timeout earlier) looks

def endingOf (looks : List Look) : Option Ending := looks.findSome? Look.ending?

def deadlineAfter (timeout : Nat) (earlier : Option Nat) (looks : List Look) : Option Nat :=
  looks.foldl (Look.later timeout) earlier

theorem operations_append_of_ended {timeout : Nat} {earlier : Option Nat} {looks : List Look}
    (hended : (endingOf looks).isSome) (more : List Look) :
    operations timeout earlier (looks ++ more) = operations timeout earlier looks := by
  induction looks generalizing earlier with
  | nil => cases hended
  | cons l looks ih =>
      rw [List.cons_append, operations, operations]
      cases hl : l.ending? with
      | some ending => rfl
      | none =>
          have hrest : (endingOf looks).isSome := by simpa [endingOf, hl] using hended
          rw [ih hrest]

theorem operations_append {timeout : Nat} {earlier : Option Nat} {looks : List Look}
    (hlive : endingOf looks = none) (more : List Look) :
    operations timeout earlier (looks ++ more) =
      operations timeout earlier looks ++
        operations timeout (deadlineAfter timeout earlier looks) more := by
  induction looks generalizing earlier with
  | nil => rfl
  | cons l looks ih =>
      have hl : l.ending? = none := by
        simp only [endingOf, List.findSome?_eq_none_iff] at hlive
        exact hlive l List.mem_cons_self
      have hrest : endingOf looks = none := by simpa [endingOf, hl] using hlive
      rw [List.cons_append, operations, operations, hl, ih hrest]
      simp [deadlineAfter]

theorem operations_concat {timeout : Nat} {earlier : Option Nat} {looks : List Look}
    (hlive : endingOf looks = none) (l : Look) :
    operations timeout earlier (looks ++ [l]) =
      operations timeout earlier looks ++
        l.operations timeout (deadlineAfter timeout earlier looks) := by
  rw [operations_append hlive, operations]
  cases l.ending? <;> simp [operations]

theorem endingOf_concat_of_ended {looks : List Look} (hended : (endingOf looks).isSome)
    (l : Look) : endingOf (looks ++ [l]) = endingOf looks := by
  obtain ⟨ending, hending⟩ := Option.isSome_iff_exists.mp hended
  unfold endingOf at hending ⊢
  rw [List.findSome?_append, hending, Option.some_or]

theorem endingOf_concat {looks : List Look} (hlive : endingOf looks = none) (l : Look) :
    endingOf (looks ++ [l]) = l.ending? := by
  unfold endingOf at hlive ⊢
  rw [List.findSome?_append, hlive, Option.none_or]
  cases hl : l.ending? <;> simp [hl]

theorem endingOf_eq_none_iff {looks : List Look} :
    endingOf looks = none ↔ ∀ l ∈ looks, l.ending? = none :=
  List.findSome?_eq_none_iff

/-- The items that a stream has read. -/
def heard : List Look → List Item
  | [] => []
  | l :: looks =>
    (if l.asked = some .abort then [] else l.found) ++
      if l.ending?.isSome then [] else heard looks

theorem Look.eq_of_live {l : Look} (hlive : l.ending? = none) :
    l.asked = none ∧ Logs.failure? l.found = none ∧ l.sourceEnded = false := by
  unfold Look.ending? at hlive
  cases hasked : l.asked with
  | some signal => cases signal <;> simp [hasked] at hlive
  | none =>
      cases hfailure : Logs.failure? l.found with
      | some e => simp [hasked, hfailure] at hlive
      | none => simpa [hasked, hfailure] using hlive

/-- A stream accepts the messages among the items it has read, in their order
and up to the first failure. -/
theorem accepted_operations (timeout : Nat) (earlier : Option Nat) (looks : List Look) :
    (operations timeout earlier looks).filterMap Reassembly.Operation.message? =
      Logs.messages (heard looks) := by
  induction looks generalizing earlier with
  | nil => rfl
  | cons l looks ih =>
      have hfirst : (l.operations timeout earlier).filterMap Reassembly.Operation.message? =
          l.messages := by
        have hflush : (if l.flushes timeout earlier then [Reassembly.Operation.flush]
            else []).filterMap Reassembly.Operation.message? = [] := by
          split <;> rfl
        rw [Look.operations, List.filterMap_append, hflush, List.filterMap_map, List.append_nil]
        exact List.filterMap_some
      rw [operations, heard, List.filterMap_append, hfirst]
      cases hending : l.ending? with
      | some ending =>
          by_cases hasked : l.asked = some .abort
          · simp [Look.messages, hasked, Logs.messages, Logs.bodies]
          · simp [Look.messages, hasked]
      | none =>
          obtain ⟨hasked, hfailure, -⟩ := Look.eq_of_live hending
          simp [Look.messages, hasked, ih, Logs.messages_append hfailure]

/-! ## One turn -/

def lookTurn (s : Stream) (l : Look) : Turn :=
  match l.asked with
  | some .abort => { stream := s, ending := some .aborted }
  | some .stop => s.stopTurn l.now l.found
  | none => s.turn l.now l.found l.sourceEnded

theorem lookTurn_ending (s : Stream) (l : Look) : (lookTurn s l).ending = l.ending? := by
  unfold lookTurn Look.ending?
  cases l.asked with
  | some signal => cases signal <;> rfl
  | none =>
      simp only [Stream.turn, Stream.takeAll_eq]
      cases Logs.failure? l.found with
      | some e => rfl
      | none =>
          cases l.sourceEnded
          · simp only [Bool.false_eq_true, if_false]
            split <;> rfl
          · rfl

theorem printed_flush (r : Reassembly) : r.printed [.flush] = r.flush.1 := by
  simp [Reassembly.printed, Reassembly.perform]

theorem lookTurn_of_live (s : Stream) {l : Look} (hlive : l.ending? = none) :
    lookTurn s l =
      { printed := s.reassembly.printed (l.operations s.timeout s.deadline)
        stream := { s with
          reassembly := s.reassembly.after (l.operations s.timeout s.deadline)
          deadline := l.later s.timeout s.deadline } } := by
  obtain ⟨hasked, hfailure, hsource⟩ := Look.eq_of_live hlive
  have hmessages := l.messages_eq (by simp [hasked])
  have hdeadline : s.rearmed l.now (Logs.messages l.found) = l.deadline s.timeout s.deadline := by
    rw [← hmessages]
    rfl
  have hflushes : l.flushes s.timeout s.deadline = l.expires s.timeout s.deadline := by
    simp [Look.flushes, hlive]
  simp only [lookTurn, hasked, Stream.turn, Stream.takeAll_eq, hfailure, hsource, hdeadline,
    Stream.isDue_eq, Bool.false_eq_true, if_false, Look.operations, hflushes, hmessages]
  change (if l.expires s.timeout s.deadline = true then _ else _) = _
  by_cases hexpires : l.expires s.timeout s.deadline = true
  · simp [hexpires, Stream.flush, Look.later, Reassembly.printed_append, printed_flush,
      Reassembly.perform]
  · simp [hexpires, Look.later]

/-- A turn prints what the reassembler prints when it is treated as the look
tells. -/
theorem lookTurn_printed (s : Stream) (l : Look) :
    (lookTurn s l).printed = s.reassembly.printed (l.operations s.timeout s.deadline) := by
  cases hending : l.ending? with
  | none => rw [lookTurn_of_live s hending]
  | some ending =>
      unfold lookTurn Look.operations Look.flushes
      rw [hending]
      unfold Look.ending? at hending
      cases hasked : l.asked with
      | some signal =>
          rw [hasked] at hending
          cases signal with
          | abort =>
              have hmessages : l.messages = [] := if_pos hasked
              cases hending
              rw [hmessages]
              rfl
          | stop =>
              have hmessages := l.messages_eq (by simp [hasked])
              cases hending
              simp [Stream.stopTurn, Stream.takeAll_eq, Stream.flush, hmessages,
                Reassembly.printed_append, printed_flush]
      | none =>
          have hmessages := l.messages_eq (by simp [hasked])
          simp only [hasked] at hending
          simp only [Stream.turn, Stream.takeAll_eq]
          cases hfailure : Logs.failure? l.found with
          | some e =>
              rw [hfailure] at hending
              cases hending
              simp [hmessages]
          | none =>
              have hsource : l.sourceEnded = true := by
                cases hsource : l.sourceEnded with
                | true => rfl
                | false => simp [hfailure, hsource] at hending
              have hfinished : ending = .finished := by
                simpa [hfailure, hsource, eq_comm] using hending
              simp [hsource, hfinished, Stream.flush, hmessages, Reassembly.printed_append,
                printed_flush]

end Session

end DevMachine

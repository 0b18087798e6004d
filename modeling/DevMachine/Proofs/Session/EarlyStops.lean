import DevMachine.Proofs.Session.StopVerdict
import DevMachine.Proofs.Session.Turns

/-!
# Stopping a stream that has not read everything

A stream that is stopped reads what is left before it flushes, and a stream that
is left alone reads it just as well, but may flush as soon as it has.  That flush
makes no difference: nothing can arrive before the stop, so the last flush prints
what the earlier one has left.
-/

namespace DevMachine

open Channel (Bus Frame)
open Logs (Ending Message Reassembly Sink)

namespace Logs

namespace Sink

variable {k : Sink} {lines more : List String}

theorem breaksWithin_append (k : Sink) (lines more : List String) :
    k.breaksWithin (lines ++ more) = (k.breaksWithin lines || k.breaksWithin more) :=
  List.any_append

theorem breaksWithin_write (k : Sink) (written lines : List String) :
    (k.write written).breaksWithin lines = k.breaksWithin lines := by
  unfold breaksWithin breaks
  rw [Session.breaksOn_write]

theorem write_append (hk : k.breaksWithin lines = false) (more : List String) :
    k.write (lines ++ more) = (k.write lines).write more := by
  have hsame (line : String) : (k.write lines).breaks line = k.breaks line := by
    rw [breaks, Session.breaksOn_write, breaks]
  have hdiscards := Session.discards_write k lines
  have hwritten := Session.lines_write hk
  rw [write, write, List.takeWhile_append, Session.takeWhile_of_unbroken hk, if_pos rfl, hdiscards]
  simp only [hsame, hwritten]
  split
  next hdiscarded => rw [write, if_pos hdiscarded]
  next hkept => rw [write, if_neg hkept, List.append_assoc, Session.takeWhile_of_unbroken hk]

/-- What comes after the line that a sink breaks on is not written. -/
theorem write_append_of_broken (hk : k.breaksWithin lines = true) (more : List String) :
    k.write (lines ++ more) = k.write lines := by
  obtain ⟨line, hline, hbreaks⟩ := List.any_eq_true.mp hk
  have hcut : (lines.takeWhile fun line => !k.breaks line).length ≠ lines.length := by
    intro hlength
    have hall := (List.takeWhile_prefix fun line => !k.breaks line).eq_of_length hlength
    have hnot := List.takeWhile_eq_self_iff.mp hall line hline
    simp [hbreaks] at hnot
  unfold write
  rw [List.takeWhile_append, if_neg hcut]

end Sink

namespace Reassembly

/-- A flush that comes before the last one takes nothing away from what is
printed. -/
theorem printed_flush_twice (r : Reassembly) (ops : List Operation) (early : Bool) :
    r.printed (ops ++ [.flush]) =
      r.printed (ops ++ if early then [.flush] else []) ++
        (r.after (ops ++ if early then [.flush] else [])).printed [.flush] := by
  cases early with
  | false => rw [if_neg Bool.false_ne_true, List.append_nil, printed_append]
  | true =>
      have hempty : ((r.after ops).perform .flush).2.printed [.flush] = [] := by
        rw [Session.printed_flush]
        exact perform_flush_pending (r.after ops)
      rw [if_pos rfl, after_append, after_cons, after_nil, hempty, List.append_nil]

end Reassembly

end Logs

namespace Session

variable {q : String → Bool} {stamp : Int64} {s r : Session} {i j : Nat} {v u : View}

namespace View

def asked (v : View) (x : Signal) : View := { v with task := { v.task with signal := some x } }

/-- What becomes of a stream that is stopped. -/
def stopped (v : View) : View := if v.task.ending.isSome then v else (v.asked .stop).poll

/-- A stream that was not asked for anything still has its channel, and no failure
is among what it has not read. -/
structure Unread (v : View) : Prop where
  live : v.task.ending = none
  unasked : v.task.signal = none
  owned : v.owned = true
  events : Logs.failure? v.box.items = none

theorem stopped_of_live (hlive : v.task.ending = none) : v.stopped = (v.asked .stop).poll :=
  if_neg (by simp [hlive])

theorem stopped_of_ended (hended : v.task.ending.isSome) : v.stopped = v := if_pos hended

/-- What a stream was asked for that is stopped, it does unless its sink breaks. -/
theorem turn_asked_stop (v : View) :
    (v.asked .stop).turn.ending =
        some (if v.sink.breaksWithin (v.asked .stop).lines then .broken else .finished) ∧
      (v.asked .stop).turn.releases = !v.sink.breaksWithin (v.asked .stop).lines := by
  have hsink : (v.asked .stop).sink = v.sink := rfl
  unfold turn
  rw [hsink]
  cases v.sink.breaksWithin (v.asked .stop).lines with
  | true => exact ⟨rfl, rfl⟩
  | false => exact ⟨rfl, rfl⟩

theorem ending_asked_stop (hlive : v.task.ending = none) :
    (v.asked .stop).poll.task.ending =
      some (if v.sink.breaksWithin (v.asked .stop).lines then .broken else .finished) := by
  have hasked : (v.asked .stop).task.ending = none := hlive
  rw [poll_of_live hasked]
  exact v.turn_asked_stop.1

theorem sink_poll (hlive : v.task.ending = none) : v.poll.sink = v.sink.write v.lines := by
  rw [poll_of_live hlive]

theorem gives_asked_stop (hlive : v.task.ending = none) :
    (v.asked .stop).gives = !v.sink.breaksWithin (v.asked .stop).lines := by
  have hasked : (v.asked .stop).task.ending = none := hlive
  rw [gives, hasked, v.turn_asked_stop.1, v.turn_asked_stop.2]
  rfl

namespace Unread

theorem goes_on (h : v.Unread) : v.look.ending? = none := by
  simp [Look.ending?, look, h.unasked, h.owned, h.events]

theorem turn_eq (h : v.Unread) (hunbroken : v.sink.breaksWithin v.lines = false) :
    v.turn = lookTurn v.task.stream v.look ∧ v.turn.ending = none := by
  have hturn := turn_of_unbroken hunbroken
  exact ⟨hturn, by rw [hturn, lookTurn_of_live _ h.goes_on]⟩

theorem ending_poll (h : v.Unread) :
    v.poll.task.ending = if v.sink.breaksWithin v.lines then some .broken else none := by
  rw [poll_of_live h.live]
  cases hbreaks : v.sink.breaksWithin v.lines with
  | true => simp [turn, hbreaks, broken]
  | false => exact (h.turn_eq hbreaks).2

theorem gives_eq (h : v.Unread) : v.gives = false := by
  cases hbreaks : v.sink.breaksWithin v.lines with
  | true => simp [gives, turn, hbreaks, broken]
  | false => simp [gives, (h.turn_eq hbreaks).2]

/-- A stream that is stopped prints what it would have printed anyway, and then
what is left. -/
theorem lines_asked_stop (h : v.Unread) :
    (v.asked .stop).lines = v.lines ++
      ((v.task.stream.reassembly.after
        (v.look.operations v.task.stream.timeout v.task.stream.deadline)).printed
          [.flush]).map (·.text) := by
  have hread : v.look.messages = Logs.messages v.box.items :=
    v.look.messages_eq (by simp [look, h.unasked])
  have hstopped : (v.asked .stop).look.messages = Logs.messages v.box.items :=
    (v.asked .stop).look.messages_eq (by simp [look, asked])
  have hoperations : (v.asked .stop).look.operations v.task.stream.timeout v.task.stream.deadline =
      (Logs.messages v.box.items).map .accept ++ [.flush] := by
    rw [Look.operations, hstopped]
    rfl
  have hsame : (v.asked .stop).task.stream = v.task.stream := rfl
  rw [lines, lines, lookTurn_printed, lookTurn_printed, hsame, hoperations, ← List.map_append,
    Look.operations, hread, ← Reassembly.printed_flush_twice]

theorem lines_poll_asked_stop (h : v.Unread) (hunbroken : v.sink.breaksWithin v.lines = false) :
    (v.poll.asked .stop).lines =
      ((v.task.stream.reassembly.after
        (v.look.operations v.task.stream.timeout v.task.stream.deadline)).printed
          [.flush]).map (·.text) := by
  have hstream : v.poll.task.stream.reassembly = v.task.stream.reassembly.after
      (v.look.operations v.task.stream.timeout v.task.stream.deadline) := by
    rw [poll_of_live h.live, (h.turn_eq hunbroken).1, lookTurn_of_live _ h.goes_on]
  have hread : v.poll.box.items = [] := by
    rw [poll_of_live h.live, boxAfter, (h.turn_eq hunbroken).2]
  have hmessages : (v.poll.asked .stop).look.messages = [] := by
    rw [(v.poll.asked .stop).look.messages_eq (by simp [look, asked])]
    simp [look, asked, hread, Logs.messages, Logs.bodies]
  have hoperations (timeout : Nat) (earlier : Option Nat) :
      (v.poll.asked .stop).look.operations timeout earlier = [.flush] := by
    rw [Look.operations, hmessages]
    rfl
  have hsame : (v.poll.asked .stop).task.stream = v.poll.task.stream := rfl
  rw [lines, lookTurn_printed, hsame, hstream, hoperations]

theorem live_poll (h : v.Unread) (hunbroken : v.sink.breaksWithin v.lines = false) :
    v.poll.task.ending = none := by
  rw [h.ending_poll, hunbroken]
  rfl

theorem breaks_asked_stop (h : v.Unread) (hunbroken : v.sink.breaksWithin v.lines = false) :
    v.poll.sink.breaksWithin (v.poll.asked .stop).lines =
      v.sink.breaksWithin (v.asked .stop).lines := by
  rw [sink_poll h.live, Sink.breaksWithin_write, h.lines_asked_stop, Sink.breaksWithin_append,
    hunbroken, Bool.false_or, h.lines_poll_asked_stop hunbroken]

theorem breaks_of_broken (h : v.Unread) (hbroken : v.sink.breaksWithin v.lines = true) :
    v.sink.breaksWithin (v.asked .stop).lines = true := by
  rw [h.lines_asked_stop, Sink.breaksWithin_append, hbroken, Bool.true_or]

/-- Whether a stream has read everything before it is stopped makes no difference
for how it ends and what it has written then. -/
theorem stopped_poll (h : v.Unread) :
    v.stopped.task.ending.isSome ∧ v.poll.stopped.task.ending = v.stopped.task.ending ∧
      v.poll.stopped.sink = v.stopped.sink := by
  have hasked : (v.asked .stop).task.ending = none := h.live
  have hending := ending_asked_stop h.live
  have hsink : (v.asked .stop).poll.sink = v.sink.write (v.asked .stop).lines := sink_poll hasked
  rw [stopped_of_live h.live, hending, hsink]
  refine ⟨rfl, ?_⟩
  cases hbreaks : v.sink.breaksWithin v.lines with
  | true =>
      -- the stream is stopped in vain, and the line that broke its sink is the same
      have hended : v.poll.task.ending = some .broken := by
        rw [h.ending_poll, hbreaks]
        rfl
      rw [stopped_of_ended (by simp [hended]), hended, h.breaks_of_broken hbreaks, sink_poll h.live,
        h.lines_asked_stop, Sink.write_append_of_broken hbreaks]
      exact ⟨rfl, rfl⟩
  | false =>
      -- the two turns write in two pieces what the one turn writes at once
      have hlive := h.live_poll hbreaks
      have hlive' : (v.poll.asked .stop).task.ending = none := hlive
      have hwritten : (v.poll.asked .stop).poll.sink =
          (v.sink.write v.lines).write (v.poll.asked .stop).lines := by
        rw [sink_poll hlive']
        exact congrArg (Sink.write · _) (sink_poll h.live)
      rw [stopped_of_live hlive, ending_asked_stop hlive, h.breaks_asked_stop hbreaks, hwritten,
        h.lines_asked_stop, h.lines_poll_asked_stop hbreaks, Sink.write_append hbreaks]
      exact ⟨rfl, rfl⟩

theorem gives_poll_asked_stop (h : v.Unread) (hunbroken : v.sink.breaksWithin v.lines = false) :
    (v.poll.asked .stop).gives = (v.asked .stop).gives := by
  rw [gives_asked_stop h.live, gives_asked_stop (h.live_poll hunbroken),
    h.breaks_asked_stop hunbroken]

theorem gives_asked_stop_of_broken (h : v.Unread) (hbroken : v.sink.breaksWithin v.lines = true) :
    (v.asked .stop).gives = false := by
  rw [gives_asked_stop h.live, h.breaks_of_broken hbroken]
  rfl

end Unread

theorem channel_poll (v : View) : v.poll.box.channel = v.box.channel := by
  unfold poll boxAfter
  split
  · rfl
  · cases v.turn.ending <;> rfl

theorem subscription_poll (v : View) : v.poll.task.subscription = v.task.subscription := by
  unfold poll
  split <;> rfl

theorem attached_poll (v : View) : v.poll.task.sink = v.task.sink := by
  unfold poll
  split <;> rfl

theorem attached_stopped (v : View) : v.stopped.task.sink = v.task.sink := by
  unfold stopped
  split
  · rfl
  · exact (v.asked .stop).attached_poll

/-- A stream that has read everything gives its channel up when it is stopped just
as one that has not. -/
theorem Unread.leave_poll_asked_stop (h : v.Unread)
    (hunbroken : v.sink.breaksWithin v.lines = false) :
    (v.poll.asked .stop).leave q = (v.asked .stop).leave q := by
  funext b
  have hchannel : (v.poll.asked .stop).box.channel = v.box.channel := v.channel_poll
  have hsubscription : (v.poll.asked .stop).task.subscription = v.task.subscription :=
    v.subscription_poll
  rw [leave, h.gives_poll_asked_stop hunbroken, hchannel, hsubscription]
  rfl

end View

/-! ## A stop and the round after it -/

theorem Attentive.signal (h : s.Attentive) (i : Nat) (x : Signal) : (s.signal i x).Attentive := by
  have hmoves : s.AllPermitted [.signal i x] := ⟨trivial, trivial⟩
  exact h.go hmoves

theorem Shows.ending? (hv : s.Shows i v) : s.ending? i = v.task.ending := by
  simp [Session.ending?, hv.task]

theorem step_stop_of_live (h : s.Attentive) (hlive : s.ending? i = none) :
    (s.step false (.stop i)).2 = (s.signal i .stop).settle := by
  change (s.stop i).2.settle = _
  rw [stop_of_live hlive]
  exact (h.signal i .stop).settle_settle

theorem step_stop_of_ended (hended : (s.ending? i).isSome) :
    (s.step false (.stop i)).2 = s.settle := by
  change (s.stop i).2.settle = _
  rw [stop_of_ended hended]

theorem Shows.asked (hv : s.Shows i v) (x : Signal) : (s.signal i x).Shows i (v.asked x) := by
  have htask : (s.signal i x).tasks[i]? = some (v.asked x).task := by
    simp [Session.signal, Session.wake, updateTask, View.asked, hv.task]
  exact ⟨htask, hv.box, hv.owned, hv.sink, hv.now⟩

theorem shows_signal_iff (hij : j ≠ i) (x : Signal) : (s.signal i x).Shows j u ↔ s.Shows j u := by
  have htask : (s.signal i x).tasks[j]? = s.tasks[j]? := by
    simp [Session.signal, Session.wake, updateTask, Ne.symm hij]
  constructor
  · exact fun hu => ⟨htask ▸ hu.task, hu.box, hu.owned, hu.sink, hu.now⟩
  · exact fun hu => ⟨htask ▸ hu.task, hu.box, hu.owned, hu.sink, hu.now⟩

theorem Shows.stop_self (h : s.Attentive) (hv : s.Shows i v) :
    (s.step false (.stop i)).2.Shows i v.stopped ∧ (s.stop i).1 = v.stopped.task.ending := by
  cases hending : v.task.ending with
  | some ending =>
      have hended : v.task.ending.isSome := by simp [hending]
      have hsettled := (hv.settle h.sound (h.alert hv)).1
      rw [View.poll_of_ended hended] at hsettled
      have hended' : (s.ending? i).isSome := by rwa [hv.ending?]
      rw [step_stop_of_ended hended', stop_of_ended hended', View.stopped_of_ended hended]
      exact ⟨hsettled, hv.ending?⟩
  | none =>
      have hsignalled := h.signal i .stop
      have hlive : s.ending? i = none := hv.ending?.trans hending
      have hasked := hv.asked .stop
      have hsettled := (hasked.settle hsignalled.sound (hsignalled.alert hasked)).1
      rw [step_stop_of_live h hlive, stop_of_live hlive, View.stopped_of_live hending]
      exact ⟨hsettled, hsettled.ending?⟩

theorem Shows.stop_ne (h : s.Attentive) (hu : s.Shows j u) (hij : j ≠ i) :
    (s.step false (.stop i)).2.Shows j u.poll := by
  cases hending : s.ending? i with
  | some ending =>
      rw [step_stop_of_ended (by simp [hending])]
      exact (hu.settle h.sound (h.alert hu)).1
  | none =>
      have hsignalled := h.signal i .stop
      have hsame := (shows_signal_iff hij .stop).mpr hu
      rw [step_stop_of_live h hending]
      exact (hsame.settle hsignalled.sound (hsignalled.alert hsame)).1

theorem sink_stop_of_not_mem (h : s.Attentive) {sink : Nat} (hsink : sink ∉ s.tasks.map Task.sink) :
    (s.step false (.stop i)).2.sinks[sink]? = s.sinks[sink]? := by
  cases hending : s.ending? i with
  | some ending =>
      rw [step_stop_of_ended (by simp [hending])]
      exact sink_settle_of_not_mem hsink
  | none =>
      have hsame : (s.signal i .stop).tasks.map Task.sink = s.tasks.map Task.sink :=
        map_updateTask s i fun _ => rfl
      rw [step_stop_of_live h hending]
      exact sink_settle_of_not_mem (hsame ▸ hsink)

/-- A session after one stream has read everything, and other streams may have had
their turn as well. -/
structure HasRead (i : Nat) (s r : Session) : Prop where
  attentive : r.Attentive
  self : ∀ v, s.Shows i v → r.Shows i v.poll
  others : ∀ j, j ≠ i → ∀ u, s.Shows j u → ∃ u', r.Shows j u' ∧ u'.poll = u.poll
  attached : r.tasks.map Task.sink = s.tasks.map Task.sink
  unattached : ∀ sink, sink ∉ s.tasks.map Task.sink → r.sinks[sink]? = s.sinks[sink]?

theorem hasRead_poll (h : s.Attentive) (i : Nat) : HasRead i s (s.poll i) where
  attentive := h.poll i
  self := fun _ hv => hv.poll_self h.sound
  others := fun _ hj u hu => ⟨u, hu.poll_ne h.sound (Ne.symm hj), rfl⟩
  attached := map_poll s i fun _ _ _ => rfl
  unattached := fun _ hsink => sink_poll_of_not_mem hsink i

theorem hasRead_settle (h : s.Attentive) (i : Nat) : HasRead i s s.settle where
  attentive := h.settle
  self := fun _ hv => (hv.settle h.sound (h.alert hv)).1
  others := fun _ _ u hu => ⟨u.poll, (hu.settle h.sound (h.alert hu)).1, u.poll_poll⟩
  attached := map_settle s fun _ _ _ => rfl
  unattached := fun _ hsink => sink_settle_of_not_mem hsink

theorem HasRead.sinks_stop (h : HasRead i s r) (hs : s.Attentive) (hv : s.Shows i v)
    (hunread : v.Unread) :
    (s.step false (.stop i)).2.sinks = (r.step false (.stop i)).2.sinks := by
  apply List.ext_getElem?
  intro sink
  by_cases hsink : sink ∈ s.tasks.map Task.sink
  · obtain ⟨t, ht, rfl⟩ := List.mem_map.mp hsink
    obtain ⟨j, ht⟩ := List.mem_iff_getElem?.mp ht
    obtain ⟨u, hu, rfl⟩ := hs.sound.shows ht
    by_cases hij : j = i
    · subst hij
      obtain rfl := hu.unique hv
      have hearly := (hv.stop_self hs).1.sink
      have hlate := ((h.self v hv).stop_self h.attentive).1.sink
      rw [v.attached_stopped] at hearly
      rw [hunread.stopped_poll.2.2, v.poll.attached_stopped, v.attached_poll] at hlate
      exact hearly.trans hlate.symm
    · obtain ⟨u', hu', hsame⟩ := h.others j hij u hu
      have hearly := (hu.stop_ne hs hij).sink
      have hlate := (hu'.stop_ne h.attentive hij).sink
      rw [hsame] at hlate
      rw [u.attached_poll] at hearly hlate
      exact hearly.trans hlate.symm
  · have hsink' : sink ∉ r.tasks.map Task.sink := h.attached ▸ hsink
    rw [sink_stop_of_not_mem hs hsink, sink_stop_of_not_mem h.attentive hsink',
      h.unattached sink hsink]

theorem HasRead.ending_stop (h : HasRead i s r) (hs : s.Attentive) (hv : s.Shows i v)
    (hunread : v.Unread) :
    ∃ ending, (s.stop i).1 = some ending ∧ (r.stop i).1 = some ending := by
  obtain ⟨hended, hsame, -⟩ := hunread.stopped_poll
  obtain ⟨ending, hending⟩ := Option.isSome_iff_exists.mp hended
  refine ⟨ending, (hv.stop_self hs).2.trans hending, ?_⟩
  exact ((h.self v hv).stop_self h.attentive).2.trans (hsame.trans hending)

theorem filter_outbound {b b' : Bus} (h : b.only q = b'.only q) {f : Frame → Bool}
    (hf : ∀ frame, f frame = true → frame.channel?.all q = true) :
    b.outbound.filter f = b'.outbound.filter f := by
  have hsplit (b : Bus) : b.outbound.filter f = (b.only q).outbound.filter f := by
    change _ = (b.outbound.filter _).filter f
    rw [List.filter_filter]
    apply List.filter_congr
    intro frame _
    cases hframe : f frame with
    | true => simp [hf frame hframe]
    | false => rfl
  rw [hsplit b, hsplit b', h]

theorem alike_signal (hs : s.Sound) (x : Signal) : Alike q i s (s.signal i x) where
  left := hs
  right := hs.move (m := .signal i x) trivial
  length := (List.length_modify _ _ _).symm
  views := fun _ hj _ => (shows_signal_iff hj x).symm
  bus := rfl

theorem ready_signal (s : Session) (i : Nat) (x : Signal) :
    (s.signal i x).ready = s.ready ++ [i].filter fun j => !s.ready.contains j := rfl

theorem filter_ready_signal (s : Session) (i : Nat) (x : Signal) :
    (s.signal i x).ready.filter (· ≠ i) = s.ready.filter (· ≠ i) := by
  rw [ready_signal, List.filter_append, List.filter_filter]
  simp

/-- The frames come in the same order when it was the one stream alone that had a
turn before. -/
theorem View.Unread.outbound_stop_poll (hunread : v.Unread) (h : s.Attentive) (hv : s.Shows i v) :
    (s.step false (.stop i)).2.bus.outbound = ((s.poll i).step false (.stop i)).2.bus.outbound := by
  let q : String → Bool := fun _ => true
  have hread : Alike q i s (s.poll i) :=
    ((Alike.refl h.sound).poll_left hv (.of_not_gives hunread.gives_eq)).symm
  have hearly : Alike q i (s.signal i .stop) s := (alike_signal h.sound .stop).symm
  have hpolled := hv.poll_self h.sound
  have hasked := hv.asked .stop
  have halike : Alike q i (s.step false (.stop i)).2 ((s.poll i).step false (.stop i)).2 := by
    rw [step_stop_of_live h (hv.ending?.trans hunread.live)]
    cases hbreaks : v.sink.breaksWithin v.lines with
    | true =>
        -- the stream ended when it read, so it is stopped in vain
        have hended : ((s.poll i).ending? i).isSome := by
          rw [hpolled.ending?, hunread.ending_poll, hbreaks]
          rfl
        rw [step_stop_of_ended hended]
        apply (hearly.trans hread).settle_of_mute hasked
          (.of_not_gives (hunread.gives_asked_stop_of_broken hbreaks)) hpolled v.mute_poll
        rw [filter_ready_signal, ready_poll]
    | false =>
        have hlive : (s.poll i).ending? i = none :=
          hpolled.ending?.trans (hunread.live_poll hbreaks)
        have hlate : Alike q i (s.poll i) ((s.poll i).signal i .stop) :=
          alike_signal (h.sound.poll i) .stop
        rw [step_stop_of_live (h.poll i) hlive]
        apply ((hearly.trans hread).trans hlate).settle_of_leave _ _ hasked (hpolled.asked .stop)
          (hunread.leave_poll_asked_stop hbreaks).symm
        · rw [ready_signal, ready_signal, ready_poll]
        · exact (mem_ready_wake _ [i] i).mpr (.inr (by simp))
  have hframes := filter_outbound halike.bus (f := fun _ => true) fun frame _ => by
    cases frame.channel? <;> rfl
  simpa using hframes

/-- Stopping a stream is settling, as far as other channels are concerned. -/
theorem alike_stop (h : s.Attentive) (hv : s.Shows i v) (hchannel : q v.box.channel = false) :
    Alike q i (s.step false (.stop i)).2 s.settle := by
  cases hending : s.ending? i with
  | some ending =>
      rw [step_stop_of_ended (by simp [hending])]
      exact .refl h.sound.settle
  | none =>
      rw [step_stop_of_live h hending]
      exact (alike_signal h.sound .stop).symm.settle_of_mute (hv.asked .stop)
        (.of_channel hchannel) hv (.of_channel hchannel) (filter_ready_signal s i .stop)

theorem outbound_stop_settle_ne (h : s.Attentive) (hv : s.Shows i v) {channel : String}
    (hchannel : v.box.channel = channel) :
    (s.step false (.stop i)).2.bus.outbound.filter (·.channel? ≠ some channel) =
      (s.settle.step false (.stop i)).2.bus.outbound.filter (·.channel? ≠ some channel) := by
  let q : String → Bool := fun c => c ≠ channel
  have hq : q v.box.channel = false := by simp [q, hchannel]
  have hq' : q v.poll.box.channel = false := by simp [q, v.channel_poll, hchannel]
  have hearly := alike_stop (q := q) h hv hq
  have hlate := alike_stop (q := q) h.settle (hv.settle h.sound (h.alert hv)).1 hq'
  rw [h.settle_settle] at hlate
  apply filter_outbound (hearly.trans hlate.symm).bus
  intro frame hframe
  cases hc : frame.channel? with
  | none => rfl
  | some c => simpa [q, hc] using hframe

/-- When nobody else has anything to do with a channel, stopping its stream means
for the channel that this stream has its turn. -/
theorem only_stop_of_live (h : s.Attentive) (hv : s.Shows i v) (hlive : v.task.ending = none)
    (hothers : ∀ j, j ≠ i → ∀ u, s.Shows j u → u.Mute q) :
    (s.step false (.stop i)).2.bus.only q = (v.asked .stop).leave q (s.bus.only q) := by
  have hsignalled := h.signal i .stop
  have hasked := hv.asked .stop
  rw [step_stop_of_live h (hv.ending?.trans hlive)]
  exact only_settle hsignalled.sound hasked (hsignalled.alert hasked)
    fun j hj u hu => hothers j hj u ((shows_signal_iff hj .stop).mp hu)

theorem View.Unread.only_stop_settle (hunread : v.Unread) (h : s.Attentive) (hv : s.Shows i v)
    (hothers : ∀ j, j ≠ i → ∀ u, s.Shows j u → u.Mute q) :
    (s.step false (.stop i)).2.bus.only q = (s.settle.step false (.stop i)).2.bus.only q := by
  have hread := (hv.settle h.sound (h.alert hv)).1
  have hquiet : s.settle.bus.only q = s.bus.only q := by
    have hmute : v.Mute q := .of_not_gives hunread.gives_eq
    rw [only_settle h.sound hv (h.alert hv) hothers, hmute.leave_eq]
  rw [only_stop_of_live h hv hunread.live hothers]
  cases hbreaks : v.sink.breaksWithin v.lines with
  | true =>
      -- neither the reading nor the stop gives the channel up
      have hended : (s.settle.ending? i).isSome := by
        rw [hread.ending?, hunread.ending_poll, hbreaks]
        rfl
      have hmute : (v.asked .stop).Mute q :=
        .of_not_gives (hunread.gives_asked_stop_of_broken hbreaks)
      rw [step_stop_of_ended hended, h.settle_settle, hquiet, hmute.leave_eq]
  | false =>
      have hothers' : ∀ j, j ≠ i → ∀ u, s.settle.Shows j u → u.Mute q := by
        intro j hj u hu
        have hlt := (List.getElem?_eq_some_iff.mp hu.task).1
        rw [length_tasks_settle] at hlt
        obtain ⟨w, hw, -⟩ := h.sound.shows (List.getElem?_eq_getElem hlt)
        obtain rfl := (hw.settle h.sound (h.alert hw)).1.unique hu
        exact w.mute_poll
      rw [only_stop_of_live h.settle hread (hunread.live_poll hbreaks) hothers', hquiet,
        hunread.leave_poll_asked_stop hbreaks]

/-! ## Stopping before and after reading -/

theorem failure?_eq_none {items : List Channel.Item} (hitems : ∀ item ∈ items, item.isOk = true) :
    Logs.failure? items = none := by
  unfold Logs.failure?
  rw [List.findSome?_eq_none_iff]
  intro item hitem
  have hok := hitems item hitem
  cases item with
  | ok body => rfl
  | error e => cases hok

theorem Shows.unread (hs : s.Sound) (hv : s.Shows i v) (hlive : v.task.ending = none)
    (hunasked : v.task.signal = none) {channel : String}
    (howner : s.bus.owner? channel = some v.task.subscription)
    (hevents : ∀ item ∈ s.backlog v.task.subscription, item.isOk = true) :
    v.Unread ∧ v.box.channel = channel := by
  have hchannel : v.box.channel = channel := by
    have hsubscribed := hs.bus.subscribed_owner? howner
    rw [Bus.getElem?_subscribed, hv.box] at hsubscribed
    exact Option.some.inj hsubscribed
  have howned : v.owned = true := by
    rw [← hv.owned, Bus.owns_iff hs.bus hv.box, hchannel]
    exact howner
  have hbacklog : s.backlog v.task.subscription = v.box.items := by simp [backlog, hv.box]
  rw [hbacklog] at hevents
  exact ⟨⟨hlive, hunasked, howned, failure?_eq_none hevents⟩, hchannel⟩

theorem mute_of_channel {channel : String} (hv : s.Shows j v)
    (hended : s.channel? j = some channel → (s.ending? j).isSome) :
    v.Mute fun c => c = channel := by
  by_cases hchannel : v.box.channel = channel
  · have hj : s.channel? j = some channel := by simp [channel?, hv.task, hv.box, hchannel]
    have hend := hended hj
    rw [hv.ending?] at hend
    exact .of_not_gives (View.gives_of_ended hend)
  · exact .of_channel (by simpa using hchannel)

/-- A stream that goes on, that nobody has asked to end and that has received
nothing but events since it last read comes to the same whether it is stopped
before or after it reads them: it ends the same way, its sink and all others hold
the same lines, and the endpoint is sent the same frames.

After the stream has had its turn alone the frames are the same in the same order.
When all streams have had theirs, so may others have given up their channels
already; then the frames about other channels are the same in the same order, and
so are those about its own, unless an earlier stream of the channel goes on that
could tell the endpoint once more that the channel is given up. -/
theorem stop_agrees_with_reading_first (stamp : Int64) (s : Session) (hreached : Reached stamp s)
    (i : Nat) (t : Task) (channel : String) (ht : s.tasks[i]? = some t) (hlive : t.ending = none)
    (hunasked : t.signal = none) (howner : s.bus.owner? channel = some t.subscription)
    (hevents : ∀ item ∈ s.backlog t.subscription, item.isOk = true) :
    let early := s.step false (.stop i)
    let late := (s.poll i).step false (.stop i)
    let last := s.settle.step false (.stop i)
    (s.poll i).poll i = s.poll i ∧
      (∃ ending, early.2.ending? i = some ending ∧ early.1 = .ended ending ∧
        late.1 = .ended ending ∧ last.1 = .ended ending) ∧
      (early.2.sinks = late.2.sinks ∧ early.2.sinks = last.2.sinks) ∧
      early.2.bus.outbound = late.2.bus.outbound ∧
      early.2.bus.outbound.filter (·.channel? ≠ some channel) =
        last.2.bus.outbound.filter (·.channel? ≠ some channel) ∧
      ((∀ j, j ≠ i → s.channel? j = some channel → (s.ending? j).isSome) →
        early.2.bus.outbound.filter (·.channel? = some channel) =
          last.2.bus.outbound.filter (·.channel? = some channel)) := by
  intro early late last
  have h := hreached.attentive
  obtain ⟨v, hv, rfl⟩ := h.sound.shows ht
  obtain ⟨hunread, hchannel⟩ := hv.unread h.sound hlive hunasked howner hevents
  have hpoll := hasRead_poll h i
  have hsettle := hasRead_settle h i
  refine ⟨?_, ?_, ⟨hpoll.sinks_stop h hv hunread, hsettle.sinks_stop h hv hunread⟩,
    hunread.outbound_stop_poll h hv, outbound_stop_settle_ne h hv hchannel, ?_⟩
  · have hpolled := hv.poll_self h.sound
    cases hending : v.poll.task.ending with
    | some ending => exact hpolled.poll_of_ended (by simp [hending])
    | none => exact hpolled.poll_of_idle (View.idle_poll hending)
  · obtain ⟨ending, hearly, hlate⟩ := hpoll.ending_stop h hv hunread
    obtain ⟨ending', hearly', hlast⟩ := hsettle.ending_stop h hv hunread
    obtain rfl : ending = ending' := Option.some.inj (hearly.symm.trans hearly')
    have hstopped := hv.stop_self h
    refine ⟨ending, ?_, ?_, ?_, ?_⟩
    · rw [hstopped.1.ending?, ← hstopped.2, hearly]
    · exact (reply_stop s i).trans (by rw [hearly]; rfl)
    · exact (reply_stop (s.poll i) i).trans (by rw [hlate]; rfl)
    · exact (reply_stop s.settle i).trans (by rw [hlast]; rfl)
  · intro hothers
    have hmute : ∀ j, j ≠ i → ∀ u, s.Shows j u → u.Mute fun c => c = channel :=
      fun j hj u hu => mute_of_channel hu (hothers j hj)
    apply filter_outbound (hunread.only_stop_settle h hv hmute)
    intro frame hframe
    have hc : frame.channel? = some channel := of_decide_eq_true hframe
    simp [hc]

/-- The flush is due, the one body that was not read is no message, and a stream
that has failed is to give its channel up first. -/
theorem stop_agrees_with_reading_first_past_deadline :
    let message (number : Nat) (text : String) : Step :=
      .dispatch (.event "logs" (.object [("num", .ofNat number), ("line", .string text)]))
    let steps : List (Bool × Step) :=
      [(false, .spawn "logs" 5000 none), (false, .spawn "other" 5000 none),
        (false, message 2 "b"), (false, message 4 "d")]
    let moves : List Move :=
      [.advance 6000, .bus (.dispatch (.error (some "other") "gone")),
        .bus (.dispatch (.event "logs" .null))]
    let s := (run {} steps).go moves
    let late := (s.poll 0).step false (.stop 0)
    let last := s.settle.step false (.stop 0)
    Reached 0 s ∧ s.due = [0] ∧ (s.backlog 0).length = 1 ∧
      (∃ ending, late.1 = .ended ending ∧ last.1 = .ended ending) ∧
      late.2.sinks.map Sink.lines = [["b", "d"], []] ∧
      last.2.sinks.map Sink.lines = [["b", "d"], []] ∧
      late.2.bus.outbound.map Frame.channel? =
        [some "logs", some "other", some "other", some "logs"] ∧
      (last.2.bus.outbound.filter (·.channel? = some "logs")).length = 2 := by
  intro message steps moves s late last
  have hsteps : Permitted {} steps := ⟨trivial, trivial, trivial, trivial, trivial⟩
  have hmoves : (run {} steps).AllPermitted moves := ⟨trivial, trivial, trivial, trivial⟩
  have hreached : Reached 0 s := (Reached.start.run hsteps).go hmoves
  have hstarted : (s.tasks[0]?).isSome := by decide +kernel
  obtain ⟨t, ht⟩ := Option.isSome_iff_exists.mp hstarted
  have hstate : (s.tasks[0]?).all (fun t => t.ending.isNone && t.signal.isNone &&
      t.subscription == 0) = true := by decide +kernel
  obtain ⟨⟨hlive, hunasked⟩, hsubscription⟩ :
      (t.ending = none ∧ t.signal = none) ∧ t.subscription = 0 := by simpa [ht] using hstate
  have howner : s.bus.owner? "logs" = some t.subscription := by
    rw [hsubscription]
    decide +kernel
  have hevents : ∀ item ∈ s.backlog t.subscription, item.isOk = true := by
    rw [hsubscription]
    have hall : (s.backlog 0).all Except.isOk = true := by decide +kernel
    exact List.all_eq_true.mp hall
  have hothers : ∀ j, j ≠ 0 → s.channel? j = some "logs" → (s.ending? j).isSome := by
    intro j hj hchannel
    have hlt : j < s.tasks.length := by
      obtain ⟨t, ht, -⟩ := Option.bind_eq_some_iff.mp hchannel
      exact (List.getElem?_eq_some_iff.mp ht).1
    have hlength : s.tasks.length = 2 := by decide +kernel
    obtain rfl : j = 1 := by omega
    have hother : s.channel? 1 ≠ some "logs" := by decide +kernel
    exact absurd hchannel hother
  obtain ⟨-, ⟨ending, -, -, hlate, hlast⟩, ⟨hsinks, hsinks'⟩, hframes, -, hown⟩ :=
    stop_agrees_with_reading_first 0 s hreached 0 t "logs" ht hlive hunasked howner hevents
  have hdue : s.due = [0] := by decide +kernel
  have hwaiting : (s.backlog 0).length = 1 := by decide +kernel
  refine ⟨hreached, hdue, hwaiting, ⟨ending, hlate, hlast⟩, ?_⟩
  simp only [late, last]
  rw [← hsinks, ← hsinks', ← hframes, ← hown hothers]
  refine ⟨?_, ?_, ?_, ?_⟩ <;> decide +kernel

end Session

end DevMachine

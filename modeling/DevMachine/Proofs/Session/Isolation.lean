import DevMachine.Proofs.Session.PartSteps

/-!
# Channels are isolated

Take a run in which everything settles after every step, and leave out whatever
concerns nothing but one channel.  What is left is a run as well, with other numbers
for subscriptions, streams and sinks, and it leads to the part of the session that the
other channels make up.
-/

namespace DevMachine

open Channel (Bus Frame getElem?_keep map_place_filter_range place place_inj stays stays_eq)
namespace Session

/-- What happens to a session from outside: a step, or a text of the endpoint,
which may hold no frame. -/
inductive Input
  | action (step : Step)
  | arrival (text : String)

/-- A frame that has arrived is handed to the bus. -/
def Step.ofFrame : Option Frame → Step
  | some frame => .dispatch frame
  | none => .settle

namespace Input

def toStep : Input → Step
  | .action step => step
  | .arrival text => .ofFrame (Frame.parse text)

/-- Whether an input concerns nothing but a channel.  A text without a frame
concerns nothing at all. -/
def concernsOnly (channel : String) (outputs : List String) (s : Session) : Input → Bool
  | .action step => step.channel? outputs s = some channel
  | .arrival text => (Frame.parse text).all fun frame => frame.channel? = some channel

def inPart (p : String → Bool) (outputs : List String) (s : Session) : Input → Input
  | .action step => .action (step.inPart p outputs s)
  | .arrival text => .arrival text

/-- The steps of a run in which nothing is queued. -/
def steps (inputs : List Input) : List (Bool × Step) :=
  inputs.map fun input => (false, input.toStep)

/-- A run without what concerns nothing but a channel. -/
def without (channel : String) (outputs : List String) (s : Session) : List Input → List Input
  | [] => []
  | input :: inputs =>
    let rest := without channel (input.toStep.chart outputs s) (s.step false input.toStep).2 inputs
    if input.concernsOnly channel outputs s then rest
    else input.inPart (· ≠ channel) outputs s :: rest

end Input

/-- The streams on a channel in the order in which they were started. -/
def streamsOn (s : Session) (channel : String) : List Nat :=
  (List.range s.tasks.length).filter fun i => s.channel? i = some channel

/-- The lines that a stream has written to its sink. -/
def linesOf (s : Session) (i : Nat) : Option (List String) :=
  (s.tasks[i]?).bind fun t => (s.sinks[t.sink]?).map (·.lines)

/-- The channel whose stream a step stops. -/
def Step.stopped? (s : Session) : Step → Option String
  | .stop i => s.channel? i
  | .stopStreaming channel => some channel
  | _ => none

/-- What a run answers to the steps that stop streams on a channel. -/
def verdicts (channel : String) (s : Session) : List Input → List Reply
  | [] => []
  | input :: inputs =>
    let rest := verdicts channel (s.step false input.toStep).2 inputs
    if input.toStep.stopped? s = some channel then (s.step false input.toStep).1 :: rest else rest

variable {p : String → Bool} {outputs : List String} {s : Session} {i : Nat} {a b : String}

theorem Charted.channel?_part (h : s.Charted outputs) (hs : s.Sound)
    (hi : stays p s.streams i = true) :
    (s.part p outputs).channel? (place p s.streams i) = s.channel? i := by
  unfold channel?
  rw [task_part hi]
  cases ht : s.tasks[i]? with
  | none => rfl
  | some t =>
      obtain ⟨c, hstream, hsubscribed, -⟩ := h.task hs ht
      have hstays := (stays_eq hsubscribed).trans ((stays_eq hstream).symm.trans hi)
      exact congrArg (Option.map Channel.Mailbox.channel) (Bus.mailbox_part hstays)

theorem Charted.channel?_eq (h : s.Charted outputs) (hs : s.Sound) (i : Nat) :
    s.channel? i = s.streams[i]? := by
  unfold channel?
  cases ht : s.tasks[i]? with
  | none =>
      have hlt := List.getElem?_eq_none_iff.mp ht
      rw [length_streams] at hlt
      exact (List.getElem?_eq_none hlt).symm
  | some t =>
      obtain ⟨c, hstream, hsubscribed, -⟩ := h.task hs ht
      rw [Bus.getElem?_subscribed] at hsubscribed
      exact hsubscribed.trans hstream.symm

theorem Charted.linesOf_part (h : s.Charted outputs) (hs : s.Sound)
    (hi : stays p s.streams i = true) :
    (s.part p outputs).linesOf (place p s.streams i) = s.linesOf i := by
  unfold linesOf
  rw [task_part hi]
  cases ht : s.tasks[i]? with
  | none => rfl
  | some t =>
      obtain ⟨c, hstream, -, hsink⟩ := h.task hs ht
      have hstays := (stays_eq hsink).trans ((stays_eq hstream).symm.trans hi)
      exact congrArg (Option.map Logs.Sink.lines) (getElem?_keep h.length hstays)

theorem Charted.stays_of_mem_streamsOn (h : s.Charted outputs) (hs : s.Sound) (hp : p a = true)
    (hi : i ∈ s.streamsOn a) : stays p s.streams i = true := by
  have hchannel : s.channel? i = some a := by simpa using (List.mem_filter.mp hi).2
  rw [h.channel?_eq hs] at hchannel
  exact (stays_eq hchannel).trans hp

theorem Charted.streamsOn_part (h : s.Charted outputs) (hs : s.Sound) (hp : p a = true) :
    (s.part p outputs).streamsOn a = (s.streamsOn a).map (place p s.streams) := by
  have hall : (s.streamsOn a).filter (stays p s.streams) = s.streamsOn a :=
    List.filter_eq_self.mpr fun i hi => h.stays_of_mem_streamsOn hs hp hi
  rw [← hall]
  unfold streamsOn
  rw [length_tasks_part, length_streams]
  symm
  apply map_place_filter_range
  intro i _ hi
  rw [h.channel?_part hs hi]

/-- What is told of each stream on a channel is the same in the part. -/
theorem Charted.map_streamsOn_part {α : Type} {f f' : Nat → α} (h : s.Charted outputs)
    (hs : s.Sound) (hp : p a = true)
    (hf : ∀ i, stays p s.streams i = true → f' (place p s.streams i) = f i) :
    ((s.part p outputs).streamsOn a).map f' = (s.streamsOn a).map f := by
  rw [h.streamsOn_part hs hp, List.map_map]
  exact List.map_congr_left fun i hi => hf i (h.stays_of_mem_streamsOn hs hp hi)

theorem frames_part (s : Session) (hp : p a = true) :
    (s.part p outputs).bus.outbound.filter (·.channel? = some a) =
      s.bus.outbound.filter (·.channel? = some a) := by
  change (s.bus.outbound.filter _).filter _ = _
  rw [List.filter_filter]
  apply List.filter_congr
  intro frame _
  by_cases hframe : frame.channel? = some a <;> simp [hframe, hp]

theorem mem_channels_part (s : Session) (hp : p a = true) :
    a ∈ (s.part p outputs).bus.channels ↔ a ∈ s.bus.channels := by
  have howner : (s.part p outputs).bus.owner? a = _ := Bus.owner?_part s.bus a
  rw [Bus.mem_channels_iff, Bus.mem_channels_iff, howner, if_pos hp, Option.isSome_map]

theorem Rested.step (h : s.Rested outputs) {step : Step} (hstep : step.Permitted s) :
    (s.step false step).2.Rested (step.chart outputs s) := by
  have hperformed : (s.perform step).2.Attentive := by
    rw [← go_performMoves]
    exact h.toAttentive.go (h.sound.allPermitted_performMoves hstep)
  exact hperformed.rested_settle (h.charted_perform hstep)

theorem Rested.part_step (h : s.Rested outputs) {step : Step} (hstep : step.Permitted s) :
    (s.step false step).2.part p (step.chart outputs s) =
      if (step.channel? outputs s).all p then
        ((s.part p outputs).step false (step.inPart p outputs s)).2
      else s.part p outputs := by
  have hperformed : (s.perform step).2.Sound := by
    rw [← go_performMoves]
    exact h.sound.go (h.sound.allPermitted_performMoves hstep)
  refine ((h.charted_perform hstep).part_settle hperformed).trans ?_
  rw [h.part_perform hstep]
  split
  · rfl
  · exact h.settle_part

theorem Input.toStep_inPart (input : Input) :
    (input.inPart p outputs s).toStep = input.toStep.inPart p outputs s := by
  cases input with
  | action step => rfl
  | arrival text =>
      change Step.ofFrame (Frame.parse text) = (Step.ofFrame (Frame.parse text)).inPart p outputs s
      cases Frame.parse text <;> rfl

/-- An input that is left out is a step about the channel, or nothing happens. -/
theorem Input.toStep_of_concernsOnly {input : Input}
    (hinput : input.concernsOnly b outputs s = true) :
    input.toStep.channel? outputs s = some b ∨ input.toStep = .settle := by
  cases input with
  | action step => exact .inl (of_decide_eq_true hinput)
  | arrival text =>
      change (Frame.parse text).all _ = true at hinput
      change (Step.ofFrame (Frame.parse text)).channel? outputs s = some b ∨
        Step.ofFrame (Frame.parse text) = .settle
      cases hframe : Frame.parse text with
      | none => exact .inr rfl
      | some frame =>
          rw [hframe] at hinput
          exact .inl (of_decide_eq_true hinput)

theorem Input.all_of_not_concernsOnly {input : Input}
    (hinput : input.concernsOnly b outputs s = false) :
    (input.toStep.channel? outputs s).all (· ≠ b) = true := by
  have hne {o : Option String} (ho : decide (o = some b) = false) : o.all (· ≠ b) = true := by
    cases o with
    | none => rfl
    | some c => simpa using ho
  cases input with
  | action step => exact hne hinput
  | arrival text =>
      change (Frame.parse text).all _ = false at hinput
      change ((Step.ofFrame (Frame.parse text)).channel? outputs s).all _ = true
      cases hframe : Frame.parse text with
      | none => rfl
      | some frame =>
          rw [hframe] at hinput
          exact hne hinput

theorem Rested.part_input (h : s.Rested outputs) {input : Input}
    (hinput : input.toStep.Permitted s) :
    (s.step false input.toStep).2.part (· ≠ b) (input.toStep.chart outputs s) =
      if input.concernsOnly b outputs s then s.part (· ≠ b) outputs
      else ((s.part (· ≠ b) outputs).step false (input.inPart (· ≠ b) outputs s).toStep).2 := by
  rw [h.part_step hinput, Input.toStep_inPart]
  cases hconcerns : input.concernsOnly b outputs s with
  | false => rw [Input.all_of_not_concernsOnly hconcerns]; rfl
  | true =>
      rcases Input.toStep_of_concernsOnly hconcerns with hchannel | hsettle
      · simp [hchannel]
      · rw [hsettle]
        change (s.part _ outputs).settle.settle = _
        rw [h.settle_part, h.settle_part]
        rfl

/-! ## Runs -/

theorem Charted.free_part {id : Nat} (h : s.Charted outputs) (hs : s.Sound) (hfree : s.Free id)
    (hid : stays p s.bus.subscribed id = true) :
    (s.part p outputs).Free (place p s.bus.subscribed id) := by
  intro t' ht' heq
  obtain ⟨t, ht, rfl⟩ := List.mem_map.mp ht'
  obtain ⟨i, c, ht, hc, hp⟩ := Channel.getElem?_of_mem_keep ht
  obtain ⟨c', hstream, hsubscribed, -⟩ := h.task hs ht
  obtain rfl : c' = c := Option.some.inj (hstream.symm.trans hc)
  have hstays := (stays_eq hsubscribed).trans hp
  exact hfree t (List.mem_of_getElem? ht) ((place_inj hstays hid).mp heq)

theorem Charted.permitted_part (h : s.Charted outputs) (hs : s.Sound) {step : Step}
    (hstep : step.Permitted s) (hp : (step.channel? outputs s).all p = true) :
    (step.inPart p outputs s).Permitted (s.part p outputs) := by
  cases step with
  | next id => exact h.free_part hs hstep hp
  | unsubscribe id => exact h.free_part hs hstep hp
  | drop id => exact h.free_part hs hstep hp
  | adopt id timeout breaksOn =>
      obtain ⟨hfree, channel, items, hheld⟩ := hstep
      exact ⟨h.free_part hs hfree hp, channel, items, (Bus.mailbox_part hp).trans hheld⟩
  | _ => trivial

theorem Input.without_of_concernsOnly {input : Input} (inputs : List Input)
    (hinput : input.concernsOnly b outputs s = true) :
    Input.without b outputs s (input :: inputs) =
      Input.without b (input.toStep.chart outputs s) (s.step false input.toStep).2 inputs :=
  if_pos hinput

theorem Input.without_of_not_concernsOnly {input : Input} (inputs : List Input)
    (hinput : input.concernsOnly b outputs s = false) :
    Input.without b outputs s (input :: inputs) = input.inPart (· ≠ b) outputs s ::
      Input.without b (input.toStep.chart outputs s) (s.step false input.toStep).2 inputs :=
  if_neg (by simp [hinput])

/-- Leaving a channel out of a run leads to what is left of the session without
the channel. -/
theorem Rested.part_run {inputs : List Input} (h : s.Rested outputs)
    (hinputs : s.Permitted (Input.steps inputs)) :
    ∃ outputs', (s.run (Input.steps inputs)).Rested outputs' ∧
      (s.part (· ≠ b) outputs).run (Input.steps (Input.without b outputs s inputs)) =
        (s.run (Input.steps inputs)).part (· ≠ b) outputs' := by
  induction inputs generalizing s outputs with
  | nil => exact ⟨outputs, h, rfl⟩
  | cons input inputs ih =>
      obtain ⟨hinput, hrest⟩ := hinputs
      obtain ⟨outputs', hrested, hpart⟩ := ih (h.step hinput) hrest
      refine ⟨outputs', hrested, ?_⟩
      rw [h.part_input hinput] at hpart
      cases hconcerns : input.concernsOnly b outputs s with
      | true =>
          rw [hconcerns, if_pos rfl] at hpart
          rw [Input.without_of_concernsOnly inputs hconcerns]
          exact hpart
      | false =>
          rw [hconcerns, if_neg Bool.false_ne_true] at hpart
          rw [Input.without_of_not_concernsOnly inputs hconcerns]
          exact hpart

theorem Rested.permitted_without {inputs : List Input} (h : s.Rested outputs)
    (hinputs : s.Permitted (Input.steps inputs)) :
    (s.part (· ≠ b) outputs).Permitted (Input.steps (Input.without b outputs s inputs)) := by
  induction inputs generalizing s outputs with
  | nil => trivial
  | cons input inputs ih =>
      obtain ⟨hinput, hrest⟩ := hinputs
      have hpermitted := ih (h.step hinput) hrest
      rw [h.part_input hinput] at hpermitted
      cases hconcerns : input.concernsOnly b outputs s with
      | true =>
          rw [hconcerns, if_pos rfl] at hpermitted
          rw [Input.without_of_concernsOnly inputs hconcerns]
          exact hpermitted
      | false =>
          have hp := Input.all_of_not_concernsOnly hconcerns
          have hfirst := h.charted.permitted_part h.sound hinput hp
          rw [hconcerns, if_neg Bool.false_ne_true] at hpermitted
          rw [Input.without_of_not_concernsOnly inputs hconcerns]
          rw [← Input.toStep_inPart] at hfirst
          exact ⟨hfirst, hpermitted⟩

theorem Charted.stopped?_part (h : s.Charted outputs) (hs : s.Sound) {step : Step}
    (hp : (step.channel? outputs s).all p = true) :
    (step.inPart p outputs s).stopped? (s.part p outputs) = step.stopped? s := by
  cases step with
  | stop i => exact h.channel?_part hs hp
  | _ => rfl

theorem Charted.stopped?_of_channel? (h : s.Charted outputs) (hs : s.Sound) {step : Step}
    (hstopped : step.stopped? s = some a) : step.channel? outputs s = some a := by
  cases step with
  | stop i => exact (h.channel?_eq hs i).symm.trans hstopped
  | stopStreaming channel => exact hstopped
  | _ => cases hstopped

theorem reply_of_stopped? {step : Step} (hstopped : step.stopped? s = some a) :
    (s.perform step).1.inPart p outputs s = (s.perform step).1 := by
  cases step with
  | stop i => rfl
  | stopStreaming channel => rfl
  | _ => cases hstopped

theorem Rested.verdicts_without {inputs : List Input} (hab : a ≠ b) (h : s.Rested outputs)
    (hinputs : s.Permitted (Input.steps inputs)) :
    (s.part (· ≠ b) outputs).verdicts a (Input.without b outputs s inputs) =
      s.verdicts a inputs := by
  induction inputs generalizing s outputs with
  | nil => rfl
  | cons input inputs ih =>
      obtain ⟨hinput, hrest⟩ := hinputs
      have hlater := ih (h.step hinput) hrest
      rw [h.part_input hinput] at hlater
      cases hconcerns : input.concernsOnly b outputs s with
      | true =>
          rw [hconcerns, if_pos rfl] at hlater
          have hother : input.toStep.stopped? s ≠ some a := by
            intro hstopped
            have hchannel := h.charted.stopped?_of_channel? h.sound hstopped
            rcases Input.toStep_of_concernsOnly hconcerns with hb | hsettle
            · exact hab (Option.some.inj (hchannel.symm.trans hb))
            · rw [hsettle] at hchannel
              cases hchannel
          rw [Input.without_of_concernsOnly inputs hconcerns, hlater]
          exact (if_neg hother).symm
      | false =>
          have hp := Input.all_of_not_concernsOnly hconcerns
          rw [hconcerns, if_neg Bool.false_ne_true, Input.toStep_inPart] at hlater
          rw [Input.without_of_not_concernsOnly inputs hconcerns]
          unfold verdicts
          simp only [Input.toStep_inPart, hlater, h.charted.stopped?_part h.sound hp]
          split
          next hstopped =>
            have hreply : ((s.part (· ≠ b) outputs).step false _).1 = (s.step false _).1 :=
              (h.perform_part hp).trans (reply_of_stopped? hstopped)
            rw [hreply]
          next => rfl

theorem permitted_arrival (s : Session) (text : String) :
    (Input.arrival text).toStep.Permitted s := by
  change (Step.ofFrame (Frame.parse text)).Permitted s
  cases Frame.parse text <;> trivial

/-- Whatever concerns nothing but one channel can be left out of a run in which
everything settles after every step, and nothing changes for any other channel:
not the lines that its streams print nor how they end, not what stopping them is
answered, not what the endpoint is told about it, and not whether it has an owner. -/
theorem channels_isolated (stamp : Int64) (inputs : List Input) (a b : String) (hab : a ≠ b)
    (hinputs : Permitted { bus := { stamp } } (Input.steps inputs)) :
    let start : Session := { bus := { stamp } }
    let reduced := Input.without b [] start inputs
    let s := start.run (Input.steps inputs)
    let s' := start.run (Input.steps reduced)
    start.Permitted (Input.steps reduced) ∧
      (s'.streamsOn a).map s'.linesOf = (s.streamsOn a).map s.linesOf ∧
      (s'.streamsOn a).map s'.ending? = (s.streamsOn a).map s.ending? ∧
      start.verdicts a reduced = start.verdicts a inputs ∧
      s'.bus.outbound.filter (·.channel? = some a) = s.bus.outbound.filter (·.channel? = some a) ∧
      (a ∈ s'.bus.channels ↔ a ∈ s.bus.channels) := by
  intro start reduced s s'
  have hstart : start.Rested [] := rested_initial stamp
  have hwhole : start.part (· ≠ b) [] = start := rfl
  have hp : decide (a ≠ b) = true := by simpa using hab
  obtain ⟨outputs, hrested, hpart⟩ := hstart.part_run (b := b) hinputs
  have hpermitted := hstart.permitted_without (b := b) hinputs
  have hverdicts := hstart.verdicts_without hab hinputs
  rw [hwhole] at hpart hpermitted hverdicts
  have hs' : s' = s.part (· ≠ b) outputs := hpart
  refine ⟨hpermitted, ?_, ?_, hverdicts, ?_, ?_⟩
  · rw [hs']
    exact hrested.charted.map_streamsOn_part hrested.sound hp fun i hi =>
      hrested.charted.linesOf_part hrested.sound hi
  · rw [hs']
    exact hrested.charted.map_streamsOn_part hrested.sound hp fun i hi => ending?_part hi
  · rw [hs']
    exact frames_part s hp
  · rw [hs']
    exact mem_channels_part s hp

/-- The quiet channel does not notice that the sink of a noisy one breaks, that
what is sent to it is no message or no frame, that it changes hands and fails. -/
theorem channels_isolated_from_noise :
    let message (channel : String) (number : Nat) (text : String) : Input :=
      .action <| .dispatch <|
        .event channel (.object [("num", .ofNat number), ("line", .string text)])
    let inputs : List Input :=
      [.action (.spawn "noisy" 5000 (some "boom")), .action (.startStreaming "quiet" none),
        message "quiet" 2 "two", message "noisy" 1 "boom", .arrival "?",
        .action (.subscribe "noisy"), .action (.dispatch (.event "noisy" .null)),
        .action (.next 2), .action (.spawn "noisy" 5000 none), .action (.drop 2),
        .action (.dispatch (.error (some "noisy") "gone")), .action (.stop 2),
        .action (.dropSink 2), message "quiet" 1 "one", .action (.send (.heartbeat 0)),
        .action (.sleep 5000), message "quiet" 4 "four", .action (.startStreaming "noisy" none),
        .action (.stop 1)]
    let start : Session := { bus := { stamp := 7 } }
    let reduced := Input.without "noisy" [] start inputs
    let s' := start.run (Input.steps reduced)
    start.Permitted (Input.steps inputs) ∧ reduced.length = 7 ∧
      (s'.streamsOn "quiet").map s'.linesOf = [some ["one", "two", "four"]] ∧
      (s'.streamsOn "quiet").map s'.ending? = [some .finished] ∧
      (start.verdicts "quiet" reduced).length = 1 ∧
      (s'.bus.outbound.filter (·.channel? = some "quiet")).length = 2 ∧
      "quiet" ∉ s'.bus.channels := by
  intro message inputs start reduced s'
  have hinputs : start.Permitted (Input.steps inputs) := by
    refine ⟨trivial, trivial, trivial, trivial, permitted_arrival _ _, trivial, trivial, ?_,
      trivial, ?_, trivial, trivial, trivial, trivial, trivial, trivial, trivial, trivial, trivial,
      trivial⟩
    · change ∀ t ∈ Session.tasks _, t.subscription ≠ 2
      decide +kernel
    · change ∀ t ∈ Session.tasks _, t.subscription ≠ 2
      decide +kernel
  obtain ⟨-, hlines, hendings, hverdicts, hframes, hchannel⟩ :=
    channels_isolated 7 inputs "quiet" "noisy" (by decide) hinputs
  have hcount : reduced.length = 7 := by decide +kernel
  refine ⟨hinputs, hcount, ?_⟩
  simp only [s', reduced, start]
  rw [hlines, hendings, hverdicts, hframes, hchannel]
  refine ⟨?_, ?_, ?_, ?_, ?_⟩ <;> decide +kernel

end Session

end DevMachine

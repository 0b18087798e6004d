import DevMachine.Proofs.Session.Views
import DevMachine.Session.Step

/-!
# Steps as moves

A step of a session is a sequence of moves: single operations of the bus, changes of
one sink, one task or the managed streams, the clock going on, and rounds of turns.
The reader of a subscription belongs to one party: once a stream reads it, nobody
else does.
-/

namespace DevMachine

open Channel (Bus Failure Frame)
open Logs (Ending Sink Stream)

namespace Session

inductive Move
  | bus (op : Bus.Operation)
  | openSink (breaksOn : Option String)
  | discard (sink : Nat)
  | spawn (subscription sink timeout : Nat)
  | signal (stream : Nat) (signal : Signal)
  | manage (managed : List (String × Nat))
  | advance (duration : Nat)
  | settle

def move (s : Session) : Move → Session
  | .bus op => s.useBus (s.bus.perform op)
  | .openSink breaksOn => (s.openSink breaksOn).2
  | .discard sink => { s with sinks := s.sinks.modify sink fun k => { k with discards := true } }
  | .spawn subscription sink timeout => (s.spawn subscription sink timeout).2
  | .signal i signal => s.signal i signal
  | .manage managed => { s with managed }
  | .advance duration => { s with clock := s.clock + duration }
  | .settle => s.settle

def go (s : Session) (moves : List Move) : Session := moves.foldl move s

@[simp] theorem go_nil (s : Session) : s.go [] = s := rfl

@[simp] theorem go_cons (s : Session) (m : Move) (moves : List Move) :
    s.go (m :: moves) = (s.move m).go moves := rfl

@[simp] theorem go_append (s : Session) (moves more : List Move) :
    s.go (moves ++ more) = (s.go moves).go more := List.foldl_append

/-! ## The moves of a step -/

def stopMoves (s : Session) (i : Nat) : List Move :=
  if (s.ending? i).isNone then [.signal i .stop, .settle] else []

def stopStreamingMoves (s : Session) (channel : String) : List Move :=
  match s.managed? channel with
  | some i => .manage (s.unmanage channel).managed :: s.stopMoves i
  | none => []

def stopEachMoves (s : Session) : List String → List Move
  | [] => []
  | channel :: channels =>
    s.stopStreamingMoves channel ++ (s.stopStreaming channel).2.stopEachMoves channels

def subscribeMoves (s : Session) (channel : String) (next : Nat → List Move) : List Move :=
  .bus (.subscribe channel) ::
    match (s.bus.subscribe channel).1 with
    | .error _ => []
    | .ok id => next id

def startStreamingMoves (s : Session) (channel : String) (sink : Nat) : List Move :=
  let stopped := (s.stopStreaming channel).2
  s.stopStreamingMoves channel ++ stopped.subscribeMoves channel fun id =>
    [.spawn id sink Logs.flushTimeout, .manage ((channel, stopped.tasks.length) :: stopped.managed)]

/-- What a step does to a session, move by move. -/
def performMoves (s : Session) : Step → List Move
  | .subscribe channel => [.bus (.subscribe channel)]
  | .next id => [.bus (.next id)]
  | .unsubscribe id => [.bus (.unsubscribe id)]
  | .drop id => [.bus (.drop id)]
  | .dispatch frame => [.bus (.dispatch frame)]
  | .send frame => [.bus (.send frame)]
  | .failAll failure => [.bus (.failAll failure)]
  | .clear => [.bus .clear]
  | .closeOutbound => [.bus .closeOutbound]
  | .spawn channel timeout breaksOn =>
    s.subscribeMoves channel fun id => [.openSink breaksOn, .spawn id s.sinks.length timeout]
  | .adopt id timeout breaksOn => [.openSink breaksOn, .spawn id s.sinks.length timeout]
  | .stop i => s.stopMoves i
  | .abort i => [.signal i .abort]
  | .abandon i => [.signal i .stop]
  | .startStreaming channel breaksOn =>
    .openSink breaksOn :: (s.openSink breaksOn).2.startStreamingMoves channel s.sinks.length
  | .stopStreaming channel => s.stopStreamingMoves channel
  | .stopAll => s.stopEachMoves s.active
  | .dropManager => .manage [] :: s.managed.map fun entry => .signal entry.2 .abort
  | .dropSink sink => [.discard sink]
  | .sleep duration => [.settle, .advance duration, .settle]
  | .settle => [.settle]

def stepMoves (s : Session) (queued : Bool) (step : Step) : List Move :=
  s.performMoves step ++ if queued then [] else [.settle]

/-- What a run does to a session, move by move. -/
def runMoves (s : Session) : List (Bool × Step) → List Move
  | [] => []
  | (queued, step) :: steps =>
    s.stepMoves queued step ++ (s.step queued step).2.runMoves steps

variable {s : Session}

theorem go_stopMoves (s : Session) (i : Nat) : s.go (s.stopMoves i) = (s.stop i).2 := by
  unfold stopMoves stop
  split <;> rfl

theorem go_stopStreamingMoves (s : Session) (channel : String) :
    s.go (s.stopStreamingMoves channel) = (s.stopStreaming channel).2 := by
  unfold stopStreamingMoves stopStreaming
  cases s.managed? channel with
  | none => rfl
  | some i => exact go_stopMoves (s.unmanage channel) i

theorem go_stopEachMoves (s : Session) (channels : List String) :
    s.go (s.stopEachMoves channels) = s.stopEach channels := by
  induction channels generalizing s with
  | nil => rfl
  | cons channel channels ih =>
      rw [stopEachMoves, go_append, go_stopStreamingMoves, ih]
      rfl

theorem go_subscribeMoves_error {channel : String} {e : Failure}
    (hfailed : (s.bus.subscribe channel).1 = .error e) (next : Nat → List Move) :
    s.go (s.subscribeMoves channel next) = s.useBus (s.bus.subscribe channel).2 := by
  simp only [subscribeMoves, hfailed]
  rfl

theorem go_subscribeMoves_ok {channel : String} {id : Nat}
    (hmade : (s.bus.subscribe channel).1 = .ok id) (next : Nat → List Move) :
    s.go (s.subscribeMoves channel next) = (s.useBus (s.bus.subscribe channel).2).go (next id) := by
  simp only [subscribeMoves, hmade]
  rfl

theorem go_startStreamingMoves (s : Session) (channel : String) (sink : Nat) :
    s.go (s.startStreamingMoves channel sink) = (s.startStreaming channel sink).2 := by
  simp only [startStreamingMoves, go_append, go_stopStreamingMoves]
  unfold startStreaming
  cases hresult : (s.stopStreaming channel).2.bus.subscribe channel with
  | mk result b =>
      cases result with
      | error e =>
          rw [go_subscribeMoves_error (by rw [hresult])]
          simp only [hresult]
      | ok id =>
          rw [go_subscribeMoves_ok (by rw [hresult])]
          simp only [hresult]
          rfl

theorem go_performMoves (s : Session) (step : Step) :
    s.go (s.performMoves step) = (s.perform step).2 := by
  cases step with
  | subscribe channel =>
      simp only [performMoves, perform]
      cases hresult : s.bus.subscribe channel with
      | mk result b => cases result <;> simp [move, Bus.perform, hresult]
  | spawn channel timeout breaksOn =>
      simp only [performMoves, perform]
      cases hresult : s.bus.subscribe channel with
      | mk result b =>
          cases result with
          | error e =>
              rw [go_subscribeMoves_error (by rw [hresult])]
              simp only [hresult]
          | ok id =>
              rw [go_subscribeMoves_ok (by rw [hresult])]
              simp only [hresult]
              rfl
  | stop i =>
      simp only [performMoves, perform]
      exact go_stopMoves s i
  | startStreaming channel breaksOn => exact go_startStreamingMoves _ channel s.sinks.length
  | stopStreaming channel => exact go_stopStreamingMoves s channel
  | stopAll => exact go_stopEachMoves s s.active
  | dropManager =>
      simp only [performMoves, perform, dropManager, go, List.foldl_cons, List.foldl_map]
      rfl
  | _ => rfl

theorem go_stepMoves (s : Session) (queued : Bool) (step : Step) :
    s.go (s.stepMoves queued step) = (s.step queued step).2 := by
  unfold stepMoves Session.step
  rw [go_append, go_performMoves]
  cases queued <;> rfl

theorem go_runMoves (s : Session) (steps : List (Bool × Step)) :
    s.go (s.runMoves steps) = s.run steps := by
  induction steps generalizing s with
  | nil => rfl
  | cons entry steps ih =>
      rw [runMoves, go_append, go_stepMoves, ih]
      rfl

def Free (s : Session) (id : Nat) : Prop := ∀ t ∈ s.tasks, t.subscription ≠ id

/-- A sink that no stream writes to and that nothing was written to. -/
def Fresh (s : Session) (sink : Nat) : Prop :=
  (∃ k, s.sinks[sink]? = some k ∧ k.lines = []) ∧ sink ∉ s.tasks.map Task.sink

/-- A subscription that can be handed to a stream. -/
def Offered (s : Session) (id : Nat) : Prop :=
  s.Free id ∧ ∃ channel items, s.bus.Holds channel id items

def Step.Permitted (s : Session) : Step → Prop
  | .next id => s.Free id
  | .unsubscribe id => s.Free id
  | .drop id => s.Free id
  | .adopt id _ _ => s.Offered id
  | _ => True

/-- A run in which the subscriptions of streams are left to the streams. -/
def Permitted (s : Session) : List (Bool × Step) → Prop
  | [] => True
  | (queued, step) :: steps => step.Permitted s ∧ (s.step queued step).2.Permitted steps

def Move.Permitted (s : Session) : Move → Prop
  | .bus (.next id) => s.Free id
  | .bus (.unsubscribe id) => s.Free id
  | .bus (.drop id) => s.Free id
  | .spawn subscription sink _ => s.Offered subscription ∧ s.Fresh sink
  | _ => True

def AllPermitted (s : Session) : List Move → Prop
  | [] => True
  | m :: moves => m.Permitted s ∧ (s.move m).AllPermitted moves

theorem allPermitted_append {s : Session} {moves more : List Move} :
    s.AllPermitted (moves ++ more) ↔ s.AllPermitted moves ∧ (s.go moves).AllPermitted more := by
  induction moves generalizing s with
  | nil => simp [AllPermitted]
  | cons m moves ih => rw [List.cons_append, AllPermitted, AllPermitted, ih, and_assoc, go_cons]

theorem allPermitted_of_forall {moves : List Move} (h : ∀ m ∈ moves, ∀ s, m.Permitted s)
    (s : Session) : s.AllPermitted moves := by
  induction moves generalizing s with
  | nil => trivial
  | cons m moves ih =>
      exact ⟨h m List.mem_cons_self s, ih (fun m' hm' => h m' (List.mem_cons_of_mem m hm')) _⟩

def Move.Stops : Move → Prop
  | .signal _ _ => True
  | .manage _ => True
  | .settle => True
  | _ => False

theorem Move.Stops.permitted {m : Move} (hm : m.Stops) (s : Session) : m.Permitted s := by
  cases m with
  | signal i signal => trivial
  | manage managed => trivial
  | settle => trivial
  | _ => cases hm

theorem stops_of_mem_stopStreamingMoves {channel : String} {m : Move}
    (hm : m ∈ s.stopStreamingMoves channel) : m.Stops := by
  unfold stopStreamingMoves stopMoves at hm
  split at hm
  next i _ =>
    rcases List.mem_cons.mp hm with rfl | hm
    · trivial
    · split at hm
      · simp only [List.mem_cons, List.not_mem_nil, or_false] at hm
        rcases hm with rfl | rfl <;> trivial
      · cases hm
  next => cases hm

theorem stops_of_mem_stopEachMoves {channels : List String} {m : Move}
    (hm : m ∈ s.stopEachMoves channels) : m.Stops := by
  induction channels generalizing s with
  | nil => cases hm
  | cons channel channels ih =>
      rcases List.mem_append.mp hm with hfirst | hrest
      · exact stops_of_mem_stopStreamingMoves hfirst
      · exact ih hrest

theorem map_settle (s : Session) {g : Task → Nat}
    (hg : ∀ (t : Task) (stream : Stream) (ending : Option Ending),
      g { t with stream, ending } = g t) :
    s.settle.tasks.map g = s.tasks.map g := by
  have hpolls (order : List Nat) (s : Session) :
      (order.foldl poll s).tasks.map g = s.tasks.map g := by
    induction order generalizing s with
    | nil => rfl
    | cons j order ih => rw [List.foldl_cons, ih, map_poll s j hg]
  exact hpolls (s.ready ++ s.due) { s with ready := [] }

theorem sink_poll_of_not_mem {sink : Nat} (hsink : sink ∉ s.tasks.map Task.sink) (i : Nat) :
    (s.poll i).sinks[sink]? = s.sinks[sink]? := by
  unfold poll
  split
  next t htask =>
    split
    · rfl
    · have hne : t.sink ≠ sink := by
        rintro rfl
        exact hsink (List.mem_map_of_mem (List.mem_of_getElem? htask))
      simp [write, updateTask, hne]
  · rfl

theorem sink_settle_of_not_mem {sink : Nat} (hsink : sink ∉ s.tasks.map Task.sink) :
    s.settle.sinks[sink]? = s.sinks[sink]? := by
  have hpolls (order : List Nat) (s : Session) (hsink : sink ∉ s.tasks.map Task.sink) :
      (order.foldl poll s).sinks[sink]? = s.sinks[sink]? := by
    induction order generalizing s with
    | nil => rfl
    | cons j order ih =>
        have hsame : (s.poll j).tasks.map Task.sink = s.tasks.map Task.sink :=
          map_poll s j fun _ _ _ => rfl
        rw [List.foldl_cons, ih (s.poll j) (by rw [hsame]; exact hsink),
          sink_poll_of_not_mem hsink j]
  exact hpolls (s.ready ++ s.due) { s with ready := [] } hsink

theorem Fresh.move {sink : Nat} (hsink : s.Fresh sink) {m : Move} (hm : m.Stops) :
    (s.move m).Fresh sink := by
  cases m with
  | signal i signal =>
      have hsame : (s.move (.signal i signal)).tasks.map Task.sink = s.tasks.map Task.sink :=
        map_updateTask s i fun _ => rfl
      refine ⟨hsink.1, ?_⟩
      rw [hsame]
      exact hsink.2
  | manage managed => exact hsink
  | settle =>
      have hsame : s.settle.tasks.map Task.sink = s.tasks.map Task.sink :=
        map_settle s fun _ _ _ => rfl
      unfold Fresh
      change (∃ k, s.settle.sinks[sink]? = some k ∧ k.lines = []) ∧
        sink ∉ s.settle.tasks.map Task.sink
      rw [hsame, sink_settle_of_not_mem hsink.2]
      exact hsink
  | _ => cases hm

theorem Fresh.go {sink : Nat} {moves : List Move} (hsink : s.Fresh sink)
    (hmoves : ∀ m ∈ moves, m.Stops) : (s.go moves).Fresh sink := by
  induction moves generalizing s with
  | nil => exact hsink
  | cons m moves ih =>
      exact ih (hsink.move (hmoves m List.mem_cons_self))
        fun m' hm' => hmoves m' (List.mem_cons_of_mem m hm')

/-! ## Sound sessions stay sound -/

theorem Sound.useBus (hs : s.Sound) {b : Bus} (hb : b.WellFormed)
    (hmailboxes : s.bus.mailboxes.length ≤ b.mailboxes.length) : (s.useBus b).Sound :=
  hs.of_le hb rfl rfl hmailboxes (Nat.le_refl _)

theorem Sound.move (hs : s.Sound) {m : Move} (hm : m.Permitted s) : (s.move m).Sound := by
  cases m with
  | bus op => exact hs.useBus (hs.bus.perform op) (s.bus.length_mailboxes_le_perform op)
  | openSink breaksOn =>
      have hgrows : s.sinks.length ≤ (s.openSink breaksOn).2.sinks.length := by
        simp [Session.openSink]
      exact hs.of_le hs.bus rfl rfl (Nat.le_refl _) hgrows
  | discard sink =>
      exact hs.of_le hs.bus rfl rfl (Nat.le_refl _) (Nat.le_of_eq (List.length_modify _ _ _).symm)
  | spawn subscription sink timeout =>
      obtain ⟨⟨hfree, channel, items, hheld⟩, ⟨k, hk, -⟩, hsink⟩ := hm
      have htasks : (s.move (.spawn subscription sink timeout)).tasks =
          s.tasks ++ [{ subscription, sink, stream := { timeout } }] := rfl
      constructor
      · exact hs.bus
      · rw [htasks, List.map_append, List.nodup_append]
        refine ⟨hs.subscriptions, by simp, ?_⟩
        intro a ha b hb
        obtain ⟨t, ht, rfl⟩ := List.mem_map.mp ha
        obtain rfl : b = subscription := by simpa using hb
        exact hfree t ht
      · rw [htasks, List.map_append, List.nodup_append]
        refine ⟨hs.sinks, by simp, ?_⟩
        intro a ha b hb
        obtain ⟨t, ht, rfl⟩ := List.mem_map.mp ha
        obtain rfl : b = sink := by simpa using hb
        exact fun heq => hsink (heq ▸ List.mem_map_of_mem ht)
      · intro t ht
        rw [htasks] at ht
        rcases List.mem_append.mp ht with hold | hnew
        · exact hs.subscribed t hold
        · obtain rfl := List.mem_singleton.mp hnew
          exact hheld.lt_length
      · intro t ht
        rw [htasks] at ht
        rcases List.mem_append.mp ht with hold | hnew
        · exact hs.attached t hold
        · obtain rfl := List.mem_singleton.mp hnew
          exact (List.getElem?_eq_some_iff.mp hk).1
  | signal i signal =>
      exact hs.of_le hs.bus (map_updateTask s i fun _ => rfl) (map_updateTask s i fun _ => rfl)
        (Nat.le_refl _) (Nat.le_refl _)
  | manage managed => exact hs.of_le hs.bus rfl rfl (Nat.le_refl _) (Nat.le_refl _)
  | advance duration => exact hs.of_le hs.bus rfl rfl (Nat.le_refl _) (Nat.le_refl _)
  | settle => exact hs.settle

theorem Sound.go (hs : s.Sound) {moves : List Move} (hmoves : s.AllPermitted moves) :
    (s.go moves).Sound := by
  induction moves generalizing s with
  | nil => exact hs
  | cons m moves ih => exact ih (hs.move hmoves.1) hmoves.2

theorem Sound.offered_subscribe (hs : s.Sound) {channel : String} {id : Nat}
    (hmade : (s.bus.subscribe channel).1 = .ok id) :
    (s.move (.bus (.subscribe channel))).Offered id := by
  obtain ⟨hheld, -, -⟩ := Bus.holds_subscribe hs.bus hmade
  refine ⟨?_, channel, [], hheld⟩
  intro t ht
  have hlt := hs.subscribed t ht
  have hid := (Bus.open_of_subscribe hmade).2
  omega

theorem Sound.fresh_openSink (hs : s.Sound) (breaksOn : Option String) :
    (s.openSink breaksOn).2.Fresh s.sinks.length := by
  constructor
  · exact ⟨{ breaksOn }, by simp [Session.openSink], rfl⟩
  · intro hmem
    obtain ⟨t, ht, heq⟩ := List.mem_map.mp hmem
    have hlt := hs.attached t ht
    omega

theorem allPermitted_subscribeMoves {channel : String} {next : Nat → List Move}
    (hnext : ∀ id, (s.bus.subscribe channel).1 = .ok id →
      (s.move (.bus (.subscribe channel))).AllPermitted (next id)) :
    s.AllPermitted (s.subscribeMoves channel next) := by
  refine ⟨trivial, ?_⟩
  cases hresult : (s.bus.subscribe channel).1 with
  | error e => trivial
  | ok id => exact hnext id hresult

theorem Sound.allPermitted_startStreamingMoves (hs : s.Sound) {channel : String} {sink : Nat}
    (hsink : s.Fresh sink) : s.AllPermitted (s.startStreamingMoves channel sink) := by
  have hstops : ∀ m ∈ s.stopStreamingMoves channel, m.Stops :=
    fun _ => stops_of_mem_stopStreamingMoves
  have hpermitted := allPermitted_of_forall (fun m hm s => (hstops m hm).permitted s) s
  have hstopped := hs.go hpermitted
  have hfresh := hsink.go hstops
  refine allPermitted_append.mpr ⟨hpermitted, ?_⟩
  rw [go_stopStreamingMoves] at hstopped hfresh ⊢
  apply allPermitted_subscribeMoves
  intro id hmade
  exact ⟨⟨hstopped.offered_subscribe hmade, hfresh⟩, trivial, trivial⟩

theorem Sound.allPermitted_performMoves (hs : s.Sound) {step : Step} (hstep : step.Permitted s) :
    s.AllPermitted (s.performMoves step) := by
  cases step with
  | next id => exact ⟨hstep, trivial⟩
  | unsubscribe id => exact ⟨hstep, trivial⟩
  | drop id => exact ⟨hstep, trivial⟩
  | spawn channel timeout breaksOn =>
      apply allPermitted_subscribeMoves
      intro id hmade
      have hsubscribed := hs.move (m := .bus (.subscribe channel)) trivial
      have hoffered := hs.offered_subscribe hmade
      exact ⟨trivial, ⟨hoffered, hsubscribed.fresh_openSink breaksOn⟩, trivial⟩
  | adopt id timeout breaksOn =>
      exact ⟨trivial, ⟨hstep, hs.fresh_openSink breaksOn⟩, trivial⟩
  | stop i =>
      change s.AllPermitted (s.stopMoves i)
      unfold stopMoves
      split
      · exact ⟨trivial, trivial, trivial⟩
      · trivial
  | startStreaming channel breaksOn =>
      have hopened := hs.move (m := .openSink breaksOn) trivial
      exact ⟨trivial, hopened.allPermitted_startStreamingMoves (hs.fresh_openSink breaksOn)⟩
  | stopStreaming channel =>
      exact allPermitted_of_forall
        (fun m hm s => (stops_of_mem_stopStreamingMoves hm).permitted s) s
  | stopAll =>
      exact allPermitted_of_forall (fun m hm s => (stops_of_mem_stopEachMoves hm).permitted s) s
  | dropManager =>
      apply allPermitted_of_forall
      intro m hm s
      rcases List.mem_cons.mp hm with rfl | hm
      · trivial
      · obtain ⟨entry, -, rfl⟩ := List.mem_map.mp hm
        trivial
  | sleep duration => exact ⟨trivial, trivial, trivial, trivial⟩
  | _ => exact ⟨trivial, trivial⟩

theorem Sound.allPermitted_runMoves (hs : s.Sound) {steps : List (Bool × Step)}
    (hsteps : s.Permitted steps) : s.AllPermitted (s.runMoves steps) := by
  induction steps generalizing s with
  | nil => trivial
  | cons entry steps ih =>
      obtain ⟨queued, step⟩ := entry
      obtain ⟨hstep, hrest⟩ := hsteps
      have hfirst : s.AllPermitted (s.stepMoves queued step) := by
        refine allPermitted_append.mpr ⟨hs.allPermitted_performMoves hstep, ?_⟩
        cases queued
        · exact ⟨trivial, trivial⟩
        · trivial
      have hafter := hs.go hfirst
      refine allPermitted_append.mpr ⟨hfirst, ?_⟩
      rw [go_stepMoves] at hafter ⊢
      exact ih hafter hrest

end Session

end DevMachine

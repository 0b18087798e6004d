import DevMachine.Proofs.Session.Parts

/-!
# Steps in a part of a session

A step about a channel of the part, or about all channels, is the same step in
the part, with the numbers that its subscriptions, streams and sinks have there.
A step about any other channel leaves the part as it is.  Both hold between steps
that have settled everything.
-/

namespace DevMachine

open Channel (Bus partOfTable place place_append place_length stays stays_eq)
namespace Session

variable {p : String → Bool} {outputs : List String} {s : Session} {i : Nat} {c : String}
  {b : Bus}

/-- Everything has settled, and the chart is up to date. -/
structure Rested (outputs : List String) (s : Session) : Prop extends Attentive s where
  charted : s.Charted outputs
  unready : s.ready = []
  waits : ∀ t ∈ s.tasks, t.isDue s.clock = false

theorem rested_initial (stamp : Int64) : Rested [] { bus := { stamp } } where
  toAttentive := attentive_initial stamp
  charted := ⟨rfl, rfl, by simp⟩
  unready := rfl
  waits := by simp

theorem ready_poll (s : Session) (i : Nat) : (s.poll i).ready = s.ready := by
  unfold poll
  split
  · split <;> rfl
  · rfl

theorem ready_settle (s : Session) : s.settle.ready = [] :=
  settle_induction (fun s' => s'.ready = []) rfl fun s' i h => (ready_poll s' i).trans h

theorem Attentive.waits_settle (h : s.Attentive) :
    ∀ t ∈ s.settle.tasks, t.isDue s.settle.clock = false := by
  intro t ht
  obtain ⟨i, ht⟩ := List.mem_iff_getElem?.mp ht
  cases hending : t.ending with
  | some ending => simp [Task.isDue, hending]
  | none =>
      obtain ⟨v, hv, rfl, hidle⟩ := h.idle_settle ht hending
      rw [Task.isDue, hv.now, hidle.waits, Bool.and_false]

theorem settle_of_waits (hready : s.ready = []) (hwaits : ∀ t ∈ s.tasks, t.isDue s.clock = false) :
    s.settle = s := by
  have hdue : s.due = [] := by
    rw [List.eq_nil_iff_forall_not_mem]
    intro i hdue
    obtain ⟨t, ht, hdue⟩ := (mem_due_iff s i).mp hdue
    rw [hwaits t (List.mem_of_getElem? ht)] at hdue
    cases hdue
  obtain ⟨bus, clock, tasks, sinks, ready, managed⟩ := s
  obtain rfl : ready = [] := hready
  unfold settle
  rw [hdue]
  rfl

theorem Attentive.settle_settle (h : s.Attentive) : s.settle.settle = s.settle :=
  settle_of_waits (ready_settle s) h.waits_settle

theorem Attentive.rested_settle (h : s.Attentive) (hcharted : s.Charted outputs) :
    s.settle.Rested outputs where
  toAttentive := h.settle
  charted := hcharted.settle
  unready := ready_settle s
  waits := h.waits_settle

theorem Rested.settle_eq (h : s.Rested outputs) : s.settle = s := settle_of_waits h.unready h.waits

theorem Rested.settle_part (h : s.Rested outputs) :
    (s.part p outputs).settle = s.part p outputs := by
  rw [← h.charted.part_settle h.sound, h.settle_eq]

theorem stop_of_live (hlive : s.ending? i = none) :
    s.stop i = ((s.signal i .stop).settle.ending? i, (s.signal i .stop).settle) := by
  simp [stop, hlive]

theorem stop_of_ended (hended : (s.ending? i).isSome) : s.stop i = (s.ending? i, s) := by
  obtain ⟨ending, hending⟩ := Option.isSome_iff_exists.mp hended
  simp [stop, hending]

theorem Rested.signal_settle (h : s.Rested outputs) (i : Nat) (x : Signal) :
    (s.signal i x).settle.Rested outputs := by
  have hmoves : s.AllPermitted [.signal i x] := ⟨trivial, trivial⟩
  exact (h.toAttentive.go hmoves).rested_settle (h.charted.signal i x)

theorem Rested.part_signal_settle (h : s.Rested outputs) (i : Nat) (x : Signal) :
    (s.signal i x).settle.part p outputs =
      if stays p s.streams i then ((s.part p outputs).signal (place p s.streams i) x).settle
      else s.part p outputs := by
  have hmoves : s.AllPermitted [.signal i x] := ⟨trivial, trivial⟩
  rw [(h.charted.signal i x).part_settle (h.sound.go hmoves), part_signal]
  split
  · rfl
  · exact h.settle_part

theorem Rested.stop (h : s.Rested outputs) (i : Nat) : (s.stop i).2.Rested outputs := by
  cases hending : s.ending? i with
  | none =>
      rw [stop_of_live hending]
      exact h.signal_settle i .stop
  | some ending =>
      rw [stop_of_ended (by simp [hending])]
      exact h

theorem Rested.part_stop (h : s.Rested outputs) (i : Nat) :
    (s.stop i).2.part p outputs =
      if stays p s.streams i then ((s.part p outputs).stop (place p s.streams i)).2
      else s.part p outputs := by
  cases hending : s.ending? i with
  | none =>
      rw [stop_of_live hending, h.part_signal_settle]
      split
      next hi => rw [stop_of_live ((ending?_part hi).trans hending)]
      next => rfl
  | some ending =>
      have hended : (s.ending? i).isSome := by simp [hending]
      rw [stop_of_ended hended]
      split
      next hi => rw [stop_of_ended (by rwa [ending?_part hi])]
      next => rfl

theorem Rested.stop_part (h : s.Rested outputs) (hi : stays p s.streams i = true) :
    ((s.part p outputs).stop (place p s.streams i)).1 = (s.stop i).1 := by
  cases hending : s.ending? i with
  | none =>
      have hstreams : (s.signal i .stop).settle.streams = s.streams :=
        (streams_settle _).trans (streams_signal s i .stop)
      have hended : ((s.signal i .stop).settle.part p outputs).ending? _ = _ :=
        ending?_part (hstreams ▸ hi)
      rw [h.part_signal_settle, if_pos hi, hstreams] at hended
      rw [stop_of_live hending, stop_of_live ((ending?_part hi).trans hending)]
      exact hended
  | some ending =>
      have hended : (s.ending? i).isSome := by simp [hending]
      rw [stop_of_ended hended, stop_of_ended (by rwa [ending?_part hi])]
      exact ending?_part hi

theorem Charted.stream_listed (h : s.Charted outputs) (hlisted : s.managed? c = some i) :
    s.streams[i]? = some c := by
  obtain ⟨entry, hfind, rfl⟩ := Option.map_eq_some_iff.mp hlisted
  have hkey : entry.1 = c := by simpa using List.find?_some hfind
  rw [h.listed entry (List.mem_of_find?_eq_some hfind), hkey]

theorem Rested.unmanage (h : s.Rested outputs) (channel : String) :
    (s.unmanage channel).Rested outputs where
  toAttentive := by
    have hmoves : s.AllPermitted [.manage (s.unmanage channel).managed] := ⟨trivial, trivial⟩
    exact h.toAttentive.go hmoves
  charted := h.charted.of_same rfl rfl rfl (List.filter_subset_self _)
  unready := h.unready
  waits := h.waits

theorem part_unmanage (s : Session) (channel : String) :
    (s.unmanage channel).part p outputs = (s.part p outputs).unmanage channel := by
  simp only [part, Session.unmanage, Channel.partOfTable_filter_ne]
  rfl

theorem part_unmanage_of_leaves (hp : p c = false) :
    (s.unmanage c).part p outputs = s.part p outputs := by
  rw [part_unmanage]
  simp only [part, Session.unmanage, Channel.filter_ne_partOfTable hp]

theorem Rested.stopStreaming (h : s.Rested outputs) (channel : String) :
    (s.stopStreaming channel).2.Rested outputs := by
  unfold Session.stopStreaming
  split
  · exact (h.unmanage channel).stop _
  · exact h

theorem Rested.part_stopStreaming (h : s.Rested outputs) (channel : String) :
    (s.stopStreaming channel).2.part p outputs =
      if p channel then ((s.part p outputs).stopStreaming channel).2 else s.part p outputs := by
  unfold Session.stopStreaming
  rw [managed?_part]
  cases hlisted : s.managed? channel with
  | none => cases p channel <;> rfl
  | some i =>
      have hstays : stays p (s.unmanage channel).streams i = p channel :=
        stays_eq (h.charted.stream_listed hlisted)
      have hstopped := (h.unmanage channel).part_stop (p := p) i
      rw [hstays] at hstopped
      refine hstopped.trans ?_
      cases hp : p channel with
      | true => rw [if_pos rfl, if_pos rfl, part_unmanage]; rfl
      | false => exact part_unmanage_of_leaves hp

theorem Rested.stopStreaming_part (h : s.Rested outputs) (hp : p c = true) :
    ((s.part p outputs).stopStreaming c).1 = (s.stopStreaming c).1 := by
  unfold Session.stopStreaming
  rw [managed?_part, if_pos hp]
  cases hlisted : s.managed? c with
  | none => rfl
  | some i =>
      have hstays : stays p (s.unmanage c).streams i = true :=
        (stays_eq (h.charted.stream_listed hlisted)).trans hp
      have hended := (h.unmanage c).stop_part hstays
      rw [part_unmanage] at hended
      exact congrArg (·.getD .finished) hended

theorem Rested.stopEach (h : s.Rested outputs) (channels : List String) :
    (s.stopEach channels).Rested outputs := by
  induction channels generalizing s with
  | nil => exact h
  | cons channel channels ih => exact ih (h.stopStreaming channel)

theorem Rested.part_stopEach (h : s.Rested outputs) (channels : List String) :
    (s.stopEach channels).part p outputs = (s.part p outputs).stopEach (channels.filter p) := by
  induction channels generalizing s with
  | nil => rfl
  | cons channel channels ih =>
      have hrest := ih (h.stopStreaming channel)
      rw [h.part_stopStreaming] at hrest
      rw [List.filter_cons]
      refine hrest.trans ?_
      split <;> rfl

theorem mergeSort_filter (channels : List String) (q : String → Bool) :
    (channels.filter q).mergeSort (· ≤ ·) = (channels.mergeSort (· ≤ ·)).filter q := by
  have hsorted (l : List String) :
      (l.mergeSort (· ≤ ·)).Pairwise fun c d => decide (c ≤ d) = true := by
    apply List.pairwise_mergeSort
    · simpa using fun c d e => String.le_trans
    · simpa using fun c d => String.le_total c d
  have hperm := (List.mergeSort_perm (channels.filter q) (· ≤ ·)).trans
    ((List.mergeSort_perm channels (· ≤ ·)).symm.filter q)
  refine hperm.eq_of_pairwise (fun c d _ _ hle hge => ?_) (hsorted _) ((hsorted channels).filter q)
  exact String.le_antisymm (of_decide_eq_true hle) (of_decide_eq_true hge)

theorem active_part (s : Session) : (s.part p outputs).active = s.active.filter p := by
  have hlisted : (s.part p outputs).managed.map (·.1) = (s.managed.map (·.1)).filter p := by
    change (partOfTable p _ s.managed).map _ = _
    rw [partOfTable, List.map_map, List.filter_map]
    rfl
  rw [active, hlisted, mergeSort_filter, active]

theorem part_signals {entries : List (String × Nat)}
    (hentries : ∀ entry ∈ entries, s.streams[entry.2]? = some entry.1) (x : Signal) :
    (entries.foldl (fun s entry => s.signal entry.2 x) s).part p outputs =
      (partOfTable p (place p s.streams) entries).foldl (fun s entry => s.signal entry.2 x)
        (s.part p outputs) := by
  induction entries generalizing s with
  | nil => rfl
  | cons entry entries ih =>
      obtain ⟨channel, i⟩ := entry
      have hstreams := streams_signal s i x
      have hstays : stays p s.streams i = p channel := stays_eq (hentries _ List.mem_cons_self)
      have hrest := ih (s := s.signal i x) fun entry hentry => by
        rw [hstreams]
        exact hentries entry (List.mem_cons_of_mem _ hentry)
      rw [List.foldl_cons, hrest, hstreams, part_signal, hstays, Channel.partOfTable_cons]
      split <;> rfl

theorem Charted.useBus (h : s.Charted outputs) (hs : s.Sound)
    (hgrown : s.bus.subscribed <+: b.subscribed) : (s.useBus b).Charted outputs :=
  h.of_same rfl rfl (streams_useBus hs hgrown) (List.Subset.refl _)

theorem Charted.part_call (h : s.Charted outputs) (hs : s.Sound) (op : Bus.Operation) :
    (s.useBus (s.bus.perform op)).part p outputs =
      if (op.channel? s.bus).all p then
        (s.part p outputs).useBus ((s.part p outputs).bus.perform (op.inPart p s.bus))
      else s.part p outputs := by
  rw [h.part_useBus hs (hs.bus.perform op) (s.bus.subscribed_grows op)]
  split
  next hop => rw [Bus.part_perform hs.bus hop]; rfl
  next hop =>
    rw [Bus.part_perform_of_leaves hs.bus (by simpa using hop)]
    exact useBus_self _

theorem Charted.part_subscribed (h : s.Charted outputs) (hs : s.Sound) (channel : String) :
    (s.useBus (s.bus.subscribe channel).2).part p outputs =
      if p channel then
        (s.part p outputs).useBus ((s.part p outputs).bus.subscribe channel).2
      else s.part p outputs := h.part_call hs (.subscribe channel)

/-! ## New streams -/

theorem Charted.adopt (h : s.Charted outputs) (hs : s.Sound) {id : Nat}
    (hc : s.bus.subscribed[id]? = some c) (timeout : Nat) (breaksOn : Option String) :
    (s.adopt id timeout breaksOn).2.Charted (outputs ++ [c]) := by
  have hsink : (outputs ++ [c])[s.sinks.length]? = some c := by
    rw [h.length, List.getElem?_concat_length]
  exact (h.openSink hs breaksOn c).spawn hc hsink timeout

theorem Charted.part_adopt (h : s.Charted outputs) (hs : s.Sound) {id : Nat}
    (hc : s.bus.subscribed[id]? = some c) (hready : ∀ i ∈ s.ready, i < s.tasks.length)
    (timeout : Nat) (breaksOn : Option String) :
    (s.adopt id timeout breaksOn).2.part p (outputs ++ [c]) =
      if p c then ((s.part p outputs).adopt (place p s.bus.subscribed id) timeout breaksOn).2
      else s.part p outputs := by
  have hspawned := (h.openSink hs breaksOn c).part_spawn (p := p) hc hready s.sinks.length timeout
  have hsink : place p (outputs ++ [c]) s.sinks.length = (s.part p outputs).sinks.length := by
    rw [h.length_sinks_part, h.length, place_append (Nat.le_refl _)]
  rw [h.part_openSink hs, hsink] at hspawned
  refine hspawned.trans ?_
  split <;> rfl

theorem Charted.adopt_part (h : s.Charted outputs) (id timeout : Nat) (breaksOn : Option String) :
    ((s.part p outputs).adopt id timeout breaksOn).1 =
      .spawned (place p s.streams s.tasks.length) (place p outputs s.sinks.length) := by
  rw [← h.length_sinks_part, ← length_tasks_part_eq_place]
  rfl

theorem Rested.ready_useBus (h : s.Rested outputs) (b : Bus) :
    ∀ i ∈ (s.useBus b).ready, i < (s.useBus b).tasks.length := by
  intro i hi
  have hnoticed : i ∈ s.noticed b := by
    simpa [Session.useBus, wake, h.unready] using hi
  exact List.mem_range.mp (List.mem_filter.mp hnoticed).1

theorem subscribed_new (hopen : s.bus.isOpen = true) (channel : String) :
    (s.useBus (s.bus.subscribe channel).2).bus.subscribed[s.bus.mailboxes.length]? =
      some channel := by
  change (s.bus.subscribe channel).2.subscribed[_]? = _
  rw [Bus.subscribed_subscribe_of_open hopen, Bus.length_subscribed, List.getElem?_concat_length]

theorem place_new (hopen : s.bus.isOpen = true) (channel : String) :
    place p (s.useBus (s.bus.subscribe channel).2).bus.subscribed s.bus.mailboxes.length =
      (s.part p outputs).bus.mailboxes.length := by
  change place p (s.bus.subscribe channel).2.subscribed _ = (s.bus.part p).mailboxes.length
  rw [Bus.subscribed_subscribe_of_open hopen, Bus.length_mailboxes_part, Bus.length_subscribed,
    place_append (Nat.le_refl _), place_length]

theorem launch_of_closed (hclosed : s.bus.isOpen = false) (channel : String) (sink : Nat) :
    s.launch channel sink = s := by
  unfold launch
  rw [Bus.subscribe_of_closed hclosed]
  exact useBus_self s

theorem launch_of_isOpen (hopen : s.bus.isOpen = true) (channel : String) (sink : Nat) :
    s.launch channel sink =
      { ((s.useBus (s.bus.subscribe channel).2).spawn s.bus.mailboxes.length sink
          Logs.flushTimeout).2 with
        managed := (channel, s.tasks.length) :: s.managed } := by
  unfold launch
  rw [Bus.subscribe_of_open hopen]
  rfl

theorem Rested.charted_launch (h : s.Rested outputs) {sink : Nat}
    (hsink : outputs[sink]? = some c) : (s.launch c sink).Charted outputs := by
  cases hopen : s.bus.isOpen with
  | false =>
      rw [launch_of_closed hopen]
      exact h.charted
  | true =>
      have hgrown : s.bus.subscribed <+: (s.bus.subscribe c).2.subscribed :=
        s.bus.subscribed_grows (.subscribe c)
      have hnew := subscribed_new hopen c
      have hspawned := (h.charted.useBus h.sound hgrown).spawn hnew hsink Logs.flushTimeout
      have hstreams := streams_spawn hnew sink Logs.flushTimeout
      rw [streams_useBus h.sound hgrown] at hstreams
      rw [launch_of_isOpen hopen]
      refine ⟨hspawned.length, hspawned.attached, ?_⟩
      intro entry hentry
      rcases List.mem_cons.mp hentry with rfl | hentry
      · refine (congrArg (·[s.tasks.length]?) hstreams).trans ?_
        rw [length_streams, List.getElem?_concat_length]
      · exact hspawned.listed entry hentry

theorem Rested.part_launch (h : s.Rested outputs) (channel : String) (sink : Nat) :
    (s.launch channel sink).part p outputs =
      if p channel then (s.part p outputs).launch channel (place p outputs sink)
      else s.part p outputs := by
  cases hopen : s.bus.isOpen with
  | false =>
      have hopen' : (s.part p outputs).bus.isOpen = false := hopen
      rw [launch_of_closed hopen, launch_of_closed hopen', ite_self]
  | true =>
      have hopen' : (s.part p outputs).bus.isOpen = true := hopen
      have hgrown : s.bus.subscribed <+: (s.bus.subscribe channel).2.subscribed :=
        s.bus.subscribed_grows (.subscribe channel)
      have hnew := subscribed_new hopen channel
      have hspawned := (h.charted.useBus h.sound hgrown).part_spawn (p := p) hnew
        (h.ready_useBus _) sink Logs.flushTimeout
      have hstreams := streams_spawn hnew sink Logs.flushTimeout
      rw [streams_useBus h.sound hgrown] at hstreams
      rw [h.charted.part_subscribed h.sound, place_new hopen] at hspawned
      -- the manager lists the new stream behind the ones that it lists already
      have hlisted : partOfTable p (place p (s.streams ++ [channel])) s.managed =
          (s.part p outputs).managed := by
        apply Channel.partOfTable_congr
        intro entry hentry
        have hlt := (List.getElem?_eq_some_iff.mp (h.charted.listed entry hentry)).1
        exact place_append (Nat.le_of_lt hlt)
      have hnumber : place p (s.streams ++ [channel]) s.tasks.length =
          (s.part p outputs).tasks.length := by
        rw [length_tasks_part_eq_place, length_streams, place_append (Nat.le_refl _)]
      have hmanaged : partOfTable p (place p (s.streams ++ [channel]))
          ((channel, s.tasks.length) :: s.managed) =
          if p channel then
            (channel, (s.part p outputs).tasks.length) :: (s.part p outputs).managed
          else (s.part p outputs).managed := by
        rw [Channel.partOfTable_cons, hlisted, hnumber]
      have hpart : (s.launch channel sink).part p outputs =
          { ((s.useBus (s.bus.subscribe channel).2).spawn s.bus.mailboxes.length sink
              Logs.flushTimeout).2.part p outputs with
            managed := partOfTable p (place p (s.streams ++ [channel]))
              ((channel, s.tasks.length) :: s.managed) } := by
        rw [launch_of_isOpen hopen, ← hstreams]
        rfl
      rw [hpart, hspawned, hmanaged]
      cases p channel with
      | true =>
          simp only [if_true]
          rw [launch_of_isOpen hopen']
      | false => rfl

theorem Rested.openSink (h : s.Rested outputs) (breaksOn : Option String) (channel : String) :
    (s.openSink breaksOn).2.Rested (outputs ++ [channel]) where
  toAttentive := by
    have hmoves : s.AllPermitted [.openSink breaksOn] := ⟨trivial, trivial⟩
    exact h.toAttentive.go hmoves
  charted := h.charted.openSink h.sound breaksOn channel
  unready := h.unready
  waits := h.waits

theorem startStreaming_result (s : Session) (channel : String) (sink : Nat) :
    (s.startStreaming channel sink).1 =
      if (s.stopStreaming channel).2.bus.isOpen then .ok () else .error .closed := by
  unfold startStreaming
  cases hopen : (s.stopStreaming channel).2.bus.isOpen with
  | false => simp [Bus.subscribe_of_closed hopen]
  | true => simp [Bus.subscribe_of_open hopen]

theorem Rested.part_startStreaming (h : s.Rested outputs) (channel : String) (sink : Nat) :
    (s.startStreaming channel sink).2.part p outputs =
      if p channel then ((s.part p outputs).startStreaming channel (place p outputs sink)).2
      else s.part p outputs := by
  rw [startStreaming_eq, startStreaming_eq, (h.stopStreaming channel).part_launch,
    h.part_stopStreaming]
  split <;> rfl

theorem Rested.startStreaming_part (h : s.Rested outputs) (hp : p c = true) (sink sink' : Nat) :
    ((s.part p outputs).startStreaming c sink').1 = (s.startStreaming c sink).1 := by
  have hstopped := h.part_stopStreaming (p := p) c
  rw [hp, if_pos rfl] at hstopped
  rw [startStreaming_result, startStreaming_result, ← hstopped]
  rfl

/-! ## Steps -/

/-- The channel that a step is about. -/
def Step.channel? (outputs : List String) (s : Session) : Step → Option String
  | .subscribe channel | .spawn channel _ _ => some channel
  | .startStreaming channel _ | .stopStreaming channel => some channel
  | .next id | .unsubscribe id | .drop id | .adopt id _ _ => s.bus.subscribed[id]?
  | .stop i | .abort i | .abandon i => s.streams[i]?
  | .dropSink sink => outputs[sink]?
  | .dispatch frame | .send frame => frame.channel?
  | .failAll _ | .clear | .closeOutbound | .stopAll | .dropManager | .sleep _ | .settle => none

/-- The channel that a step opens a sink for. -/
def Step.opens? (s : Session) : Step → Option String
  | .spawn channel _ _ => if s.bus.isOpen then some channel else none
  | .adopt id _ _ => s.bus.subscribed[id]?
  | .startStreaming channel _ => some channel
  | _ => none

/-- The chart after a step. -/
def Step.chart (outputs : List String) (s : Session) (step : Step) : List String :=
  match step.opens? s with
  | some channel => outputs ++ [channel]
  | none => outputs

/-- The same step in a part of a session. -/
def Step.inPart (p : String → Bool) (outputs : List String) (s : Session) : Step → Step
  | .next id => .next (place p s.bus.subscribed id)
  | .unsubscribe id => .unsubscribe (place p s.bus.subscribed id)
  | .drop id => .drop (place p s.bus.subscribed id)
  | .adopt id timeout breaksOn => .adopt (place p s.bus.subscribed id) timeout breaksOn
  | .stop i => .stop (place p s.streams i)
  | .abort i => .abort (place p s.streams i)
  | .abandon i => .abandon (place p s.streams i)
  | .dropSink sink => .dropSink (place p outputs sink)
  | step => step

/-- The same answer in a part of a session. -/
def Reply.inPart (p : String → Bool) (outputs : List String) (s : Session) : Reply → Reply
  | .subscribed id => .subscribed (place p s.bus.subscribed id)
  | .spawned i sink => .spawned (place p s.streams i) (place p outputs sink)
  | .streaming sink result => .streaming (place p outputs sink) result
  | reply => reply

theorem Offered.subscribed {id : Nat} (h : s.Offered id) : ∃ c, s.bus.subscribed[id]? = some c := by
  obtain ⟨-, channel, items, hheld⟩ := h
  exact ⟨_, List.getElem?_eq_getElem (Bus.length_subscribed s.bus ▸ hheld.lt_length)⟩

theorem perform_subscribe_of_closed (hclosed : s.bus.isOpen = false) (channel : String) :
    s.perform (.subscribe channel) = (.failed .closed, s) := by
  simp only [perform, Bus.subscribe_of_closed hclosed, useBus_self]

theorem perform_subscribe_of_open (hopen : s.bus.isOpen = true) (channel : String) :
    s.perform (.subscribe channel) =
      (.subscribed s.bus.mailboxes.length, s.useBus (s.bus.subscribe channel).2) := by
  simp only [perform, Bus.subscribe_of_open hopen]

theorem perform_spawn_of_closed (hclosed : s.bus.isOpen = false) (channel : String)
    (timeout : Nat) (breaksOn : Option String) :
    s.perform (.spawn channel timeout breaksOn) = (.failed .closed, s) := by
  simp only [perform, Bus.subscribe_of_closed hclosed, useBus_self]

theorem perform_spawn_of_open (hopen : s.bus.isOpen = true) (channel : String)
    (timeout : Nat) (breaksOn : Option String) :
    s.perform (.spawn channel timeout breaksOn) =
      (s.useBus (s.bus.subscribe channel).2).adopt s.bus.mailboxes.length timeout breaksOn := by
  simp only [perform, Bus.subscribe_of_open hopen]

theorem Charted.signals (h : s.Charted outputs) (entries : List (String × Nat)) (x : Signal) :
    (entries.foldl (fun s entry => s.signal entry.2 x) s).Charted outputs := by
  induction entries generalizing s with
  | nil => exact h
  | cons entry entries ih => exact ih (h.signal entry.2 x)

theorem Rested.unmanaged (h : s.Rested outputs) : Charted outputs { s with managed := [] } :=
  h.charted.of_same rfl rfl rfl (List.nil_subset _)

theorem Rested.later (h : s.Rested outputs) (duration : Nat) :
    Charted outputs { s with clock := s.clock + duration } :=
  h.charted.of_same rfl rfl rfl (List.Subset.refl _)

theorem Rested.sleep_eq (h : s.Rested outputs) (duration : Nat) :
    s.sleep duration = ({ s with clock := s.clock + duration } : Session).settle := by
  unfold sleep
  rw [h.settle_eq]

theorem Rested.charted_perform (h : s.Rested outputs) {step : Step} (hstep : step.Permitted s) :
    (s.perform step).2.Charted (step.chart outputs s) := by
  have hcall (op : Bus.Operation) : (s.useBus (s.bus.perform op)).Charted outputs :=
    h.charted.useBus h.sound (s.bus.subscribed_grows op)
  cases step with
  | subscribe channel =>
      cases hopen : s.bus.isOpen with
      | false =>
          rw [perform_subscribe_of_closed hopen]
          exact h.charted
      | true =>
          rw [perform_subscribe_of_open hopen]
          exact hcall (.subscribe channel)
  | next id => exact hcall (.next id)
  | unsubscribe id => exact hcall (.unsubscribe id)
  | drop id => exact hcall (.drop id)
  | dispatch frame => exact hcall (.dispatch frame)
  | send frame => exact hcall (.send frame)
  | failAll failure => exact hcall (.failAll failure)
  | clear => exact hcall .clear
  | closeOutbound => exact hcall .closeOutbound
  | spawn channel timeout breaksOn =>
      cases hopen : s.bus.isOpen with
      | false =>
          rw [perform_spawn_of_closed hopen, Step.chart, Step.opens?, hopen]
          exact h.charted
      | true =>
          have hsound : (s.useBus (s.bus.subscribe channel).2).Sound := by
            have hmoves : s.AllPermitted [.bus (.subscribe channel)] := ⟨trivial, trivial⟩
            exact h.sound.go hmoves
          rw [perform_spawn_of_open hopen, Step.chart, Step.opens?, hopen]
          exact (hcall (.subscribe channel)).adopt hsound (subscribed_new hopen channel) _ _
  | adopt id timeout breaksOn =>
      obtain ⟨c, hc⟩ := hstep.subscribed
      rw [Step.chart, Step.opens?, hc]
      exact h.charted.adopt h.sound hc timeout breaksOn
  | stop i => exact (h.stop i).charted
  | abort i => exact h.charted.signal i .abort
  | abandon i => exact h.charted.signal i .stop
  | startStreaming channel breaksOn =>
      have hsink : (outputs ++ [channel])[s.sinks.length]? = some channel := by
        rw [h.charted.length, List.getElem?_concat_length]
      have hlaunched := ((h.openSink breaksOn channel).stopStreaming channel).charted_launch hsink
      rw [← startStreaming_eq] at hlaunched
      exact hlaunched
  | stopStreaming channel => exact (h.stopStreaming channel).charted
  | stopAll => exact (h.stopEach s.active).charted
  | dropManager => exact h.unmanaged.signals s.managed .abort
  | dropSink sink =>
      exact h.charted.of_same (List.length_modify _ _ _) rfl rfl (List.Subset.refl _)
  | sleep duration =>
      change (s.sleep duration).Charted outputs
      rw [h.sleep_eq]
      exact (h.later duration).settle
  | settle => exact h.charted.settle

theorem Rested.part_subscribe (h : s.Rested outputs) (channel : String) :
    (s.perform (.subscribe channel)).2.part p outputs =
      if p channel then ((s.part p outputs).perform (.subscribe channel)).2
      else s.part p outputs := by
  cases hopen : s.bus.isOpen with
  | false =>
      have hopen' : (s.part p outputs).bus.isOpen = false := hopen
      rw [perform_subscribe_of_closed hopen, perform_subscribe_of_closed hopen', ite_self]
  | true =>
      have hopen' : (s.part p outputs).bus.isOpen = true := hopen
      rw [perform_subscribe_of_open hopen, perform_subscribe_of_open hopen']
      exact h.charted.part_subscribed h.sound channel

theorem subscribe_part (s : Session) (channel : String) :
    ((s.part p outputs).perform (.subscribe channel)).1 =
      (s.perform (.subscribe channel)).1.inPart p outputs s := by
  cases hopen : s.bus.isOpen with
  | false =>
      have hopen' : (s.part p outputs).bus.isOpen = false := hopen
      rw [perform_subscribe_of_closed hopen, perform_subscribe_of_closed hopen']
      rfl
  | true =>
      have hopen' : (s.part p outputs).bus.isOpen = true := hopen
      have hnumber : (s.part p outputs).bus.mailboxes.length =
          place p s.bus.subscribed s.bus.mailboxes.length := by
        rw [s.bus.length_subscribed, place_length]
        exact Bus.length_mailboxes_part p s.bus
      rw [perform_subscribe_of_open hopen, perform_subscribe_of_open hopen', hnumber]
      rfl

theorem Rested.part_spawned (h : s.Rested outputs) (channel : String) (timeout : Nat)
    (breaksOn : Option String) :
    (s.perform (.spawn channel timeout breaksOn)).2.part p
        (Step.chart outputs s (.spawn channel timeout breaksOn)) =
      if p channel then ((s.part p outputs).perform (.spawn channel timeout breaksOn)).2
      else s.part p outputs := by
  cases hopen : s.bus.isOpen with
  | false =>
      have hopen' : (s.part p outputs).bus.isOpen = false := hopen
      rw [perform_spawn_of_closed hopen, perform_spawn_of_closed hopen', ite_self, Step.chart,
        Step.opens?, hopen]
      rfl
  | true =>
      have hopen' : (s.part p outputs).bus.isOpen = true := hopen
      have hsound : (s.useBus (s.bus.subscribe channel).2).Sound := by
        have hmoves : s.AllPermitted [.bus (.subscribe channel)] := ⟨trivial, trivial⟩
        exact h.sound.go hmoves
      have hcharted : (s.useBus (s.bus.subscribe channel).2).Charted outputs :=
        h.charted.useBus h.sound (s.bus.subscribed_grows (.subscribe channel))
      have hadopted := hcharted.part_adopt (p := p) hsound (subscribed_new hopen channel)
        (h.ready_useBus _) timeout breaksOn
      rw [place_new hopen, h.charted.part_subscribed h.sound] at hadopted
      rw [perform_spawn_of_open hopen, perform_spawn_of_open hopen', Step.chart, Step.opens?, hopen]
      refine hadopted.trans ?_
      split <;> rfl

theorem Rested.spawned_part (h : s.Rested outputs) (channel : String) (timeout : Nat)
    (breaksOn : Option String) :
    ((s.part p outputs).perform (.spawn channel timeout breaksOn)).1 =
      (s.perform (.spawn channel timeout breaksOn)).1.inPart p outputs s := by
  cases hopen : s.bus.isOpen with
  | false =>
      have hopen' : (s.part p outputs).bus.isOpen = false := hopen
      rw [perform_spawn_of_closed hopen, perform_spawn_of_closed hopen']
      rfl
  | true =>
      have hopen' : (s.part p outputs).bus.isOpen = true := hopen
      rw [perform_spawn_of_open hopen, perform_spawn_of_open hopen']
      exact h.charted.adopt_part 0 timeout breaksOn

/-- A step about a channel of the part, or about all channels, does the same in
the part, and one about any other channel leaves the part as it is. -/
theorem Rested.part_perform (h : s.Rested outputs) {step : Step} (hstep : step.Permitted s) :
    (s.perform step).2.part p (step.chart outputs s) =
      if (step.channel? outputs s).all p then
        ((s.part p outputs).perform (step.inPart p outputs s)).2
      else s.part p outputs := by
  have hcall := h.charted.part_call (p := p) h.sound
  cases step with
  | subscribe channel => exact h.part_subscribe channel
  | next id => exact hcall (.next id)
  | unsubscribe id => exact hcall (.unsubscribe id)
  | drop id => exact hcall (.drop id)
  | dispatch frame => exact hcall (.dispatch frame)
  | send frame => exact hcall (.send frame)
  | failAll failure => exact hcall (.failAll failure)
  | clear => exact hcall .clear
  | closeOutbound => exact hcall .closeOutbound
  | spawn channel timeout breaksOn => exact h.part_spawned channel timeout breaksOn
  | adopt id timeout breaksOn =>
      obtain ⟨c, hc⟩ := hstep.subscribed
      have hready : ∀ i ∈ s.ready, i < s.tasks.length := by simp [h.unready]
      rw [Step.chart, Step.opens?, Step.channel?, hc]
      exact h.charted.part_adopt h.sound hc hready timeout breaksOn
  | stop i => exact h.part_stop i
  | abort i => exact part_signal s i .abort
  | abandon i => exact part_signal s i .stop
  | startStreaming channel breaksOn =>
      have hopened := h.openSink breaksOn channel
      have hstarted := hopened.part_startStreaming (p := p) channel s.sinks.length
      have hsink : place p (outputs ++ [channel]) s.sinks.length =
          (s.part p outputs).sinks.length := by
        rw [h.charted.length_sinks_part, h.charted.length, place_append (Nat.le_refl _)]
      rw [h.charted.part_openSink h.sound, hsink] at hstarted
      refine hstarted.trans ?_
      change (if p channel = true then _ else _) = if p channel = true then _ else _
      split <;> rfl
  | stopStreaming channel => exact h.part_stopStreaming channel
  | stopAll =>
      have hstopped := h.part_stopEach (p := p) s.active
      rw [← active_part] at hstopped
      exact hstopped
  | dropManager =>
      let unmanaged : Session := { s with managed := [] }
      have hlisted : ∀ entry ∈ s.managed, unmanaged.streams[entry.2]? = some entry.1 :=
        h.charted.listed
      exact part_signals hlisted .abort
  | dropSink sink =>
      change Session.part p outputs { s with sinks := _ } = if stays p outputs sink then _ else _
      cases hsink : stays p outputs sink with
      | true =>
          rw [part]
          simp only [Channel.keep_modify _ hsink]
          rfl
      | false =>
          rw [part]
          simp only [Channel.keep_modify_of_leaves _ hsink]
          rfl
  | sleep duration =>
      have hsound : Sound { s with clock := s.clock + duration } := by
        have hmoves : s.AllPermitted [.advance duration] := ⟨trivial, trivial⟩
        exact h.sound.go hmoves
      change (s.sleep duration).part p outputs = (s.part p outputs).sleep duration
      rw [h.sleep_eq, (h.later duration).part_settle hsound, sleep, h.settle_part]
      rfl
  | settle => exact h.charted.part_settle h.sound

theorem Rested.perform_part (h : s.Rested outputs) {step : Step}
    (hp : (step.channel? outputs s).all p = true) :
    ((s.part p outputs).perform (step.inPart p outputs s)).1 =
      (s.perform step).1.inPart p outputs s := by
  cases step with
  | subscribe channel => exact subscribe_part s channel
  | next id => exact congrArg Reply.reading (Bus.reading_part h.sound.bus hp)
  | send frame =>
      change Reply.ofSent ((s.bus.part p).send frame).1 = _
      rw [Bus.send_part]
      change _ = (Reply.ofSent (s.bus.send frame).1).inPart p outputs s
      cases (s.bus.send frame).1 <;> rfl
  | spawn channel timeout breaksOn => exact h.spawned_part channel timeout breaksOn
  | adopt id timeout breaksOn => exact h.charted.adopt_part _ timeout breaksOn
  | stop i =>
      exact congrArg (fun ending => Reply.ended (ending.getD .finished)) (h.stop_part hp)
  | startStreaming channel breaksOn =>
      have hchannel : p channel = true := hp
      have hopened := h.openSink breaksOn channel
      have hstarted := hopened.startStreaming_part hchannel s.sinks.length
        (s.part p outputs).sinks.length
      rw [h.charted.part_openSink h.sound, if_pos hchannel] at hstarted
      refine (congrArg (Reply.streaming _) hstarted).trans ?_
      exact congrArg (fun sink => Reply.streaming sink _) h.charted.length_sinks_part
  | stopStreaming channel => exact congrArg Reply.ended (h.stopStreaming_part hp)
  | _ => rfl

end Session

end DevMachine

import DevMachine.Proofs.Session.PartSteps

/-!
# What the manager lists

The manager lists each of its streams once, under the channel that the stream
was started for.  Streams never change their channel and never go away, so the
list stays right whatever else happens to the session.
-/

namespace DevMachine

open Channel (Bus getElem?_of_isPrefix)

namespace Session

/-- No channel is listed twice, and the stream listed with it is a stream of the
channel. -/
structure Booked (s : Session) : Prop where
  once : (s.managed.map (·.1)).Nodup
  listed : ∀ entry ∈ s.managed, s.streams[entry.2]? = some entry.1

variable {s s' : Session} {c d : String} {i j : Nat}

namespace Booked

theorem of_sublist (h : s.Booked) (hmanaged : s'.managed.Sublist s.managed)
    (hstreams : s.streams <+: s'.streams) : s'.Booked where
  once := h.once.sublist (hmanaged.map _)
  listed := by
    intro entry hentry
    have hold := h.listed entry (hmanaged.subset hentry)
    rw [getElem?_of_isPrefix hstreams (List.getElem?_eq_some_iff.mp hold).1, hold]

theorem mem_managed_of_managed? (hlisted : s.managed? c = some i) : (c, i) ∈ s.managed := by
  obtain ⟨⟨key, value⟩, hfind, rfl⟩ := Option.map_eq_some_iff.mp hlisted
  obtain rfl : key = c := by simpa using List.find?_some hfind
  exact List.mem_of_find?_eq_some hfind

theorem stream (h : s.Booked) (hlisted : s.managed? c = some i) : s.streams[i]? = some c :=
  h.listed _ (mem_managed_of_managed? hlisted)

theorem ne (h : s.Booked) (hc : s.managed? c = some i) (hd : s.managed? d = some j)
    (hcd : d ≠ c) : j ≠ i := by
  rintro rfl
  exact hcd (Option.some.inj ((h.stream hd).symm.trans (h.stream hc)))

end Booked

theorem streams_move (hs : s.Sound) {m : Move} (hm : m.Permitted s) :
    s.streams <+: (s.move m).streams := by
  cases m with
  | bus op =>
      have hsame := streams_useBus hs (s.bus.subscribed_grows op)
      exact hsame ▸ List.prefix_refl _
  | spawn subscription sink timeout =>
      obtain ⟨channel, hchannel⟩ := Offered.subscribed hm.1
      have hspawned := streams_spawn hchannel sink timeout
      exact ⟨[channel], hspawned.symm⟩
  | signal i x => exact streams_signal s i x ▸ List.prefix_refl _
  | settle => exact streams_settle s ▸ List.prefix_refl _
  | _ => exact List.prefix_refl _

theorem streams_go (hs : s.Sound) {moves : List Move} (hmoves : s.AllPermitted moves) :
    s.streams <+: (s.go moves).streams := by
  induction moves generalizing s with
  | nil => exact List.prefix_refl _
  | cons m moves ih => exact (streams_move hs hmoves.1).trans (ih (hs.move hmoves.1) hmoves.2)

theorem managed_settle (s : Session) : s.settle.managed = s.managed :=
  settle_induction (fun s' => s'.managed = s.managed) rfl
    fun s' i h => (managed_poll s' i).trans h

theorem managed_stop (s : Session) (i : Nat) : (s.stop i).2.managed = s.managed := by
  unfold stop
  split
  · exact managed_settle _
  · rfl

/-- A channel that is not listed need not be taken off the list. -/
theorem unmanage_of_none (hfree : s.managed? c = none) : s.unmanage c = s := by
  have hnone := List.find?_eq_none.mp (Option.map_eq_none_iff.mp hfree)
  have hsame : s.managed.filter (·.1 ≠ c) = s.managed := by
    rw [List.filter_eq_self]
    intro entry hentry
    simpa using hnone entry hentry
  rw [unmanage, hsame]

theorem managed_stopStreaming (s : Session) (channel : String) :
    (s.stopStreaming channel).2.managed = (s.unmanage channel).managed := by
  unfold stopStreaming
  cases hlisted : s.managed? channel with
  | some i => exact managed_stop (s.unmanage channel) i
  | none => exact congrArg managed (unmanage_of_none hlisted).symm

theorem managed_stopEach (s : Session) (channels : List String) :
    (s.stopEach channels).managed = s.managed.filter (·.1 ∉ channels) := by
  induction channels generalizing s with
  | nil => simp [stopEach]
  | cons channel channels ih =>
      change ((s.stopStreaming channel).2.stopEach channels).managed = _
      rw [ih, managed_stopStreaming]
      change (s.managed.filter _).filter _ = _
      rw [List.filter_filter]
      apply List.filter_congr
      intro entry _
      by_cases hentry : entry.1 = channel <;> simp [hentry]

theorem managed_dropManager (s : Session) : s.dropManager.managed = [] := by
  have hsignals (entries : List (String × Nat)) (s : Session) :
      (entries.foldl (fun s entry => s.signal entry.2 .abort) s).managed = s.managed := by
    induction entries generalizing s with
    | nil => rfl
    | cons entry entries ih => exact ih (s.signal entry.2 .abort)
  exact hsignals s.managed _

theorem managed_perform (s : Session) {st : Step}
    (hst : ∀ channel breaksOn, st ≠ .startStreaming channel breaksOn) :
    (s.perform st).2.managed.Sublist s.managed := by
  cases st with
  | subscribe channel =>
      simp only [perform]
      split <;> exact .refl _
  | spawn channel timeout breaksOn =>
      simp only [perform]
      split <;> exact .refl _
  | stop i => exact managed_stop s i ▸ .refl _
  | startStreaming channel breaksOn => exact absurd rfl (hst channel breaksOn)
  | stopStreaming channel => exact managed_stopStreaming s channel ▸ List.filter_sublist
  | stopAll => exact managed_stopEach s s.active ▸ List.filter_sublist
  | dropManager => exact managed_dropManager s ▸ List.nil_sublist _
  | sleep duration =>
      have hslept : (s.sleep duration).managed = s.settle.managed := managed_settle _
      exact (hslept.trans (managed_settle s)) ▸ .refl _
  | settle => exact managed_settle s ▸ .refl _
  | _ => exact .refl _

theorem Booked.settle (h : s.Booked) : s.settle.Booked where
  once := managed_settle s ▸ h.once
  listed := managed_settle s ▸ streams_settle s ▸ h.listed

theorem Booked.launch (h : s.Booked) (hs : s.Sound) (hfree : c ∉ s.managed.map (·.1))
    (sink : Nat) : (s.launch c sink).Booked := by
  cases hopen : s.bus.isOpen with
  | false => rwa [launch_of_closed hopen]
  | true =>
      have hgrown : s.bus.subscribed <+: (s.bus.subscribe c).2.subscribed :=
        s.bus.subscribed_grows (.subscribe c)
      have hstreams := streams_spawn (subscribed_new hopen c) sink Logs.flushTimeout
      rw [streams_useBus hs hgrown] at hstreams
      have hlaunched : (s.launch c sink).streams = s.streams ++ [c] := by
        rw [launch_of_isOpen hopen]
        exact hstreams
      have hmanaged : (s.launch c sink).managed = (c, s.tasks.length) :: s.managed := by
        rw [launch_of_isOpen hopen]
      constructor
      · rw [hmanaged]
        exact List.nodup_cons.mpr ⟨hfree, h.once⟩
      · intro entry hentry
        rw [hmanaged] at hentry
        rw [hlaunched]
        rcases List.mem_cons.mp hentry with rfl | hold
        · rw [length_streams, List.getElem?_concat_length]
        · have hstream := h.listed entry hold
          have hlt := (List.getElem?_eq_some_iff.mp hstream).1
          rw [List.getElem?_append_left hlt, hstream]

theorem Booked.perform (h : s.Booked) (hs : s.Sound) {st : Step} (hst : st.Permitted s) :
    (s.perform st).2.Booked := by
  have hmoves := hs.allPermitted_performMoves hst
  have hstreams := streams_go hs hmoves
  rw [go_performMoves] at hstreams
  cases st with
  | startStreaming channel breaksOn =>
      have hopened : (s.openSink breaksOn).2.Sound := by
        have hopens : s.AllPermitted [.openSink breaksOn] := ⟨trivial, trivial⟩
        exact hs.go hopens
      have hbooked : (s.openSink breaksOn).2.Booked := ⟨h.once, h.listed⟩
      have hstops : (s.openSink breaksOn).2.AllPermitted
          ((s.openSink breaksOn).2.stopStreamingMoves channel) :=
        allPermitted_of_forall
          (fun m hm s' => (stops_of_mem_stopStreamingMoves hm).permitted s') _
      have hsound := hopened.go hstops
      have hgrown := streams_go hopened hstops
      rw [go_stopStreamingMoves] at hsound hgrown
      have hmanaged := managed_stopStreaming (s.openSink breaksOn).2 channel
      have hstopped := hbooked.of_sublist (hmanaged ▸ List.filter_sublist) hgrown
      have hstarted := startStreaming_eq (s.openSink breaksOn).2 channel s.sinks.length
      change ((s.openSink breaksOn).2.startStreaming channel s.sinks.length).2.Booked
      rw [hstarted]
      apply hstopped.launch hsound
      rw [hmanaged]
      simp [unmanage]
  | _ => exact h.of_sublist (managed_perform s fun _ _ h => by cases h) hstreams

theorem Booked.run (h : s.Booked) (hs : s.Sound) {steps : List (Bool × Step)}
    (hsteps : s.Permitted steps) : (s.run steps).Booked := by
  induction steps generalizing s with
  | nil => exact h
  | cons entry steps ih =>
      obtain ⟨queued, st⟩ := entry
      have hperformed := h.perform hs hsteps.1
      have hsound : (s.perform st).2.Sound := by
        rw [← go_performMoves]
        exact hs.go (hs.allPermitted_performMoves hsteps.1)
      have hstep : (s.step queued st).2.Booked ∧ (s.step queued st).2.Sound := by
        cases queued with
        | true => exact ⟨hperformed, hsound⟩
        | false =>
            exact ⟨hperformed.settle, hsound.settle⟩
      exact ih hstep.1 hstep.2 hsteps.2

theorem booked_initial (stamp : Int64) : Booked { bus := { stamp } } := ⟨List.nodup_nil, by simp⟩

end Session

end DevMachine

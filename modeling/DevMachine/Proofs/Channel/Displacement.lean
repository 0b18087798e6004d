import DevMachine.Proofs.Channel.Parts

/-!
# Displaced subscriptions

A subscription that lost its channel to a later one never gets it back, so what
is done with its handle concerns nobody who owns a channel.  Giving the channel
up is told to the endpoint all the same once nobody owns it: the handle does not
show that somebody else gave it up, or lost it, in the meantime.
-/

namespace DevMachine.Channel.Bus

variable {b : Bus} {channel : String} {id : Nat}

/-- A subscription to a channel that owns it no more. -/
structure Displaced (b : Bus) (channel : String) (id : Nat) : Prop where
  made : b.subscribed[id]? = some channel
  disowned : b.owns id = false

theorem subscribed_of_subscribe (hmade : (b.subscribe channel).1 = .ok id) :
    (b.subscribe channel).2.subscribed[id]? = some channel := by
  obtain ⟨hopen, rfl⟩ := open_of_subscribe hmade
  rw [subscribed_subscribe_of_open hopen, length_subscribed, List.getElem?_concat_length]

theorem subscribed_perform (hmade : b.subscribed[id]? = some channel) (op : Operation) :
    (b.perform op).subscribed[id]? = some channel := by
  have hlt : id < b.subscribed.length := (List.getElem?_eq_some_iff.mp hmade).1
  rw [getElem?_of_isPrefix (b.subscribed_grows op) hlt, hmade]

theorem subscribed_run (hmade : b.subscribed[id]? = some channel) (ops : List Operation) :
    (b.run ops).subscribed[id]? = some channel := by
  induction ops generalizing b with
  | nil => exact hmade
  | cons op ops ih => exact ih (subscribed_perform hmade op)

theorem lt_length_of_subscribed (hmade : b.subscribed[id]? = some channel) :
    id < b.mailboxes.length := by
  rw [length_subscribed]
  exact (List.getElem?_eq_some_iff.mp hmade).1

theorem displaced_of_subscribe (hb : b.WellFormed) (hmade : b.subscribed[id]? = some channel)
    {later : Nat} (hlater : (b.subscribe channel).1 = .ok later) :
    (b.subscribe channel).2.Displaced channel id := by
  obtain ⟨hopen, rfl⟩ := open_of_subscribe hlater
  have hmade' : (b.subscribe channel).2.subscribed[id]? = some channel :=
    subscribed_perform hmade (.subscribe channel)
  refine ⟨hmade', ?_⟩
  rw [getElem?_subscribed, Option.map_eq_some_iff] at hmade'
  obtain ⟨box, hbox, hchannel⟩ := hmade'
  rw [Bool.eq_false_iff, Ne, owns_iff (hb.subscribe channel) hbox, hchannel,
    owner?_subscribe hopen, if_pos rfl, Option.some.injEq]
  exact Nat.ne_of_gt (lt_length_of_subscribed hmade)

theorem Displaced.perform (h : b.Displaced channel id) (op : Operation) :
    (b.perform op).Displaced channel id where
  made := subscribed_perform h.made op
  disowned := owns_perform_of_not_owns (lt_length_of_subscribed h.made) h.disowned op

theorem Displaced.run (h : b.Displaced channel id) (ops : List Operation) :
    (b.run ops).Displaced channel id := by
  induction ops generalizing b with
  | nil => exact h
  | cons op ops ih => exact ih (h.perform op)

theorem Displaced.owner?_ne (h : b.Displaced channel id) : b.owner? channel ≠ some id := by
  intro howner
  obtain ⟨entry, hfind, rfl⟩ := Option.map_eq_some_iff.mp howner
  have howns : b.owns entry.2 = true :=
    owns_eq_true_iff.mpr ⟨entry.1, List.mem_of_find?_eq_some hfind⟩
  rw [h.disowned] at howns
  cases howns

theorem unsubscribe_of_subscribed (hmade : b.subscribed[id]? = some channel) :
    b.unsubscribe id = b.release channel id := by
  rw [getElem?_subscribed, Option.map_eq_some_iff] at hmade
  obtain ⟨box, hbox, rfl⟩ := hmade
  simp [unsubscribe, hbox]

theorem Displaced.unsubscribe_of_owned (h : b.Displaced channel id)
    (howned : channel ∈ b.channels) : b.unsubscribe id = b := by
  rw [mem_channels_iff] at howned
  obtain ⟨owner, howner⟩ := Option.isSome_iff_exists.mp howned
  have hne : owner ≠ id := by
    rintro rfl
    exact h.owner?_ne howner
  rw [unsubscribe_of_subscribed h.made, release, howner]
  exact if_neg hne

theorem Displaced.unsubscribe_of_unowned (h : b.Displaced channel id)
    (hunowned : channel ∉ b.channels) :
    b.unsubscribe id = (b.send (.unsubscribe channel b.stamp)).2 := by
  rw [mem_channels_iff, Option.not_isSome_iff_eq_none] at hunowned
  rw [unsubscribe_of_subscribed h.made, release, hunowned]

theorem send_of_open (hopen : b.isOpen = true) (frame : Frame) :
    (b.send frame).2 = { b with outbound := b.outbound ++ [frame] } := by
  simp [send, hopen]

theorem send_of_closed (hclosed : b.isOpen = false) (frame : Frame) : (b.send frame).2 = b := by
  simp [send, hclosed]

/-- Whatever happened since a subscription lost its channel to a later one, giving
the channel up leaves the table of owners as it is, and nothing at all changes
as long as the channel has an owner or the outbound side is closed.  Otherwise
the endpoint is told once that the channel is given up. -/
theorem displaced_gives_up_in_vain (stamp : Int64) (before between after : List Operation)
    (channel : String) (old new : Nat)
    (hold : ((run { stamp } before).subscribe channel).1 = .ok old)
    (hnew : ((run { stamp } (before ++ .subscribe channel :: between)).subscribe channel).1 =
      .ok new) :
    let b := run { stamp }
      (before ++ .subscribe channel :: between ++ .subscribe channel :: after)
    (b.unsubscribe old).owners = b.owners ∧
      (b.unsubscribe old = b ↔ channel ∈ b.channels ∨ b.isOpen = false) ∧
      (channel ∉ b.channels → b.isOpen = true →
        b.unsubscribe old =
          { b with outbound := b.outbound ++ [.unsubscribe channel b.stamp] }) := by
  intro b
  have hmade : (run { stamp } (before ++ .subscribe channel :: between)).subscribed[old]? =
      some channel := by
    rw [run_append]
    exact subscribed_run (subscribed_of_subscribe hold) between
  have hdisplaced : b.Displaced channel old := by
    have hwellFormed := (wellFormed_initial stamp).run (before ++ .subscribe channel :: between)
    simp only [b, run_append _ (before ++ _)]
    exact (displaced_of_subscribe hwellFormed hmade hnew).run after
  by_cases howned : channel ∈ b.channels
  · have hsame := hdisplaced.unsubscribe_of_owned howned
    exact ⟨by rw [hsame], iff_of_true hsame (.inl howned), fun hunowned => absurd howned hunowned⟩
  · have hsent := hdisplaced.unsubscribe_of_unowned howned
    rcases Bool.eq_false_or_eq_true b.isOpen with hopen | hclosed
    · rw [send_of_open hopen] at hsent
      have hchanged : b.unsubscribe old ≠ b := by
        intro hsame
        have hlength := congrArg (fun b => b.outbound.length) (hsent.symm.trans hsame)
        simp at hlength
      have hnot : ¬(channel ∈ b.channels ∨ b.isOpen = false) := by simp [howned, hopen]
      exact ⟨by rw [hsent], iff_of_false hchanged hnot, fun _ _ => hsent⟩
    · rw [send_of_closed hclosed] at hsent
      refine ⟨by rw [hsent], iff_of_true hsent (.inr hclosed), ?_⟩
      intro _ hopen
      rw [hclosed] at hopen
      cases hopen

/-- The old handle is used while the channel is lost, and again once somebody has
subscribed to it anew. -/
theorem displaced_gives_up_in_vain_past_lost_reader :
    let before : List Operation := [.subscribe "status", .unsubscribe 0]
    let between : List Operation := [.dispatch (.event "logs" .null), .failAll .closed]
    let lost : List Operation := [.subscribe "logs", .drop 3, .dispatch (.event "logs" .null)]
    let regained : List Operation := lost ++ [.unsubscribe 1, .subscribe "logs", .unsubscribe 2]
    let old := before ++ .subscribe "logs" :: between ++ .subscribe "logs" :: lost
    let new := before ++ .subscribe "logs" :: between ++ .subscribe "logs" :: regained
    ((run {} before).subscribe "logs").1 = .ok 1 ∧
      ((run {} (before ++ .subscribe "logs" :: between)).subscribe "logs").1 = .ok 2 ∧
      ((run {} old).unsubscribe 1).outbound =
        (run {} old).outbound ++ [.unsubscribe "logs" 0] ∧
      (run {} new).unsubscribe 1 = run {} new := by
  intro before between lost regained old new
  have hold : ((run {} before).subscribe "logs").1 = .ok 1 := rfl
  have hnew : ((run {} (before ++ .subscribe "logs" :: between)).subscribe "logs").1 = .ok 2 := rfl
  obtain ⟨-, -, htold⟩ := displaced_gives_up_in_vain 0 before between lost "logs" 1 2 hold hnew
  obtain ⟨-, hsame, -⟩ := displaced_gives_up_in_vain 0 before between regained "logs" 1 2 hold hnew
  have hunowned : "logs" ∉ (run {} old).channels := by decide +kernel
  have howned : "logs" ∈ (run {} new).channels := by decide +kernel
  refine ⟨hold, hnew, ?_, hsame.mpr (.inl howned)⟩
  exact congrArg outbound (htold hunowned rfl)

/-- The later subscription has given the channel up, and the earlier one gives it
up once more. -/
theorem displaced_gives_up_unowned_channel_again :
    let b := run {} [.subscribe "out", .subscribe "out", .unsubscribe 1]
    ((run {} []).subscribe "out").1 = .ok 0 ∧
      ((run {} [.subscribe "out"]).subscribe "out").1 = .ok 1 ∧
      b.claims "out" = [.taken, .taken, .given] ∧
      (b.unsubscribe 0).claims "out" = [.taken, .taken, .given, .given] ∧
      (b.unsubscribe 0).outbound ≠ b.outbound := by
  intro b
  have hbefore : b.claims "out" = [.taken, .taken, .given] := by decide +kernel
  have hafter : (b.unsubscribe 0).claims "out" = [.taken, .taken, .given, .given] := by
    decide +kernel
  refine ⟨rfl, rfl, hbefore, hafter, ?_⟩
  intro hsame
  rw [claims, hsame, ← claims, hbefore] at hafter
  cases hafter

end DevMachine.Channel.Bus

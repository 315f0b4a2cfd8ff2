import ConferenceCall.Manager.Handlers

/-! What the short signal handlers return, change and call. Each of them decides on
the state it finds, makes at most one change and ends with at most one library
call, so each has an exact outcome. -/

namespace ConferenceCall

open Library

namespace Manager

/-- The room is marked as played. -/
def markRoom (m : Manager) : Manager := { m with sendPlay := m.sendPlay.insert m.roomId true }

/-- A stream is marked as played. -/
def markPlay (m : Manager) (trackId : String) : Manager :=
  { m with sendPlay := m.sendPlay.insert trackId true }

/-- A candidate, or nothing, is appended to those of a stream. -/
def buffer (m : Manager) (streamId : String) (cs : List Candidate) : Manager :=
  { m with
    pendingCandidates := m.pendingCandidates.insert streamId
      ((m.pendingCandidates.lookup streamId).getD [] ++ cs) }

/-- `subtrackAdded` leads to a play command. -/
def plays (m : Manager) (trackId : String) : Bool :=
  !trackId.isEmpty && trackId != m.publishStreamId && !m.hasLivePeer trackId && !m.playSent trackId

end Manager

variable {e : Env} {m : Manager} {streamId : String}

theorem startOffer_of_none (h : m.pcs.lookup streamId = none) :
    startOffer streamId e m = ⟨some (), m, []⟩ := by
  simp [startOffer, h]

theorem startOffer_of_some {pc : ℕ} (h : m.pcs.lookup streamId = some pc) :
    startOffer streamId e m = ⟨if e.throws .setLocalDescription then none else some (), m,
      [⟨.setLocalDescription pc .offer, !e.throws .setLocalDescription⟩]⟩ := by
  simp [startOffer, h, call_apply]

theorem startOffer_state (streamId : String) (e : Env) (m : Manager) :
    (startOffer streamId e m).state = m := by
  cases h : m.pcs.lookup streamId with
  | none => rw [startOffer_of_none h]
  | some pc => rw [startOffer_of_some h]

theorem addRemoteCandidate_of_empty {cand mid : String} (h : cand.isEmpty) :
    addRemoteCandidate streamId cand mid e m = ⟨some (), m, []⟩ := by
  simp [addRemoteCandidate, h]

/-- Without a connection the candidate is buffered; a malformed one leaves an entry. -/
theorem addRemoteCandidate_of_none {cand mid : String} (hc : cand.isEmpty = false)
    (h : m.pcs.lookup streamId = none) : addRemoteCandidate streamId cand mid e m =
      if e.throws .candidate then ⟨none, m.buffer streamId [], []⟩
      else ⟨some (), m.buffer streamId [⟨cand, mid⟩], []⟩ := by
  cases ht : e.throws .candidate with
  | true => simp [addRemoteCandidate, hc, h, check_apply, ht, Manager.buffer]
  | false =>
    have hi (l l' : List Candidate) : (m.pendingCandidates.insert streamId l).insert streamId l' =
        m.pendingCandidates.insert streamId l' := Finmap.insert_insert _
    simp [addRemoteCandidate, hc, h, check_apply, ht, Manager.buffer, hi]

/-- With a connection the candidate goes to it, described or not. -/
theorem addRemoteCandidate_of_some {cand mid : String} {pc : ℕ} (hc : cand.isEmpty = false)
    (h : m.pcs.lookup streamId = some pc) : addRemoteCandidate streamId cand mid e m =
      if e.throws .candidate then ⟨none, m, []⟩
      else ⟨if e.throws (.addRemoteCandidate 0) then none else some (), m,
        [⟨.addRemoteCandidate pc ⟨cand, mid⟩, !e.throws (.addRemoteCandidate 0)⟩]⟩ := by
  cases ht : e.throws .candidate <;>
    simp [addRemoteCandidate, hc, h, check_apply, call_apply, ht]

theorem addRemoteCandidate_state (streamId cand mid : String) (e : Env) (m : Manager) :
    ∃ pending, (addRemoteCandidate streamId cand mid e m).state =
      { m with pendingCandidates := pending } := by
  cases hc : cand.isEmpty with
  | true => exact ⟨_, by rw [addRemoteCandidate_of_empty hc]⟩
  | false =>
    cases h : m.pcs.lookup streamId with
    | none =>
      rw [addRemoteCandidate_of_none hc h]
      split_ifs <;> exact ⟨_, rfl⟩
    | some pc =>
      rw [addRemoteCandidate_of_some hc h]
      split_ifs <;> exact ⟨_, rfl⟩

theorem onJoinedRoomNotification_apply (e : Env) (m : Manager) : onJoinedRoomNotification e m =
    ⟨if m.sendFails e .sendPublish then none else some (), m,
      m.sent e .sendPublish fun c => c.sendPublish (!m.isOnlyPlayer) (!m.isOnlyPlayer)⟩ := by
  cases h : m.isOnlyPlayer <;> simp [onJoinedRoomNotification, h, send_apply]

theorem onPublishStartedNotification_of_some {b : Bool} (h : m.sendPlay.lookup m.roomId = some b) :
    onPublishStartedNotification e m = ⟨some (), m, []⟩ := by
  simp [onPublishStartedNotification, h]

theorem onPublishStartedNotification_of_none (h : m.sendPlay.lookup m.roomId = none) :
    onPublishStartedNotification e m =
      ⟨if m.sendFails e .sendPlayRoom then none else some (), m.markRoom,
        m.sent e .sendPlayRoom (·.sendPlayRoom)⟩ := by
  simp only [onPublishStartedNotification, Act.bind_apply, Act.gets_apply, h, Outcome.andThen_some,
    Act.modify_apply, send_apply, Outcome.after_nil]
  rfl

theorem onPlayStartedNotification_apply (streamId : String) (e : Env) (m : Manager) :
    onPlayStartedNotification streamId e m =
      ⟨some (), if streamId.isEmpty then m
        else { m with played := m.played.insert streamId true }, []⟩ := by
  cases h : streamId.isEmpty <;> simp [onPlayStartedNotification, h]

theorem onPlayFinishedNotification_of_empty (h : streamId.isEmpty) :
    onPlayFinishedNotification streamId e m = ⟨some (), m, []⟩ := by
  simp [onPlayFinishedNotification, h]

/-- The stream is removed; the room is played again when it is the room. -/
theorem onPlayFinishedNotification_of_room (h : streamId.isEmpty = false)
    (hr : streamId = m.roomId) : onPlayFinishedNotification streamId e m =
      ⟨if m.sendFails e .sendPlayRoom then none else some (), (m.withoutPeer streamId).markRoom,
        removalCalls e m streamId ++ m.sent e .sendPlayRoom (·.sendPlayRoom)⟩ := by
  have hr' : (streamId == (m.withoutPeer streamId).roomId) = true := by simp [Manager.withoutPeer, hr]
  simp only [onPlayFinishedNotification, h, Bool.not_false, if_true, Act.bind_apply,
    removePeerIfNotExist_apply, Outcome.andThen_some, Act.gets_apply, hr', Act.modify_apply,
    send_apply, Outcome.after_nil]
  rfl

theorem onPlayFinishedNotification_of_other (h : streamId.isEmpty = false)
    (hr : streamId ≠ m.roomId) : onPlayFinishedNotification streamId e m =
      ⟨some (), m.withoutPeer streamId, removalCalls e m streamId⟩ := by
  have hr' : streamId ≠ (m.withoutPeer streamId).roomId := hr
  simp [onPlayFinishedNotification, h, removePeerIfNotExist_apply, hr', Outcome.after]

theorem onSubtrackAddedNotification_of_plays {trackId : String} (h : m.plays trackId) :
    onSubtrackAddedNotification trackId e m =
      ⟨if m.sendFails e .sendPlayStream then none else some (), m.markPlay trackId,
        m.sent e .sendPlayStream (·.sendPlayStream trackId)⟩ := by
  simp only [Manager.plays, Bool.and_eq_true, Bool.not_eq_true'] at h
  obtain ⟨⟨hn, hl⟩, hp⟩ := h
  simp only [onSubtrackAddedNotification, Act.bind_apply, Act.gets_apply, Outcome.andThen_some,
    hn.1, hn.2, hl, hp, Bool.not_false, Bool.and_self, if_true, Bool.false_eq_true, if_false,
    Act.modify_apply, send_apply, Outcome.after_nil]
  rfl

theorem onSubtrackAddedNotification_of_not_plays {trackId : String} (h : m.plays trackId = false) :
    onSubtrackAddedNotification trackId e m = ⟨some (), m, []⟩ := by
  cases hn : !trackId.isEmpty && trackId != m.publishStreamId with
  | false => simp [onSubtrackAddedNotification, hn]
  | true =>
    rw [Manager.plays, hn] at h
    cases hl : m.hasLivePeer trackId with
    | true => simp [onSubtrackAddedNotification, hl]
    | false =>
      have hp : m.playSent trackId = true := by simpa [hl] using h
      simp [onSubtrackAddedNotification, hl, hp]

theorem onSubtrackRemovedNotification_apply (trackId : String) (e : Env) (m : Manager) :
    onSubtrackRemovedNotification trackId e m =
      ⟨some (), if trackId.isEmpty then m
        else { m with sendPlay := m.sendPlay.erase trackId }, []⟩ := by
  cases h : trackId.isEmpty <;> simp [onSubtrackRemovedNotification, h]

/-- The label of the command is the counter before it is advanced. -/
theorem onLocalCandidate_of_some {c : SignalingCommand} (h : m.signaling = some c)
    {cand mid : String} : onLocalCandidate streamId cand mid e m =
      ⟨if e.throws .sendTakeCandidate then none else some (),
        m.setSignaling { c with candLabel := c.nextLabel },
        [⟨.send (c.sendTakeCandidate streamId cand mid), !e.throws .sendTakeCandidate⟩]⟩ := by
  simp [onLocalCandidate, h, call_apply]

end ConferenceCall

import ConferenceCall.Manager.Run

/-! Foreign streams: neither the own stream nor the room. What a session registers for
one outside the maps a removal erases, it keeps: a stream once seen is seen ever after. -/

namespace ConferenceCall

open Library

/-- The trackers a removal leaves alone have no entry for a stream. -/
structure Manager.Unseen (m : Manager) (streamId : String) : Prop where
  isPublisher : m.isPublisher.lookup streamId = none
  remoteTracks : m.remoteTracks.lookup streamId = none
  pendingCandidates : m.pendingCandidates.lookup streamId = none
  isStreamTalking : m.isStreamTalking.lookup streamId = none

/-- A data channel with this label reaches its handler. -/
def Callback.opens (label : String) (cb : Callback) (m : Manager) : Prop :=
  ∃ pc id, cb = .dataChannel pc id label ∧ m.announces pc

variable {own room streamId : String} {e : Env} {m : Manager}

/-- A stream that is neither the own one nor the room. -/
structure Manager.Foreign (m : Manager) (streamId : String) : Prop where
  known : m.isPublisher.lookup streamId = none → m.pcs.lookup streamId = none
  localDataChannels : m.localDataChannels.lookup streamId = none
  nameless : streamId = "" → m.sendPlay.lookup "" = none ∧ m.played.lookup "" = none

theorem foreign_relinked (sig : Signal) (h : m.Foreign streamId) (e : Env) :
    ((m.relinked e sig).isPublisher.lookup streamId = none →
      m.isPublisher.lookup streamId = none ∧ (m.relinked e sig).pcs.lookup streamId = none) ∧
    (m.relinked e sig).localDataChannels.lookup streamId = none := by
  obtain ⟨hk, hl, -⟩ := h
  cases sig with
  | onRemoteSDP t type sdp =>
    simp only [Manager.relinked]
    split_ifs
    · exact ⟨fun hp => ⟨hp, hk hp⟩, hl⟩
    · cases hp : m.pcs.lookup t with
      | some pc =>
        rw [Manager.ensured_of_some hp]
        exact ⟨fun hp => ⟨hp, hk hp⟩, hl⟩
      | none =>
        rw [Manager.ensured_of_none hp]
        refine ⟨fun hnone => ?_, hl⟩
        simp only [Manager.withPeer, Dict.lookup_insert_eq] at hnone ⊢
        split_ifs at hnone ⊢ with hs
        exact ⟨hnone, hk hnone⟩
  | onPlayFinishedNotification t =>
    simp only [Manager.relinked]
    split_ifs
    · exact ⟨fun hp => ⟨hp, hk hp⟩, hl⟩
    · refine ⟨fun hp => ⟨hp, ?_⟩, ?_⟩
      · simp only [Manager.withoutPeer, Dict.lookup_erase_eq, hk hp, ite_self]
      · simp only [Manager.withoutPeer, Dict.lookup_erase_eq, hl, ite_self]
  | _ => exact ⟨fun hp => ⟨hp, hk hp⟩, hl⟩

/-- No signal marks the empty stream id unless it is the room. -/
theorem nameless_signal (sig : Signal) (e : Env) (hr : m.roomId ≠ "")
    (h : m.sendPlay.lookup "" = none ∧ m.played.lookup "" = none) :
    (onSignal sig e m).state.sendPlay.lookup "" = none ∧
      (onSignal sig e m).state.played.lookup "" = none := by
  obtain ⟨_, _, hs⟩ := onSignal_state sig e m
  rw [hs]
  exact ⟨sendPlayAfter_lookup_none hr.symm (fun _ => by simp [Manager.plays]) h.1,
    playedAfter_lookup_none (fun _ => rfl) h.2⟩

/-- A stream stays foreign. -/
theorem foreign_step (hm : InSession own room m) (ho : streamId ≠ own) (hr : streamId ≠ room)
    (h : m.Foreign streamId) (ev : Event) : (step ev m).1.Foreign streamId := by
  have hchange := step_change ev hm.connected
  have hown : streamId ≠ m.publishStreamId := by rwa [hm.publishStreamId]
  obtain ⟨cb, e⟩ := ev
  generalize (step ⟨cb, e⟩ m).1 = m' at hchange ⊢
  cases hchange with
  | signal hsig =>
    rename_i sig
    have hn (hs : streamId = "") := nameless_signal sig e (m := m)
      (by rw [hm.roomId, ← hs]; exact hr.symm) (h.nameless hs)
    obtain ⟨_, _, hs⟩ := onSignal_state sig e m
    rw [hs] at hn ⊢
    obtain ⟨hk, hl⟩ := foreign_relinked sig h e
    exact ⟨fun hp => (hk hp).2, hl, hn⟩
  | context ctx _ _ => exact ⟨h.known, h.localDataChannels, h.nameless⟩
  | publisher _ _ =>
    refine ⟨fun hp => ?_, h.localDataChannels, h.nameless⟩
    simp only [Manager.withPublisher, Manager.withPeer, Dict.lookup_insert_eq, if_neg hown] at hp ⊢
    exact h.known hp
  | publisherWithChannel _ _ _ =>
    refine ⟨fun hp => ?_, ?_, h.nameless⟩
    · simp only [Manager.withLocalChannel, Manager.withPublisher, Manager.withPeer,
        Dict.lookup_insert_eq, if_neg hown] at hp ⊢
      exact h.known hp
    · simp only [Manager.withLocalChannel, Dict.lookup_insert_eq, if_neg hown]
      exact h.localDataChannels
  | track _ => exact ⟨h.known, h.localDataChannels, h.nameless⟩
  | channel _ _ => exact ⟨h.known, h.localDataChannels, h.nameless⟩
  | talk _ => exact ⟨h.known, h.localDataChannels, h.nameless⟩
  | closed pc => exact ⟨h.known, h.localDataChannels, h.nameless⟩

/-! ### Once seen, always seen -/

/-- Buffered candidates go only when the stream gets a connection. -/
theorem pending_of_signal (sig : Signal) (h : m.Foreign streamId)
    (hp : (onSignal sig e m).state.isPublisher.lookup streamId = none)
    (hc : (onSignal sig e m).state.pendingCandidates.lookup streamId = none) :
    m.pendingCandidates.lookup streamId = none := by
  cases sig with
  | onRemoteSDP t type sdp =>
    cases hb : blocked e m t with
    | true => rwa [onSignal, handleRemoteSDP_of_blocked type sdp hb] at hc
    | false =>
      obtain ⟨⟨mids, pending, hs, hpend⟩, -⟩ := handleRemoteSDP_spec type sdp hb
      rw [onSignal, hs] at hp hc
      by_cases ht : t = streamId
      · subst ht
        cases hpc : m.pcs.lookup t with
        | none => simp [Manager.ensured_of_none hpc, Manager.withPeer] at hp
        | some pc =>
          rw [Manager.ensured_of_some hpc] at hp
          rw [h.known hp] at hpc
          cases hpc
      · rw [← m.ensured_pendingCandidates t]
        rcases hpend with rfl | rfl
        · exact hc
        · rwa [Finmap.lookup_erase_ne (Ne.symm ht)] at hc
  | onRemoteCandidate t cand mid =>
    have hbuffer (cs : List Candidate)
        (hb : (m.buffer t cs).pendingCandidates.lookup streamId = none) :
        m.pendingCandidates.lookup streamId = none := by
      simp only [Manager.buffer, Dict.lookup_insert_eq] at hb
      split_ifs at hb
      exact hb
    cases hce : cand.isEmpty with
    | true => rwa [onSignal, addRemoteCandidate_of_empty hce] at hc
    | false =>
      cases hpc : m.pcs.lookup t with
      | none =>
        rw [onSignal, addRemoteCandidate_of_none hce hpc] at hc
        split_ifs at hc <;> exact hbuffer _ hc
      | some pc =>
        rw [onSignal, addRemoteCandidate_of_some hce hpc] at hc
        split_ifs at hc <;> exact hc
  | _ => rwa [onSignal_pending (by simp) (by simp)] at hc

theorem unseen_of_step (hm : InSession own room m) (ho : streamId ≠ own)
    (h : m.Foreign streamId) (ev : Event) (hu : (step ev m).1.Unseen streamId) :
    m.Unseen streamId := by
  have hchange := step_change ev hm.connected
  have hown : streamId ≠ m.publishStreamId := by rwa [hm.publishStreamId]
  obtain ⟨cb, e⟩ := ev
  generalize (step ⟨cb, e⟩ m).1 = m' at hchange hu
  obtain ⟨hp, ht, hc, hk⟩ := hu
  cases hchange with
  | signal hsig =>
    rename_i sig
    have hpend := pending_of_signal sig h hp hc
    have hframe := onSignal_frame sig e m
    obtain ⟨_, _, hs⟩ := onSignal_state sig e m
    have hpub := ((foreign_relinked sig h e).1 (by rwa [hs] at hp)).1
    obtain ⟨_, _, _, _, _, _, _, _, _, _, hf⟩ := hframe
    rw [hf] at ht hk
    exact ⟨hpub, ht, hpend, hk⟩
  | context ctx _ _ => exact ⟨hp, ht, hc, hk⟩
  | publisher _ _ =>
    simp only [Manager.withPublisher, Manager.withPeer, Dict.lookup_insert_eq, if_neg hown] at hp
    exact ⟨hp, ht, hc, hk⟩
  | publisherWithChannel _ _ _ =>
    simp only [Manager.withLocalChannel, Manager.withPublisher, Manager.withPeer,
      Dict.lookup_insert_eq, if_neg hown] at hp
    exact ⟨hp, ht, hc, hk⟩
  | track _ =>
    rw [Dict.lookup_insert_eq] at ht
    split_ifs at ht
    exact ⟨hp, ht, hc, hk⟩
  | channel _ _ => exact ⟨hp, ht, hc, hk⟩
  | talk _ =>
    rw [Dict.lookup_insert_eq] at hk
    split_ifs at hk
    exact ⟨hp, ht, hc, hk⟩
  | closed pc => exact ⟨hp, ht, hc, hk⟩

/-! ### Labels -/

/-- No stream id is a label before a channel with that label was opened. -/
theorem label_step (hm : InSession own room m) {ev : Event}
    (hl : m.remoteDataChannels.lookup streamId = none) (hopen : ¬ev.what.opens streamId m) :
    (step ev m).1.remoteDataChannels.lookup streamId = none := by
  have hchange := step_change ev hm.connected
  obtain ⟨cb, e⟩ := ev
  generalize (step ⟨cb, e⟩ m).1 = m' at hchange ⊢
  cases hchange with
  | signal hsig =>
    rename_i sig
    obtain ⟨_, _, hs⟩ := onSignal_state sig e m
    rw [hs]
    cases sig with
    | onRemoteSDP t type sdp =>
      simp only [Manager.relinked]
      split_ifs
      · exact hl
      · cases hp : m.pcs.lookup t <;> simpa [Manager.ensured, hp, Manager.withPeer] using hl
    | onPlayFinishedNotification t =>
      simp only [Manager.relinked]
      split_ifs
      · exact hl
      · simp only [Manager.withoutPeer, Dict.lookup_erase_eq, hl, ite_self]
    | _ => exact hl
  | channel ha hfree =>
    rename_i pc id label
    have hne : streamId ≠ label := by
      rintro rfl
      exact hopen ⟨pc, id, rfl, ha⟩
    simpa [Dict.lookup_insert_eq, hne] using hl
  | _ => exact hl

/-! ### Runs -/

theorem foreign_run (hm : InSession own room m) (ho : streamId ≠ own) (hr : streamId ≠ room)
    (h : m.Foreign streamId) (evs : List Event) : (step.run evs m).1.Foreign streamId := by
  have hrun := Step.run_invariant
    (I := fun m => InSession own room m ∧ m.Foreign streamId)
    (fun ev _ hm => ⟨hm.1.after_step ev, foreign_step hm.1 ho hr hm.2 ev⟩) evs m ⟨hm, h⟩
  exact hrun.2

theorem unseen_of_run (hm : InSession own room m) (ho : streamId ≠ own) (hr : streamId ≠ room)
    (h : m.Foreign streamId) (evs : List Event) (hu : (step.run evs m).1.Unseen streamId) :
    m.Unseen streamId := by
  induction evs generalizing m with
  | nil => exact hu
  | cons ev evs ih =>
    exact unseen_of_step hm ho h ev
      (ih (hm.after_step ev) (foreign_step hm ho hr h ev) hu)

theorem label_run (hm : InSession own room m) (evs : List Event)
    (hl : m.remoteDataChannels.lookup streamId = none)
    (hopen : step.Along (fun ev m => ¬ev.what.opens streamId m) evs m) :
    (step.run evs m).1.remoteDataChannels.lookup streamId = none := by
  have hrun := Step.run_preserves
    (I := fun m => InSession own room m ∧ m.remoteDataChannels.lookup streamId = none)
    (fun ev _ hm hopen => ⟨hm.1.after_step ev, label_step hm.1 hm.2 hopen⟩) evs m ⟨hm, hl⟩ hopen
  exact hrun.2

theorem foreign_start (o : Opening) (ho : streamId ≠ o.own) : o.state.Foreign streamId := by
  rw [o.outcome_eq.1]
  refine ⟨fun _ => ?_, ?_, fun _ => ⟨?_, ?_⟩⟩ <;>
    simp [Opening.begun, Opening.prepared, Manager.withLocalChannel, Manager.withPublisher,
      Manager.withPeer, ho, o.idle.pcs, o.idle.localDataChannels, o.idle.sendPlay, o.idle.played]

end ConferenceCall

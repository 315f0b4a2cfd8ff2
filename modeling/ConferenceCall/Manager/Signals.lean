import ConferenceCall.Manager.Negotiation
import ConferenceCall.Manager.Notifications

/-! What a signal can do, said once. It relinks the connections, changes the play marks
in a way the signal and the state before determine, and leaves only the buffered
candidates and the recorded mids open. -/

namespace ConferenceCall

open Library

/-- The connections after a signal: made, closed or left alone. -/
def Manager.relinked (m : Manager) (e : Env) : Signal → Manager
  | .onRemoteSDP streamId _ _ => if blocked e m streamId then m else m.ensured streamId
  | .onPlayFinishedNotification streamId =>
    if streamId.isEmpty then m else m.withoutPeer streamId
  | _ => m

/-- Relinking changes the connections and what belongs to them. -/
theorem Manager.relinked_frame (m : Manager) (e : Env) (sig : Signal) :
    ∃ pcs isPublisher sendPlay played localDataChannels remoteDataChannels peers channelHandlers,
      m.relinked e sig =
        { m with
          pcs, isPublisher, sendPlay, played, localDataChannels, remoteDataChannels, peers,
          channelHandlers } := by
  cases sig with
  | onRemoteSDP streamId type sdp =>
    simp only [Manager.relinked]
    split_ifs
    · exact ⟨_, _, _, _, _, _, _, _, rfl⟩
    · cases h : m.pcs.lookup streamId with
      | none => exact ⟨_, _, _, _, _, _, _, _, Manager.ensured_of_none h⟩
      | some pc => exact ⟨_, _, _, _, _, _, _, _, Manager.ensured_of_some h⟩
  | onPlayFinishedNotification streamId =>
    simp only [Manager.relinked]
    split_ifs <;> exact ⟨_, _, _, _, _, _, _, _, rfl⟩
  | _ => exact ⟨_, _, _, _, _, _, _, _, rfl⟩

/-- `sendPlay` after a signal. -/
def Manager.sendPlayAfter (m : Manager) : Signal → Tracker Bool
  | .onPublishStartedNotification =>
    if (m.sendPlay.lookup m.roomId).isSome then m.sendPlay else m.sendPlay.insert m.roomId true
  | .onPlayFinishedNotification streamId =>
    if streamId.isEmpty then m.sendPlay
    else if streamId = m.roomId then (m.sendPlay.erase streamId).insert m.roomId true
    else m.sendPlay.erase streamId
  | .onSubtrackAddedNotification trackId =>
    if m.plays trackId then m.sendPlay.insert trackId true else m.sendPlay
  | .onSubtrackRemovedNotification trackId =>
    if trackId.isEmpty then m.sendPlay else m.sendPlay.erase trackId
  | _ => m.sendPlay

/-- `played` after a signal. -/
def Manager.playedAfter (m : Manager) : Signal → Tracker Bool
  | .onPlayStartedNotification streamId =>
    if streamId.isEmpty then m.played else m.played.insert streamId true
  | .onPlayFinishedNotification streamId =>
    if streamId.isEmpty then m.played else m.played.erase streamId
  | _ => m.played

variable {e : Env} {m : Manager} {streamId : String}

/-- A stream other than the room is marked by its announcement only. -/
theorem sendPlayAfter_lookup_none {sig : Signal} (hr : streamId ≠ m.roomId)
    (hadd : sig = .onSubtrackAddedNotification streamId → m.plays streamId = false)
    (h : m.sendPlay.lookup streamId = none) : (m.sendPlayAfter sig).lookup streamId = none := by
  have herase (t : String) : (m.sendPlay.erase t).lookup streamId = none := by
    rw [Dict.lookup_erase_eq, h, ite_self]
  cases sig with
  | onPublishStartedNotification =>
    simp only [Manager.sendPlayAfter]
    split_ifs
    · exact h
    · rwa [Dict.lookup_insert_eq, if_neg hr]
  | onPlayFinishedNotification t =>
    simp only [Manager.sendPlayAfter]
    split_ifs
    · exact h
    · rw [Dict.lookup_insert_eq, if_neg hr]
      exact herase t
    · exact herase t
  | onSubtrackAddedNotification t =>
    simp only [Manager.sendPlayAfter]
    split_ifs with hp
    · have hne : streamId ≠ t := by
        rintro rfl
        simp [hadd rfl] at hp
      rwa [Dict.lookup_insert_eq, if_neg hne]
    · exact h
  | onSubtrackRemovedNotification t =>
    simp only [Manager.sendPlayAfter]
    split_ifs
    · exact h
    · exact herase t
  | _ => exact h

theorem playedAfter_lookup_none {sig : Signal}
    (hstart : sig = .onPlayStartedNotification streamId → streamId.isEmpty)
    (h : m.played.lookup streamId = none) : (m.playedAfter sig).lookup streamId = none := by
  cases sig with
  | onPlayStartedNotification t =>
    simp only [Manager.playedAfter]
    split_ifs with ht
    · exact h
    · have hne : streamId ≠ t := by
        rintro rfl
        exact ht (hstart rfl)
      rwa [Dict.lookup_insert_eq, if_neg hne]
  | onPlayFinishedNotification t =>
    simp only [Manager.playedAfter]
    split_ifs
    · exact h
    · rw [Dict.lookup_erase_eq, h, ite_self]
  | _ => exact h

/-- A signal relinks the connections and changes the play marks; beyond that it changes the
buffered candidates and the mids only. -/
theorem onSignal_state (sig : Signal) (e : Env) (m : Manager) :
    ∃ pendingCandidates midTypeMap,
      (onSignal sig e m).state =
        { m.relinked e sig with
          sendPlay := m.sendPlayAfter sig, played := m.playedAfter sig, pendingCandidates,
          midTypeMap } := by
  cases sig with
  | onStartOfferer t => exact ⟨_, _, startOffer_state t e m⟩
  | onRemoteSDP t type sdp =>
    cases hb : blocked e m t with
    | true => exact ⟨_, _, by simp only [onSignal, handleRemoteSDP_of_blocked type sdp hb,
        Manager.relinked, hb, if_true]; rfl⟩
    | false =>
      obtain ⟨⟨mids, pending, h, -⟩, -⟩ := handleRemoteSDP_spec type sdp hb
      refine ⟨pending, mids, ?_⟩
      rw [onSignal, h, Manager.relinked, if_neg (by simp [hb])]
      cases hp : m.pcs.lookup t with
      | none => rw [Manager.ensured_of_none hp]; rfl
      | some pc => rw [Manager.ensured_of_some hp]; rfl
  | onRemoteCandidate t cand mid =>
    obtain ⟨_, h⟩ := addRemoteCandidate_state t cand mid e m
    exact ⟨_, _, h⟩
  | onJoinedRoomNotification => exact ⟨_, _, by rw [onSignal, onJoinedRoomNotification_apply]; rfl⟩
  | onPublishStartedNotification =>
    refine ⟨m.pendingCandidates, m.midTypeMap, ?_⟩
    cases h : m.sendPlay.lookup m.roomId with
    | none =>
      rw [onSignal, onPublishStartedNotification_of_none h, Manager.sendPlayAfter, h]
      rfl
    | some b =>
      rw [onSignal, onPublishStartedNotification_of_some h, Manager.sendPlayAfter, h]
      rfl
  | onPlayStartedNotification t =>
    refine ⟨m.pendingCandidates, m.midTypeMap, ?_⟩
    rw [onSignal, onPlayStartedNotification_apply, Manager.playedAfter]
    dsimp only
    split_ifs <;> rfl
  | onPlayFinishedNotification t =>
    refine ⟨m.pendingCandidates, m.midTypeMap, ?_⟩
    rw [onSignal, Manager.relinked, Manager.sendPlayAfter, Manager.playedAfter]
    split_ifs with ht hr
    · rw [onPlayFinishedNotification_of_empty ht]
    · rw [onPlayFinishedNotification_of_room (by simpa using ht) hr]
      rfl
    · rw [onPlayFinishedNotification_of_other (by simpa using ht) hr]
      rfl
  | onSubtrackAddedNotification t =>
    refine ⟨m.pendingCandidates, m.midTypeMap, ?_⟩
    cases h : m.plays t with
    | true =>
      rw [onSignal, onSubtrackAddedNotification_of_plays h, Manager.sendPlayAfter, h]
      rfl
    | false =>
      rw [onSignal, onSubtrackAddedNotification_of_not_plays h, Manager.sendPlayAfter, h]
      rfl
  | onSubtrackRemovedNotification t =>
    refine ⟨m.pendingCandidates, m.midTypeMap, ?_⟩
    rw [onSignal, onSubtrackRemovedNotification_apply, Manager.sendPlayAfter]
    dsimp only
    split_ifs <;> rfl

/-- What no signal touches. -/
theorem onSignal_frame (sig : Signal) (e : Env) (m : Manager) :
    ∃ pcs isPublisher sendPlay played pendingCandidates midTypeMap localDataChannels
      remoteDataChannels peers channelHandlers,
      (onSignal sig e m).state =
        { m with
          pcs, isPublisher, sendPlay, played, pendingCandidates, midTypeMap, localDataChannels,
          remoteDataChannels, peers, channelHandlers } := by
  obtain ⟨_, _, hs⟩ := onSignal_state sig e m
  obtain ⟨_, _, _, _, _, _, _, _, hr⟩ := m.relinked_frame e sig
  rw [hs, hr]
  exact ⟨_, _, _, _, _, _, _, _, _, _, rfl⟩

/-- Only descriptions and candidates touch the buffered candidates. -/
theorem onSignal_pending {sig : Signal} (hsdp : ∀ t type sdp, sig ≠ .onRemoteSDP t type sdp)
    (hcand : ∀ t cand mid, sig ≠ .onRemoteCandidate t cand mid) :
    (onSignal sig e m).state.pendingCandidates = m.pendingCandidates := by
  cases sig with
  | onStartOfferer t => rw [onSignal, startOffer_state]
  | onRemoteSDP t type sdp => exact absurd rfl (hsdp t type sdp)
  | onRemoteCandidate t cand mid => exact absurd rfl (hcand t cand mid)
  | onJoinedRoomNotification => rw [onSignal, onJoinedRoomNotification_apply]
  | onPublishStartedNotification =>
    cases h : m.sendPlay.lookup m.roomId with
    | none => rw [onSignal, onPublishStartedNotification_of_none h]; rfl
    | some b => rw [onSignal, onPublishStartedNotification_of_some h]
  | onPlayStartedNotification t =>
    rw [onSignal, onPlayStartedNotification_apply]
    dsimp only
    split_ifs <;> rfl
  | onPlayFinishedNotification t =>
    cases hs : t.isEmpty with
    | true => rw [onSignal, onPlayFinishedNotification_of_empty hs]
    | false =>
      by_cases hr : t = m.roomId
      · rw [onSignal, onPlayFinishedNotification_of_room hs hr]; rfl
      · rw [onSignal, onPlayFinishedNotification_of_other hs hr]; rfl
  | onSubtrackAddedNotification t =>
    cases h : m.plays t with
    | true => rw [onSignal, onSubtrackAddedNotification_of_plays h]; rfl
    | false => rw [onSignal, onSubtrackAddedNotification_of_not_plays h]
  | onSubtrackRemovedNotification t =>
    rw [onSignal, onSubtrackRemovedNotification_apply]
    dsimp only
    split_ifs <;> rfl

/-- The signals whose handlers negotiate. -/
def Signal.negotiates : Signal → Bool
  | .onStartOfferer _ | .onRemoteSDP _ _ _ | .onRemoteCandidate _ _ _ => true
  | _ => false

theorem removalCalls_routine {streamId : String} :
    ∀ c ∈ removalCalls e m streamId, Routine c := by
  have hclosing (ch : Option Channel) : ∀ c ∈ closingCalls e ch, Routine c := by
    cases ch with
    | none => simp [closingCalls]
    | some ch =>
      cases h : e.isOpen ch <;>
        simp [closingCalls, h, Routine, Quiet, Call.negotiates, Call.plays]
  intro c hc
  simp only [removalCalls, List.mem_append, List.mem_map] at hc
  rcases hc with hc | hc | ⟨_, -, rfl⟩
  · exact hclosing _ c hc
  · exact hclosing _ c hc
  · exact ⟨rfl, rfl⟩

theorem onSignal_quiet {sig : Signal} (h : sig.negotiates = false) :
    ∀ c ∈ (onSignal sig e m).calls, Quiet c := by
  cases sig with
  | onStartOfferer => cases h
  | onRemoteSDP => cases h
  | onRemoteCandidate => cases h
  | onJoinedRoomNotification =>
    rw [onSignal, onJoinedRoomNotification_apply]
    exact sent_quiet
  | onPublishStartedNotification =>
    cases hp : m.sendPlay.lookup m.roomId with
    | none =>
      rw [onSignal, onPublishStartedNotification_of_none hp]
      exact sent_quiet
    | some b => simp [onSignal, onPublishStartedNotification_of_some hp]
  | onPlayStartedNotification streamId => simp [onSignal, onPlayStartedNotification_apply]
  | onPlayFinishedNotification streamId =>
    cases hs : streamId.isEmpty with
    | true => simp [onSignal, onPlayFinishedNotification_of_empty hs]
    | false =>
      by_cases hr : streamId = m.roomId
      · rw [onSignal, onPlayFinishedNotification_of_room hs hr]
        intro c hc
        exact (List.mem_append.mp hc).elim (fun hc => (removalCalls_routine c hc).1) (sent_quiet c)
      · rw [onSignal, onPlayFinishedNotification_of_other hs hr]
        exact fun c hc => (removalCalls_routine c hc).1
  | onSubtrackAddedNotification trackId =>
    cases hp : m.plays trackId with
    | true =>
      rw [onSignal, onSubtrackAddedNotification_of_plays hp]
      exact sent_quiet
    | false => simp [onSignal, onSubtrackAddedNotification_of_not_plays hp]
  | onSubtrackRemovedNotification trackId => simp [onSignal, onSubtrackRemovedNotification_apply]

end ConferenceCall

import ConferenceCall.Manager.Twin

/-! The handlers of the signaling, of the connections and of the API beside those of a new
manager. -/

namespace ConferenceCall

open Library

variable {base used fresh : Manager} {known : Prop}

/-! ### Negotiation -/

theorem addRecvTrack_twinned (pc i : ℕ) (media : Json) :
    Twinned base known id (addRecvTrack (pc + base.nextPc) i media) (addRecvTrack pc i media) := by
  refine .bind (v := id) (.ofOption (by rw [Option.map_id]; rfl)) fun track => ?_
  cases track with
  | some track =>
    exact .bind (call_twinned _ rfl) fun _ => .modify fun s t h =>
      { h with midTypeMap := congrArg (fun d => Finmap.insert track.1 track.2 d) h.midTypeMap }
  | none => exact .pure rfl

theorem readRemoteSDP_twinned (type : String) (pc : ℕ) :
    Twinned base known id (readRemoteSDP type (pc + base.nextPc)) (readRemoteSDP type pc) := by
  have hprepare : Twinned base known id (prepareRecvTracksFromSDP (pc + base.nextPc))
      (prepareRecvTracksFromSDP pc) := by
    refine .bind (check_twinned _) fun _ => .bind (v := id) (.ask fun _ => rfl) fun sdpJson => ?_
    simp only [id_eq]
    cases sdpJson.find? "media" with
    | some media => exact .each (fun i media => addRecvTrack_twinned pc i media) _ 0
    | none => exact .pure rfl
  exact .ite (.bind hprepare fun _ => check_twinned _) (check_twinned _)

theorem applyRemoteSDP_twinned (streamId type sdp : String) (pc : ℕ) :
    Twinned base known id (applyRemoteSDP streamId type sdp (pc + base.nextPc))
      (applyRemoteSDP streamId type sdp pc) := by
  have hflush : Twinned base known id (flushCandidates streamId (pc + base.nextPc))
      (flushCandidates streamId pc) := by
    refine .bind (v := id) (.gets fun s t h => by rw [h.pendingCandidates]; rfl) fun found => ?_
    cases found with
    | some cs =>
      have hround (i : ℕ) (c : Candidate) : Twinned base known id
          (call (.addRemoteCandidate i) (.addRemoteCandidate (pc + base.nextPc) c))
          (call (.addRemoteCandidate i) (.addRemoteCandidate pc c)) := call_twinned _ rfl
      exact .bind (.each hround cs 0) fun _ => .modify fun s t h => { h with
        pendingCandidates := congrArg (fun d => Finmap.erase streamId d) h.pendingCandidates }
    | none => exact .pure rfl
  exact .bind (call_twinned _ rfl) fun _ => .bind hflush fun _ =>
    .ite (call_twinned _ rfl) (.pure rfl)

theorem handleRemoteSDP_twinned (streamId type sdp : String) :
    Twinned base known id (handleRemoteSDP streamId type sdp) (handleRemoteSDP streamId type sdp) :=
  .bind (v := id) (.gets fun s t h => by rw [h.roomId]; rfl) fun needDC =>
    .bind (createPeerIfNotExist_twinned streamId needDC) fun pc =>
    .bind (readRemoteSDP_twinned type pc) fun _ => applyRemoteSDP_twinned streamId type sdp pc

theorem addRemoteCandidate_twinned (streamId cand mid : String) :
    Twinned base known id (addRemoteCandidate streamId cand mid)
      (addRemoteCandidate streamId cand mid) := by
  refine .ite (.pure rfl) (.bind (.gets fun _ _ h => h.pcs streamId) fun found => ?_)
  cases found with
  | none =>
    refine .bind (.modify fun s t h => ?_) fun _ => .bind (check_twinned _) fun _ =>
      .modify fun s t h => ?_
    · exact { h with pendingCandidates := by rw [h.pendingCandidates] }
    · exact { h with pendingCandidates := by rw [h.pendingCandidates] }
  | some pc => exact .bind (check_twinned _) fun _ => call_twinned _ rfl

theorem startOffer_twinned (streamId : String) :
    Twinned base known id (startOffer streamId) (startOffer streamId) := by
  refine .bind (.gets fun _ _ h => h.pcs streamId) fun found => ?_
  cases found with
  | some pc => exact call_twinned _ rfl
  | none => exact .pure rfl

/-! ### Notifications -/

theorem onJoinedRoomNotification_twinned (hk : known) :
    Twinned base known id onJoinedRoomNotification onJoinedRoomNotification :=
  .bind (v := id) (.gets fun _ _ h => h.isOnlyPlayer hk) fun _ =>
    .ite (send_twinned _ _) (send_twinned _ _)

theorem onPublishStartedNotification_twinned :
    Twinned base known id onPublishStartedNotification onPublishStartedNotification := by
  refine .bind (v := id) (.gets fun s t h => by rw [h.sendPlay, h.roomId]; rfl) fun found => ?_
  cases found with
  | some _ => exact .pure rfl
  | none =>
    exact .bind (.modify fun s t h => { h with sendPlay := by rw [h.sendPlay, h.roomId] })
      fun _ => send_twinned _ _

theorem onPlayFinishedNotification_twinned (streamId : String) :
    Twinned base known id (onPlayFinishedNotification streamId)
      (onPlayFinishedNotification streamId) := by
  refine .ite (.bind (removePeerIfNotExist_twinned streamId) fun _ =>
    .bind (v := id) (.gets fun s t h => by rw [h.roomId]; rfl) fun _ => .ite ?_ (.pure rfl))
    (.pure rfl)
  exact .bind (.modify fun s t h => { h with sendPlay := by rw [h.sendPlay, h.roomId] })
    fun _ => send_twinned _ _

theorem onSubtrackAddedNotification_twinned (trackId : String) :
    Twinned base known id (onSubtrackAddedNotification trackId)
      (onSubtrackAddedNotification trackId) := by
  refine .bind (v := id) (.gets fun s t h => by rw [h.publishStreamId]; rfl) fun _ =>
    .ite (.bind (v := id) (.gets fun _ _ h => h.hasLivePeer trackId) fun _ =>
      .ite (.pure rfl) (.bind (v := id) (.gets fun s t h => ?_) fun _ => .ite (.pure rfl) ?_))
    (.pure rfl)
  · rw [Manager.playSent, h.sendPlay]
    rfl
  · exact .bind (.modify fun s t h => { h with sendPlay := by rw [h.sendPlay] })
      fun _ => send_twinned _ _

theorem onSignal_twinned (hk : known) (sig : Signal) :
    Twinned base known id (onSignal sig) (onSignal sig) := by
  cases sig with
  | onStartOfferer streamId => exact startOffer_twinned streamId
  | onRemoteSDP streamId type sdp => exact handleRemoteSDP_twinned streamId type sdp
  | onRemoteCandidate streamId cand mid => exact addRemoteCandidate_twinned streamId cand mid
  | onJoinedRoomNotification => exact onJoinedRoomNotification_twinned hk
  | onPublishStartedNotification => exact onPublishStartedNotification_twinned
  | onPlayStartedNotification streamId =>
    exact .ite (.modify fun s t h => { h with played := by rw [h.played] }) (.pure rfl)
  | onPlayFinishedNotification streamId => exact onPlayFinishedNotification_twinned streamId
  | onSubtrackAddedNotification trackId => exact onSubtrackAddedNotification_twinned trackId
  | onSubtrackRemovedNotification trackId =>
    exact .ite (.modify fun s t h => { h with sendPlay := by rw [h.sendPlay] }) (.pure rfl)

theorem onMessage_twinned (hk : known) (text : Option Json) :
    Twinned base known id (onMessage text) (onMessage text) := by
  refine .attempt (.bind (v := id) (.ofOption (by rw [Option.map_id]; rfl)) fun signal => ?_)
  cases signal with
  | some sig => exact onSignal_twinned hk sig
  | none => exact .pure rfl

theorem onOpen_twinned (hk : known) : Twinned base known id onOpen onOpen :=
  .bind (.modify fun s t h => { h with
      signalingContext := by rw [Manager.setWsOpen, h.signalingContext]; rfl }) fun _ =>
    .bind (v := id) (.gets fun _ _ h => h.publishStreamId) fun streamId =>
    .bind (setupPublishPeer_twinned hk streamId) fun _ => send_twinned _ _

/-! ### Callbacks -/

theorem addRemoteTrack_twinned (track : Track) (streamId : String) :
    Twinned base known id (addRemoteTrack track streamId) (addRemoteTrack track streamId) := by
  refine .bind (.modify fun s t h => { h with remoteTracks := by rw [h.remoteTracks] }) fun _ =>
    .bind (v := id) (.gets fun s t h => by rw [h.midTypeMap]; rfl) fun kind =>
    .modify fun s t h => ?_
  exact { h with trackHandlers := by rw [h.trackHandlers]; rfl }

theorem onTrackMessage_twinned (handler : TrackHandler) (data : List UInt8) :
    Twinned base known id (onTrackMessage handler data) (onTrackMessage handler data) :=
  .ite (.bind (v := id) (.gets fun s t h => by rw [h.isStreamTalking]; rfl) fun _ =>
    .bind (v := id) (.gets fun _ _ h => h.gstManager) fun _ =>
    .ite (callNoexcept_twinned rfl) (.pure rfl)) (.pure rfl)

theorem onLocalCandidate_twinned (streamId cand mid : String) :
    Twinned base known id (onLocalCandidate streamId cand mid) (onLocalCandidate streamId cand mid) := by
  refine .bind (v := id) (.gets fun _ _ h => h.signaling) fun client => ?_
  cases client with
  | some c =>
    exact .bind (.modify fun s t h => { h with
      signalingContext := by rw [Manager.setSignaling, h.signalingContext]; rfl })
      fun _ => call_twinned _ rfl
  | none => exact .pure rfl

theorem onDataChannel_twinned (id' : ℕ) (label : String) :
    Twinned base known id (onDataChannel id' label) (onDataChannel id' label) := by
  refine .bind (.gets fun _ _ h => h.remoteDataChannels label) fun found => ?_
  cases found with
  | some ch => exact .pure rfl
  | none =>
    exact .bind (.modify fun s t h => { h with
        remoteDataChannels := Twin.insertChannel h.remoteDataChannels label (.remote id') })
      fun _ => .modify fun s t h => { h with
        channelHandlers := h.insertHandler (.remote id') label }

theorem handleDataChannelText_twinned (text : Option Json) :
    Twinned base known id (handleDataChannelText text) (handleDataChannelText text) := by
  cases text with
  | none => exact .pure rfl
  | some j =>
    refine .bind (v := id) (.ofOption (by rw [Option.map_id]; rfl)) fun chat => ?_
    rcases chat with _ | ⟨senderId, msgText⟩
    · exact .pure rfl
    · exact .ite (.modify fun s t h => { h with isStreamTalking := by rw [h.isStreamTalking] })
        (.ite (.modify fun s t h => { h with isStreamTalking := by rw [h.isStreamTalking] })
          (.pure rfl))

/-! ### The API -/

theorem sendLeave_twinned : Twinned base known id sendLeave sendLeave := by
  refine .bind (v := id) (.gets fun s t h => ?_) fun _ => .ite (.attempt ?_) (.pure rfl)
  · rw [Manager.leaves, h.signalingContext, h.publishStreamId, h.isPublisher]
    rfl
  · exact .bind (send_twinned _ _) fun _ => .bind (send_twinned _ _) fun _ => send_twinned _ _

theorem Twin.wsOpen (h : Twin base known used fresh) : used.wsOpen = fresh.wsOpen := by
  rw [Manager.wsOpen, h.signalingContext]
  rfl

theorem Twin.mem_pcs (h : Twin base known used fresh) (pc : ℕ) :
    pc ∈ used.pcs.values ↔ ∃ pc', pc = pc' + base.nextPc ∧ pc' ∈ fresh.pcs.values := by
  simp only [Dict.mem_values, h.pcs, Option.map_eq_some_iff]
  constructor
  · rintro ⟨streamId, pc', hpc, rfl⟩
    exact ⟨pc', rfl, streamId, hpc⟩
  · rintro ⟨pc', rfl, streamId, hpc⟩
    exact ⟨streamId, pc', hpc, rfl⟩

/-- Cleaning up closes the connections of this session only. -/
theorem Twin.cleared (h : Twin base known used fresh) :
    Twin base known used.cleared fresh.cleared :=
  { h with
    gstManager := rfl
    signalingContext := rfl
    pcs := fun _ => by simp [Manager.cleared]
    isPublisher := rfl
    sendPlay := rfl
    played := rfl
    remoteTracks := rfl
    pendingCandidates := rfl
    midTypeMap := rfl
    localDataChannels := fun _ => by simp [Manager.cleared]
    remoteDataChannels := fun _ => by simp [Manager.cleared]
    isStreamTalking := rfl
    channelHandlers := fun _ => by simp [Manager.cleared]
    trackHandlers := rfl
    peers := by
      simp only [Manager.cleared, Manager.closeAll, h.peers, List.mapIdx_append]
      congr 1
      · refine List.ext_getElem? fun pc => ?_
        rw [List.getElem?_mapIdx]
        cases hp : base.peers[pc]? with
        | none => rfl
        | some p =>
          have hlt := (List.getElem?_eq_some_iff.mp hp).1
          have hold : pc ∉ used.pcs.values := fun hmem => by
            obtain ⟨pc', rfl, -⟩ := (h.mem_pcs pc).mp hmem
            rw [Manager.nextPc] at hlt
            omega
          rw [Option.map_some, if_neg hold]
      · refine List.ext_getElem? fun pc => ?_
        rw [List.getElem?_mapIdx, List.getElem?_mapIdx]
        have hnew : pc + base.peers.length ∈ used.pcs.values ↔ pc ∈ fresh.pcs.values := by
          rw [h.mem_pcs]
          constructor
          · rintro ⟨pc', hpc, hmem⟩
            rwa [Nat.add_right_cancel hpc]
          · exact fun hmem => ⟨pc, rfl, hmem⟩
        simp only [hnew] }

theorem cleanupResources_twinned : Twinned base known id cleanupResources cleanupResources :=
  .bind sendLeave_twinned fun _ => .bind (v := id) (.gets fun _ _ h => h.wsOpen) fun _ =>
    .bind (.modify fun _ _ h => h.cleared) fun _ => .ite (callNoexcept_twinned rfl) (.pure rfl)

theorem connect_twinned (url streamId : String) :
    Twinned base known id (connect url streamId) (connect url streamId) :=
  .bind (.modify fun s t h => { h with signalingContext := by rw [h.signalingContext] }) fun _ =>
    .bind (v := id) (.ask fun _ => rfl) fun _ => .bind (.record rfl) fun _ => .pure rfl

theorem sendChatMessage_twinned (text date : String) :
    Twinned base known id (sendChatMessage text date) (sendChatMessage text date) := by
  refine .bind (v := id) (.gets fun s t h => ?_) fun _ => .ite
    (.bind (v := id) (.gets fun _ _ h => h.publishStreamId) fun senderId =>
      .bind (check_twinned _) fun _ =>
      .bind (.gets fun _ _ h => h.localDataChannels senderId) fun found => ?_) (.pure rfl)
  · rw [h.isCommunicating, h.wsOpen]
    rfl
  · cases found with
    | some dc =>
      exact .bind (v := id) (.ask fun e => e.shift_isOpen _ dc) fun _ =>
        .ite (call_twinned _ rfl) (.pure rfl)
    | none => exact .pure rfl

theorem sendBinaryMessage_twinned (data : List UInt8) (label : String) :
    Twinned base known id (sendBinaryMessage data label) (sendBinaryMessage data label) := by
  refine .bind (.gets fun _ _ h => h.localDataChannels label) fun found => ?_
  cases found with
  | some dc =>
    exact .bind (v := id) (.ask fun e => e.shift_isOpen _ dc) fun _ =>
      .ite (call_twinned _ rfl) (.pure rfl)
  | none => exact .pure rfl

end ConferenceCall

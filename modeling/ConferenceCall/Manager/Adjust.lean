import ConferenceCall.Manager.Changes

/-! Two managers that differ in the live room id, the live stream id, `sendPlay` and
`played` only. Most handlers touch none of these and cannot tell the two apart; for
the others the module says what has to agree. -/

namespace ConferenceCall

open Library

/-- A change of the four fields. -/
structure Adjust where
  roomId : String → String
  publishStreamId : String → String
  sendPlay : Tracker Bool → Tracker Bool
  played : Tracker Bool → Tracker Bool

namespace Adjust

def apply (f : Adjust) (m : Manager) : Manager :=
  { m with
    roomId := f.roomId m.roomId
    publishStreamId := f.publishStreamId m.publishStreamId
    sendPlay := f.sendPlay m.sendPlay
    played := f.played m.played }

/-- The change leaves the entries of a key alone. -/
structure At (f : Adjust) (key : String) : Prop where
  lookup : ∀ d, (f.sendPlay d).lookup key = d.lookup key
  insert : ∀ d, f.sendPlay (d.insert key true) = (f.sendPlay d).insert key true
  erase : ∀ d, f.sendPlay (d.erase key) = (f.sendPlay d).erase key
  insertPlayed : ∀ d, f.played (d.insert key true) = (f.played d).insert key true
  erasePlayed : ∀ d, f.played (d.erase key) = (f.played d).erase key

variable (f : Adjust)

/-- The computation touches none of the four fields. -/
abbrev Ignored {α : Type} (x : Act α) : Prop := Act.Commutes f.apply x

/-! ### Handlers that touch none of the four fields -/

theorem check_ignored (site : Site) : f.Ignored (check site) := fun e m => by
  rw [check_apply, check_apply]
  split <;> rfl

theorem call_ignored (site : Site) (c : Call) : f.Ignored (call site c) := fun e m => by
  rw [call_apply, call_apply]

theorem send_ignored (site : Site) (build : SignalingCommand → Command) :
    f.Ignored (send site build) := fun e m => by
  rw [send_apply, send_apply]
  rfl

theorem createPeerIfNotExist_ignored (streamId : String) (needDC : Bool) :
    f.Ignored (createPeerIfNotExist streamId needDC) := by
  refine .bind (.gets fun _ => rfl) fun found => ?_
  cases found with
  | some pc => exact .pure pc
  | none =>
    refine .bind (.gets fun _ => rfl) fun pc => .bind (f.call_ignored _ _) fun _ =>
      .bind (.modify fun _ => rfl) fun _ => ?_
    have hlast : f.Ignored (do
        Act.modify fun m => m.updatePeer pc fun p => { p with callbacks := true }
        return pc) := .bind (.modify fun _ => rfl) fun _ => .pure pc
    exact .ite (.bind (.modify fun _ => rfl) fun _ => hlast) hlast

theorem setupLocalTracks_ignored (pc : ℕ) : f.Ignored (setupLocalTracks pc) :=
  .bind (f.call_ignored _ _) fun _ => f.call_ignored _ _

theorem createLocalChannel_ignored (streamId : String) (pc : ℕ) :
    f.Ignored (createLocalChannel streamId pc) := by
  refine .bind (.gets fun _ => rfl) fun found => ?_
  cases found with
  | some ch => exact .pure ()
  | none => exact .bind (f.call_ignored _ _) fun _ => .modify fun _ => rfl

theorem addRecvTrack_ignored (pc i : ℕ) (media : Json) : f.Ignored (addRecvTrack pc i media) := by
  refine .bind (.ofOption _) fun track => ?_
  cases track with
  | some track => exact .bind (f.call_ignored _ _) fun _ => .modify fun _ => rfl
  | none => exact .pure ()

theorem readRemoteSDP_ignored (type : String) (pc : ℕ) : f.Ignored (readRemoteSDP type pc) := by
  have hprepare : f.Ignored (prepareRecvTracksFromSDP pc) := by
    refine .bind (f.check_ignored _) fun _ => .bind (.ask _) fun sdpJson => ?_
    cases sdpJson.find? "media" with
    | some media => exact .each (fun i media => f.addRecvTrack_ignored pc i media) _ 0
    | none => exact .pure ()
  exact .ite (.bind hprepare fun _ => f.check_ignored _) (f.check_ignored _)

theorem applyRemoteSDP_ignored (streamId type sdp : String) (pc : ℕ) :
    f.Ignored (applyRemoteSDP streamId type sdp pc) := by
  have hflush : f.Ignored (flushCandidates streamId pc) := by
    refine .bind (.gets fun _ => rfl) fun found => ?_
    cases found with
    | some cs =>
      exact .bind (.each (fun i c => f.call_ignored _ _) _ 0) fun _ => .modify fun _ => rfl
    | none => exact .pure ()
  exact .bind (f.call_ignored _ _) fun _ => .bind hflush fun _ =>
    .ite (f.call_ignored _ _) (.pure _)

theorem addRemoteCandidate_ignored (streamId cand mid : String) :
    f.Ignored (addRemoteCandidate streamId cand mid) := by
  refine .ite (.pure _) (.bind (.gets fun _ => rfl) fun found => ?_)
  cases found with
  | none =>
    exact .bind (.modify fun _ => rfl) fun _ => .bind (f.check_ignored _) fun _ =>
      .modify fun _ => rfl
  | some pc => exact .bind (f.check_ignored _) fun _ => f.call_ignored _ _

theorem startOffer_ignored (streamId : String) : f.Ignored (startOffer streamId) := by
  refine .bind (.gets fun _ => rfl) fun found => ?_
  cases found with
  | some pc => exact f.call_ignored _ _
  | none => exact .pure ()

theorem onJoinedRoomNotification_ignored : f.Ignored onJoinedRoomNotification :=
  .bind (.gets fun _ => rfl) fun _ => .ite (f.send_ignored _ _) (f.send_ignored _ _)

theorem setupPublishPeer_ignored {streamId : String} (h : f.publishStreamId streamId = streamId) :
    f.Ignored (setupPublishPeer streamId) := by
  refine .bind (.gets fun _ => rfl) fun found => ?_
  cases found with
  | some pc => exact .pure ()
  | none =>
    refine .bind (f.createPeerIfNotExist_ignored _ _) fun pc => .bind (.modify fun m => ?_) fun _ =>
      .bind (.gets fun _ => rfl) fun _ => ?_
    · simp [apply, h]
    · exact .ite (.bind (f.setupLocalTracks_ignored pc) fun _ => f.createLocalChannel_ignored _ _)
        (f.createLocalChannel_ignored _ _)

/-! ### Handlers that read or change one of the four -/

variable {f} {e : Env} {m : Manager}

/-- What has to agree for the handler of a signal not to see the change. -/
def agreesOn (f : Adjust) (m : Manager) : Signal → Prop
  | .onRemoteSDP streamId _ _ =>
    (m.pcs.lookup streamId).isSome ∨ (streamId = f.roomId m.roomId ↔ streamId = m.roomId)
  | .onPublishStartedNotification => f.roomId m.roomId = m.roomId ∧ f.At m.roomId
  | .onPlayStartedNotification streamId => f.At streamId
  | .onPlayFinishedNotification streamId =>
    f.At streamId ∧ (streamId = f.roomId m.roomId ↔ streamId = m.roomId)
  | .onSubtrackAddedNotification trackId =>
    f.At trackId ∧ (trackId = f.publishStreamId m.publishStreamId ↔ trackId = m.publishStreamId)
  | .onSubtrackRemovedNotification trackId => f.At trackId
  | _ => True

/-- The outcome of a computation on the changed state is the changed outcome. -/
def Carries (f : Adjust) (x : Act Unit) (e : Env) (m : Manager) : Prop :=
  x e (f.apply m) = ⟨(x e m).value, f.apply (x e m).state, (x e m).calls⟩

theorem handleRemoteSDP_carries {streamId type sdp : String}
    (h : f.agreesOn m (.onRemoteSDP streamId type sdp)) :
    f.Carries (handleRemoteSDP streamId type sdp) e m := by
  have hneed : createPeerIfNotExist streamId (streamId == f.roomId m.roomId) e m =
      createPeerIfNotExist streamId (streamId == m.roomId) e m := by
    rcases h with hp | hr
    · obtain ⟨pc, hp⟩ := Option.isSome_iff_exists.mp hp
      rw [createPeerIfNotExist_of_some _ hp, createPeerIfNotExist_of_some _ hp]
    · have hb : (streamId == f.roomId m.roomId) = (streamId == m.roomId) := by
        rw [Bool.eq_iff_iff]
        simpa using hr
      rw [hb]
  have hrest (needDC : Bool) : f.Ignored (do
      let pc ← createPeerIfNotExist streamId needDC
      readRemoteSDP type pc
      applyRemoteSDP streamId type sdp pc) :=
    .bind (f.createPeerIfNotExist_ignored _ _) fun pc => .bind (f.readRemoteSDP_ignored _ _)
      fun _ => f.applyRemoteSDP_ignored _ _ _ _
  have hsame : (do
      let pc ← createPeerIfNotExist streamId (streamId == f.roomId m.roomId)
      readRemoteSDP type pc
      applyRemoteSDP streamId type sdp pc : Act Unit) e m =
      handleRemoteSDP streamId type sdp e m := by
    rw [handleRemoteSDP, Act.gets_bind, Act.bind_apply, hneed]
    rfl
  have hgets : handleRemoteSDP streamId type sdp e (f.apply m) = (do
      let pc ← createPeerIfNotExist streamId (streamId == f.roomId m.roomId)
      readRemoteSDP type pc
      applyRemoteSDP streamId type sdp pc : Act Unit) e (f.apply m) := rfl
  rw [Carries, hgets, hrest, hsame]

theorem onPublishStartedNotification_carries
    (h : f.agreesOn m .onPublishStartedNotification) :
    f.Carries onPublishStartedNotification e m := by
  obtain ⟨hr, hat⟩ := h
  have hlook : (f.apply m).sendPlay.lookup (f.apply m).roomId = m.sendPlay.lookup m.roomId := by
    show (f.sendPlay m.sendPlay).lookup (f.roomId m.roomId) = _
    rw [hr, hat.lookup]
  cases hp : m.sendPlay.lookup m.roomId with
  | some b =>
    rw [Carries, onPublishStartedNotification_of_some hp,
      onPublishStartedNotification_of_some (hlook.trans hp)]
  | none =>
    rw [Carries, onPublishStartedNotification_of_none hp,
      onPublishStartedNotification_of_none (hlook.trans hp)]
    have hmark : (f.apply m).markRoom = f.apply m.markRoom := by
      simp [Manager.markRoom, apply, hr, hat.insert]
    rw [hmark]
    rfl

theorem onPlayFinishedNotification_carries {streamId : String}
    (h : f.agreesOn m (.onPlayFinishedNotification streamId)) :
    f.Carries (onPlayFinishedNotification streamId) e m := by
  obtain ⟨hat, hr⟩ := h
  have hwithout : (f.apply m).withoutPeer streamId = f.apply (m.withoutPeer streamId) := by
    simp [Manager.withoutPeer, apply, hat.erase, hat.erasePlayed, Manager.peersWithout,
      Manager.handlersWithout]
  cases hs : streamId.isEmpty with
  | true =>
    rw [Carries, onPlayFinishedNotification_of_empty hs, onPlayFinishedNotification_of_empty hs]
  | false =>
    by_cases hk : streamId = m.roomId
    · have hroom : f.roomId m.roomId = m.roomId := by rw [← hr.mpr hk, hk]
      have hmark : (f.apply (m.withoutPeer streamId)).markRoom =
          f.apply (m.withoutPeer streamId).markRoom := by
        have hat' : f.At (m.withoutPeer streamId).roomId := hk ▸ hat
        have hroom' : f.roomId (m.withoutPeer streamId).roomId = (m.withoutPeer streamId).roomId :=
          hroom
        simp [Manager.markRoom, apply, hroom', hat'.insert]
      rw [Carries, onPlayFinishedNotification_of_room hs (hr.mpr hk),
        onPlayFinishedNotification_of_room hs hk, hwithout, hmark]
      rfl
    · rw [Carries, onPlayFinishedNotification_of_other hs fun h => hk (hr.mp h),
        onPlayFinishedNotification_of_other hs hk, hwithout]
      rfl

theorem onSubtrackAddedNotification_carries {trackId : String}
    (h : f.agreesOn m (.onSubtrackAddedNotification trackId)) :
    f.Carries (onSubtrackAddedNotification trackId) e m := by
  obtain ⟨hat, ho⟩ := h
  have hplays : (f.apply m).plays trackId = m.plays trackId := by
    have hne : (trackId != f.publishStreamId m.publishStreamId) = (trackId != m.publishStreamId) := by
      rw [Bool.eq_iff_iff]
      simpa using not_congr ho
    have hsent : (f.apply m).playSent trackId = m.playSent trackId := by
      simp [Manager.playSent, apply, hat.lookup]
    simp only [Manager.plays, hsent]
    exact congrArg (fun b => !trackId.isEmpty && b && !m.hasLivePeer trackId && !m.playSent trackId)
      hne
  cases hp : m.plays trackId with
  | false =>
    rw [Carries, onSubtrackAddedNotification_of_not_plays hp,
      onSubtrackAddedNotification_of_not_plays (hplays.trans hp)]
  | true =>
    have hmark : (f.apply m).markPlay trackId = f.apply (m.markPlay trackId) := by
      simp [Manager.markPlay, apply, hat.insert]
    rw [Carries, onSubtrackAddedNotification_of_plays hp,
      onSubtrackAddedNotification_of_plays (hplays.trans hp), hmark]
    rfl

theorem onSignal_carries {sig : Signal} (h : f.agreesOn m sig) : f.Carries (onSignal sig) e m := by
  cases sig with
  | onStartOfferer streamId => exact f.startOffer_ignored streamId e m
  | onRemoteSDP streamId type sdp => exact handleRemoteSDP_carries h
  | onRemoteCandidate streamId cand mid => exact f.addRemoteCandidate_ignored streamId cand mid e m
  | onJoinedRoomNotification => exact f.onJoinedRoomNotification_ignored e m
  | onPublishStartedNotification => exact onPublishStartedNotification_carries h
  | onPlayStartedNotification streamId =>
    have hat : f.At streamId := h
    rw [Carries, onSignal, onPlayStartedNotification_apply, onPlayStartedNotification_apply]
    split_ifs
    · rfl
    · simp [apply, hat.insertPlayed]
  | onPlayFinishedNotification streamId => exact onPlayFinishedNotification_carries h
  | onSubtrackAddedNotification trackId => exact onSubtrackAddedNotification_carries h
  | onSubtrackRemovedNotification trackId =>
    have hat : f.At trackId := h
    rw [Carries, onSignal, onSubtrackRemovedNotification_apply, onSubtrackRemovedNotification_apply]
    split_ifs
    · rfl
    · simp [apply, hat.erase]

/-! ### Steps -/

theorem addRemoteTrack_ignored (track : Track) (streamId : String) :
    f.Ignored (addRemoteTrack track streamId) :=
  .bind (.modify fun _ => rfl) fun _ => .bind (.gets fun _ => rfl) fun _ => .modify fun _ => rfl

theorem onTrackMessage_ignored (handler : TrackHandler) (data : List UInt8) :
    f.Ignored (onTrackMessage handler data) := fun e m => by
  rw [onTrackMessage_apply, onTrackMessage_apply]
  rfl

theorem onLocalCandidate_ignored (streamId cand mid : String) :
    f.Ignored (onLocalCandidate streamId cand mid) := by
  refine .bind (.gets fun _ => rfl) fun found => ?_
  cases found with
  | some c => exact .bind (.modify fun _ => rfl) fun _ => f.call_ignored _ _
  | none => exact .pure ()

theorem onDataChannel_ignored (id : ℕ) (label : String) : f.Ignored (onDataChannel id label) := by
  refine .bind (.gets fun _ => rfl) fun found => ?_
  cases found with
  | some ch => exact .pure ()
  | none => exact .bind (.modify fun _ => rfl) fun _ => .modify fun _ => rfl

theorem handleDataChannelText_ignored (text : Option Json) :
    f.Ignored (handleDataChannelText text) := by
  cases text with
  | none => exact .pure ()
  | some j =>
    refine .bind (.ofOption _) fun found => ?_
    rcases found with _ | ⟨senderId, msgText⟩
    · exact .pure ()
    · exact .ite (.modify fun _ => rfl) (.ite (.modify fun _ => rfl) (.pure ()))

theorem onOpen_carries (h : f.publishStreamId m.publishStreamId = m.publishStreamId) :
    f.Carries onOpen e m := by
  have hrest : f.Ignored (do
      setupPublishPeer m.publishStreamId
      send .sendJoinRoom (·.sendJoinRoom)) :=
    .bind (f.setupPublishPeer_ignored h) fun _ => f.send_ignored _ _
  have hs := hrest e (m.setWsOpen true)
  rw [Carries, onOpen_eq, onOpen_eq]
  show (setupPublishPeer (f.publishStreamId m.publishStreamId) e
    (f.apply (m.setWsOpen true))).andThen _ = _
  rw [h]
  exact hs

theorem onMessage_carries {text : Option Json}
    (h : ∀ sig, (receive text).join = some sig → f.agreesOn m sig) :
    f.Carries (onMessage text) e m := by
  rw [Carries, onMessage, Act.attempt_apply, Act.attempt_apply, processMessage, Act.bind_apply,
    Act.bind_apply, Act.ofOption_apply, Act.ofOption_apply]
  rcases hr : receive text with _ | _ | sig
  · rfl
  · rfl
  · have hs : f.Carries (onSignal sig) e m := onSignal_carries (h sig (by simp [hr]))
    simp only [Outcome.andThen_some, Outcome.after_nil]
    rw [hs]

/-- What has to agree for a callback not to see the change. -/
def agrees (f : Adjust) (m : Manager) : Callback → Prop
  | .wsOpened => f.publishStreamId m.publishStreamId = m.publishStreamId
  | cb => ∀ sig, cb.signal = some sig → f.agreesOn m sig

/-- Apart from the opening and the messages of the socket, no callback sees the change. -/
theorem deliver_ignored {cb : Callback} (hopen : cb ≠ .wsOpened)
    (hmessage : ∀ text, cb ≠ .wsMessage text) : f.Ignored (deliver cb) := by
  cases cb with
  | wsOpened => exact absurd rfl hopen
  | wsMessage text => exact absurd rfl (hmessage text)
  | wsClosed => exact .bind (.gets fun _ => rfl) fun _ => .ite (.modify fun _ => rfl) (.pure ())
  | track pc track =>
    refine .bind (.gets fun _ => rfl) fun found => ?_
    cases found with
    | some _ => exact f.addRemoteTrack_ignored _ _
    | none => exact .pure ()
  | trackData track data =>
    refine .bind (.gets fun _ => rfl) fun found => ?_
    cases found with
    | some _ => exact f.onTrackMessage_ignored _ _
    | none => exact .pure ()
  | localCandidate pc cand mid =>
    refine .bind (.gets fun _ => rfl) fun found => ?_
    cases found with
    | some _ => exact f.onLocalCandidate_ignored _ _ _
    | none => exact .pure ()
  | localDescription pc type sdp =>
    refine .bind (.gets fun _ => rfl) fun found => ?_
    cases found with
    | some _ => exact f.send_ignored _ _
    | none => exact .pure ()
  | dataChannel pc id label =>
    exact .bind (.gets fun _ => rfl) fun _ => .ite (f.onDataChannel_ignored id label) (.pure ())
  | channelText ch text =>
    refine .bind (.gets fun _ => rfl) fun found => ?_
    cases found with
    | some _ => exact f.handleDataChannelText_ignored text
    | none => exact .pure ()
  | peerClosed pc => exact .modify fun _ => rfl

theorem deliver_carries {cb : Callback} (h : f.agrees m cb) : f.Carries (deliver cb) e m := by
  have hdisconnected {x : Act Unit} (hc : m.connected = false) :
      f.Carries (do if ← Act.gets Manager.connected then x) e m := by
    have hc' : (f.apply m).connected = false := hc
    rw [Carries, Act.gets_bind, Act.gets_bind, hc, hc']
    rfl
  have hconnected (hc : m.connected = true) : (f.apply m).connected = true := hc
  cases cb with
  | wsOpened =>
    cases hc : m.connected with
    | false => exact hdisconnected hc
    | true =>
      rw [Carries, deliver_wsOpened (hconnected hc), deliver_wsOpened hc]
      exact onOpen_carries h
  | wsMessage text =>
    cases hc : m.connected with
    | false => exact hdisconnected hc
    | true =>
      rw [Carries, deliver_wsMessage (hconnected hc), deliver_wsMessage hc]
      exact onMessage_carries h
  | _ => exact deliver_ignored (by simp) (by simp) e m

/-- A step that cannot see the change makes the same calls and leaves the changed state. -/
theorem step_apply {ev : Event} (h : f.agrees m ev.what) :
    step ev (f.apply m) = (f.apply (step ev m).1, (step ev m).2) := by
  have hc : f.Carries (deliver ev.what) ev.env m := deliver_carries h
  simp only [step, stepOf]
  rw [hc]

end Adjust

end ConferenceCall

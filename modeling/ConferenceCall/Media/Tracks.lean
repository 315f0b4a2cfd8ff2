import ConferenceCall.Media.Studio
import ConferenceCall.Session.Connections

/-! What an input of the manager does about the media. Local tracks are added to a new connection
only, and only in a session that publishes; a packet comes from a remote track only. -/

namespace ConferenceCall.Media

open Library

/-- The call neither adds a local track nor hands a packet over. -/
def Apart (c : Invocation) : Prop := localTrack c = none ∧ packet c = none

/-- The tracks that are added belong to the next connection of a session that publishes. -/
def Adds (m m' : Manager) (calls : List Invocation) : Prop :=
  ∀ c ∈ calls, ∀ t, localTrack c = some t →
    t.pc = m.nextPc ∧ m.nextPc < m'.nextPc ∧ m'.isOnlyPlayer = false

variable {e : Env} {m m' : Manager} {s : String} {l l' : List Invocation}

section Calls

theorem adds_of_apart (h : ∀ c ∈ l, Apart c) : Adds m m' l := by
  intro c hc t ht
  rw [(h c hc).1] at ht
  cases ht

theorem Adds.append (h : Adds m m' l) (h' : Adds m m' l') : Adds m m' (l ++ l') :=
  fun c hc => (List.mem_append.mp hc).elim (h c) (h' c)

/-- Nothing but numbers of connections and the role matters. -/
theorem Adds.congr {n n' : Manager} (h : Adds m m' l) (hm : n.nextPc = m.nextPc)
    (hm' : n'.nextPc = m'.nextPc) (hrole : n'.isOnlyPlayer = m'.isOnlyPlayer) : Adds n n' l := by
  rw [Adds, hm, hm', hrole]
  exact h

theorem sent_apart (m : Manager) (e : Env) (site : Site) (build : SignalingCommand → Command) :
    ∀ c ∈ m.sent e site build, Apart c := by
  intro c hc
  obtain ⟨_, -, rfl⟩ := List.mem_map.mp hc
  exact ⟨rfl, rfl⟩

theorem closing_apart (ch : Option Channel) : ∀ c ∈ closingCalls e ch, Apart c := by
  cases ch with
  | none => simp [closingCalls]
  | some ch =>
    rw [closingCalls]
    split_ifs <;> simp [Apart, localTrack, packet]

theorem removal_apart : ∀ c ∈ removalCalls e m s, Apart c := by
  intro c hc
  rcases List.mem_append.mp hc with hc | hc
  · exact closing_apart _ c hc
  · rcases List.mem_append.mp hc with hc | hc
    · exact closing_apart _ c hc
    · obtain ⟨_, -, rfl⟩ := List.mem_map.mp hc
      exact ⟨rfl, rfl⟩

/-- The mids of the tracks to receive begin with `remote-`. -/
theorem addTrack_apart {media : Json} {mid type : String}
    (h : recvTrack media = some (some (mid, type))) (pc : ℕ) (b : Bool) :
    Apart ⟨.addTrack pc mid type, b⟩ := by
  obtain ⟨-, n, rfl⟩ := recvTrack_some h
  have hmid (kind : Kind) : "remote-" ++ type ++ "-" ++ n ≠ kind.mid := by
    intro heq
    have hchars := congrArg String.toList heq
    cases kind <;> simp [Kind.mid] at hchars
  simp [Apart, localTrack, packet, hmid]

theorem descriptionDeeds_apart (type sdp : String) (pending : Option (List Candidate)) (pc : ℕ) :
    ∀ d ∈ descriptionDeeds e type sdp pending, Apart (Deed.log s pc d) := by
  rintro ⟨d, b⟩ hd
  have hdescribed : d.described := descriptionDeeds_described type sdp pending (d, b) hd
  cases d with
  | create | close => exact hdescribed.elim
  | addTrack mid type =>
    obtain ⟨media, hmedia⟩ := hdescribed
    exact addTrack_apart hmedia pc b
  | _ => exact ⟨rfl, rfl⟩

theorem handleRemoteSDP_apart (type sdp : String) :
    ∀ c ∈ (handleRemoteSDP s type sdp e m).calls, Apart c := by
  cases hb : blocked e m s with
  | true => simp [handleRemoteSDP_of_blocked type sdp hb, Apart, localTrack, packet]
  | false =>
    rw [handleRemoteSDP_deeds type sdp hb]
    intro c hc
    obtain ⟨d, hd, rfl⟩ := List.mem_map.mp hc
    rcases List.mem_append.mp hd with hd | hd
    · split_ifs at hd
      · cases hd
      · rw [List.mem_singleton.mp hd]
        exact ⟨rfl, rfl⟩
    · exact descriptionDeeds_apart type sdp _ _ d hd

/-- No signal of the server is about the local media. -/
theorem onSignal_apart (sig : Signal) : ∀ c ∈ (onSignal sig e m).calls, Apart c := by
  cases sig with
  | onStartOfferer s =>
    rw [onSignal]
    cases hp : m.pcs.lookup s with
    | none => simp [startOffer_of_none hp]
    | some pc => simp [startOffer_of_some hp, Apart, localTrack, packet]
  | onRemoteSDP s type sdp => exact handleRemoteSDP_apart type sdp
  | onRemoteCandidate s cand mid =>
    rw [onSignal]
    cases hc : cand.isEmpty with
    | true => simp [addRemoteCandidate_of_empty hc]
    | false =>
      cases hp : m.pcs.lookup s with
      | none =>
        rw [addRemoteCandidate_of_none hc hp]
        split_ifs <;> simp
      | some pc =>
        rw [addRemoteCandidate_of_some hc hp]
        cases e.throws .candidate <;> simp [Apart, localTrack, packet]
  | onJoinedRoomNotification =>
    rw [onSignal, onJoinedRoomNotification_apply]
    exact sent_apart m e _ _
  | onPublishStartedNotification =>
    cases hs : m.sendPlay.lookup m.roomId with
    | none =>
      rw [onSignal, onPublishStartedNotification_of_none hs]
      exact sent_apart m e _ _
    | some b => simp [onSignal, onPublishStartedNotification_of_some hs]
  | onPlayStartedNotification s => simp [onSignal, onPlayStartedNotification_apply]
  | onPlayFinishedNotification s =>
    rw [onSignal]
    cases ht : s.isEmpty with
    | true => simp [onPlayFinishedNotification_of_empty ht]
    | false =>
      by_cases hr : s = m.roomId
      · rw [onPlayFinishedNotification_of_room ht hr]
        exact fun c hc => (List.mem_append.mp hc).elim (removal_apart c) (sent_apart m e _ _ c)
      · rw [onPlayFinishedNotification_of_other ht hr]
        exact removal_apart
  | onSubtrackAddedNotification s =>
    cases hp : m.plays s with
    | true =>
      rw [onSignal, onSubtrackAddedNotification_of_plays hp]
      exact sent_apart m e _ _
    | false => simp [onSignal, onSubtrackAddedNotification_of_not_plays hp]
  | onSubtrackRemovedNotification s => simp [onSignal, onSubtrackRemovedNotification_apply]

end Calls

/-! ### The publish peer -/

section Publisher

/-- What a setup leaves alone. -/
theorem setupPublishPeer_frame (s : String) (e : Env) (m : Manager) :
    (setupPublishPeer s e m).state.isCommunicating = m.isCommunicating ∧
      (setupPublishPeer s e m).state.gstManager = m.gstManager ∧
      (setupPublishPeer s e m).state.isOnlyPlayer = m.isOnlyPlayer := by
  cases hp : m.pcs.lookup s with
  | some pc =>
    rw [setupPublishPeer_of_some hp]
    exact ⟨rfl, rfl, rfl⟩
  | none =>
    cases ht : e.throws .createPeer with
    | true =>
      rw [setupPublishPeer_of_throws hp ht]
      exact ⟨rfl, rfl, rfl⟩
    | false =>
      rcases (setupPublishPeer_spec hp ht).1 with hs | ⟨-, hs⟩ <;> rw [hs] <;> exact ⟨rfl, rfl, rfl⟩

theorem localTrack_of_furnishes {c : Invocation} {pc : ℕ} {t : LocalTrack}
    (h : c.call.furnishes pc) (ht : localTrack c = some t) : t.pc = pc := by
  obtain ⟨call, b⟩ := c
  cases call with
  | addTrack pc' mid type =>
    have hpc : pc' = pc := h
    simp only [localTrack] at ht
    split_ifs at ht <;> cases ht <;> exact hpc
  | _ => cases ht

theorem packet_of_builds {c : Invocation} (h : c.call.builds) : packet c = none := by
  obtain ⟨call, b⟩ := c
  cases call <;> first | rfl | cases h

/-- A player has no local tracks. -/
theorem setupPublishPeer_player (hplayer : m.isOnlyPlayer) :
    ∀ c ∈ (setupPublishPeer s e m).calls, localTrack c = none := by
  cases hp : m.pcs.lookup s with
  | some pc => simp [setupPublishPeer_of_some hp]
  | none =>
    cases ht : e.throws .createPeer with
    | true => simp [setupPublishPeer_of_throws hp ht, localTrack]
    | false =>
      rw [setupPublishPeer_of_none hp ht]
      simp only [hplayer, Bool.not_true, Bool.false_eq_true, if_false, Outcome.after_calls]
      cases hl : (m.withPublisher s).localDataChannels.lookup s <;>
        cases hd : e.throws .createDataChannel <;>
        simp [createLocalChannel, hl, call_apply, hd, localTrack]

theorem setupPublishPeer_adds (s : String) (e : Env) (m : Manager) :
    Adds m (setupPublishPeer s e m).state (setupPublishPeer s e m).calls := by
  intro c hc t ht
  obtain ⟨-, -, hrole⟩ := setupPublishPeer_frame s e m
  cases hplayer : m.isOnlyPlayer with
  | true =>
    rw [setupPublishPeer_player hplayer c hc] at ht
    cases ht
  | false =>
    cases hp : m.pcs.lookup s with
    | some pc => simp [setupPublishPeer_of_some hp] at hc
    | none =>
      cases hthrows : e.throws .createPeer with
      | true =>
        rw [setupPublishPeer_of_throws hp hthrows, List.mem_singleton] at hc
        subst hc
        cases ht
      | false =>
        obtain ⟨l, hl, hfurnishes⟩ := setupPublishPeer_furnishes hp hthrows
        rw [hl] at hc
        refine ⟨?_, ?_, hrole.trans hplayer⟩
        · rcases List.mem_cons.mp hc with rfl | hc
          · cases ht
          · exact localTrack_of_furnishes (hfurnishes c hc) ht
        · rcases (setupPublishPeer_spec hp hthrows).1 with hs | ⟨-, hs⟩ <;> rw [hs] <;>
            simp [Manager.nextPc, Manager.withLocalChannel, Manager.withPublisher, Manager.withPeer]

theorem setupPublishPeer_packets (s : String) (e : Env) (m : Manager) :
    ∀ c ∈ (setupPublishPeer s e m).calls, packet c = none := by
  intro c hc
  cases hp : m.pcs.lookup s with
  | some pc => simp [setupPublishPeer_of_some hp] at hc
  | none =>
    cases ht : e.throws .createPeer with
    | true =>
      rw [setupPublishPeer_of_throws hp ht, List.mem_singleton] at hc
      rw [hc]
      rfl
    | false => exact packet_of_builds ((setupPublishPeer_spec hp ht).2 c hc)

theorem onOpen_adds (e : Env) (m : Manager) : Adds m (onOpen e m).state (onOpen e m).calls := by
  have hsetup : Adds m _ _ := setupPublishPeer_adds m.publishStreamId e (m.setWsOpen true)
  rw [onOpen_state]
  rw [onOpen_eq]
  rcases hs : setupPublishPeer m.publishStreamId e (m.setWsOpen true) with ⟨_ | _, m', o⟩ <;>
    rw [hs] at hsetup
  · exact hsetup
  · simp only [Outcome.andThen_some, send_apply, Outcome.after_calls]
    exact hsetup.append (adds_of_apart (sent_apart m' e _ _))

theorem onOpen_packets (e : Env) (m : Manager) : ∀ c ∈ (onOpen e m).calls, packet c = none := by
  have hsetup := setupPublishPeer_packets m.publishStreamId e (m.setWsOpen true)
  rw [onOpen_eq]
  rcases hs : setupPublishPeer m.publishStreamId e (m.setWsOpen true) with ⟨_ | _, m', o⟩ <;>
    rw [hs] at hsetup
  · exact hsetup
  · simp only [Outcome.andThen_some, send_apply, Outcome.after_calls]
    exact fun c hc => (List.mem_append.mp hc).elim (hsetup c) fun hc => (sent_apart m' e _ _ c hc).2

end Publisher

/-! ### Callbacks -/

section Callbacks

/-- A callback that is none of the socket opened and of a packet is not about the media. -/
theorem deliver_apart {cb : Callback} (hopen : cb ≠ .wsOpened)
    (hdata : ∀ track data, cb ≠ .trackData track data) : ∀ c ∈ (deliver cb e m).calls, Apart c := by
  cases cb with
  | wsOpened => exact absurd rfl hopen
  | wsClosed => cases hc : m.connected <;> simp [deliver, hc, onClosed]
  | wsMessage text =>
    cases hc : m.connected with
    | true =>
      rw [deliver_wsMessage hc, onMessage, Act.attempt_apply, processMessage, Act.bind_apply,
        Act.ofOption_apply]
      rcases receive text with _ | _ | sig
      · simp
      · simp
      · exact onSignal_apart sig
    | false => simp [deliver, hc]
  | track pc track => cases hc : m.captured pc <;> simp [deliver, hc, addRemoteTrack]
  | trackData track data => exact absurd rfl (hdata track data)
  | localCandidate pc cand mid =>
    cases hc : m.captured pc with
    | none => simp [deliver, hc]
    | some s =>
      simp only [deliver, Act.gets_bind, hc]
      cases hs : m.signaling with
      | none => simp [onLocalCandidate, hs]
      | some c => simp [onLocalCandidate_of_some hs, Apart, localTrack, packet]
  | localDescription pc type sdp =>
    cases hc : m.captured pc with
    | none => simp [deliver, hc]
    | some s =>
      simp only [deliver, Act.gets_bind, hc, onLocalDescription, send_apply]
      exact sent_apart m e _ _
  | dataChannel pc id label =>
    cases ha : m.announces pc <;> cases hl : m.remoteDataChannels.lookup label <;>
      simp [deliver, ha, onDataChannel, hl]
  | channelText ch text =>
    cases hh : m.channelHandlers.lookup ch with
    | none => simp [deliver_channelText_of_none hh]
    | some label => simp [deliver_channelText_of_some hh, handleDataChannelText_calls]
  | peerClosed pc => simp [deliver]

/-- A packet of an audio track is handed over in a session. -/
theorem deliver_trackData_calls (track : ℕ) (data : List UInt8) :
    (deliver (.trackData track data) e m).calls =
      if m.gstManager ∧ ∃ h, m.trackHandlers.lookup track = some h ∧ h.kind = "audio" then
        [⟨.pushAudioFrame data, true⟩] else [] := by
  cases ht : m.trackHandlers.lookup track with
  | none => simp [deliver_trackData_of_none ht]
  | some h =>
    rw [deliver_trackData_of_some ht, onTrackMessage_apply]
    by_cases hk : h.kind = "audio" <;> cases hg : m.gstManager <;> simp [hk]

theorem deliver_adds (cb : Callback) (e : Env) (m : Manager) :
    Adds m (deliver cb e m).state (deliver cb e m).calls := by
  by_cases hopen : cb = .wsOpened
  · subst hopen
    cases hc : m.connected with
    | true =>
      rw [deliver_wsOpened hc]
      exact onOpen_adds e m
    | false => exact adds_of_apart (by simp [deliver, hc])
  · by_cases hdata : ∃ track data, cb = .trackData track data
    · obtain ⟨track, data, rfl⟩ := hdata
      rw [deliver_trackData_calls]
      intro c hc t ht
      split_ifs at hc
      · rw [List.mem_singleton.mp hc] at ht
        cases ht
      · cases hc
    · exact adds_of_apart (deliver_apart hopen fun track data h => hdata ⟨track, data, h⟩)

/-- The role is that of the start. -/
theorem deliver_role (cb : Callback) (e : Env) (m : Manager) :
    (deliver cb e m).state.isOnlyPlayer = m.isOnlyPlayer := by
  rcases step_change_or_stays ⟨cb, e⟩ m with hs | hchange
  · exact congrArg Manager.isOnlyPlayer hs
  · change (step ⟨cb, e⟩ m).1.isOnlyPlayer = m.isOnlyPlayer
    generalize (step ⟨cb, e⟩ m).1 = m' at hchange ⊢
    cases hchange with
    | signal hsig =>
      rename_i sig
      obtain ⟨_, _, _, _, _, _, _, _, _, _, hs⟩ := onSignal_frame sig e m
      rw [hs]
    | _ => rfl

end Callbacks

end ConferenceCall.Media

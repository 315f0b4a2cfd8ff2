import ConferenceCall.Manager.Publish
import ConferenceCall.Manager.Session
import ConferenceCall.Manager.Signals

/-! What one callback can do to a connected manager, said once. A signal relinks
the connections and updates four maps; every other callback makes one of a few
changes. The invariants of sessions are case analyses over these. -/

namespace ConferenceCall

open Library

/-- The signal a callback delivers. -/
def Callback.signal : Callback → Option Signal
  | .wsMessage text => (receive text).join
  | _ => none

/-- The talk state a chat message announces, with its sender. -/
def announcedTalk (j : Json) : Option (String × Bool) :=
  match chatText j with
  | some (some (senderId, msgText)) =>
    if msgText == "iamtalking" then some (senderId, true)
    else if msgText == "iammute" then some (senderId, false)
    else none
  | _ => none

/-- The talk state a callback delivers to a registered handler. -/
def Manager.accepts (m : Manager) : Callback → Option (String × Bool)
  | .channelText ch (some j) => if (m.channelHandlers.lookup ch).isSome then announcedTalk j else none
  | _ => none

@[simp] theorem Signal.event_signal (sig : Signal) (env : Env) :
    (sig.event env).what.signal = some sig := by
  simp [Signal.event, Callback.signal, receive_text]

/-- A signal reaches its handler. -/
theorem step_signal {ev : Event} {m : Manager} {sig : Signal} (h : m.connected)
    (hs : ev.what.signal = some sig) :
    step ev m = ((onSignal sig ev.env m).state, (onSignal sig ev.env m).calls) := by
  obtain ⟨cb, e⟩ := ev
  cases cb with
  | wsMessage text =>
    rcases hr : receive text with _ | _ | sig' <;> simp only [Callback.signal, hr, Option.join_none,
      Option.join_some, reduceCtorEq, Option.some.injEq] at hs
    subst hs
    simp only [step, stepOf, deliver_wsMessage h, onMessage, Act.attempt_apply, processMessage,
      Act.bind_apply, Act.ofOption_apply, hr, Outcome.andThen_some, Outcome.after_nil]
  | _ => cases hs

variable {e : Env} {m : Manager}

/-! ### Callbacks -/

/-- What a signaling context is besides the open flag and the candidate counter. -/
def SignalingContext.client (ctx : SignalingContext) : String × Option (String × String) :=
  (ctx.roomId, ctx.signaling.map fun c => (c.selfStreamId, c.roomId))

/-- A callback that finds nothing to do, apart from the open flag and the counter. -/
def Manager.ignores (m : Manager) (e : Env) : Callback → Prop
  | .wsOpened => (m.pcs.lookup m.publishStreamId).isSome ∨ e.throws .createPeer
  | .wsMessage text => (receive text).join = none
  | .track pc _ => m.captured pc = none
  | .dataChannel pc _ label => m.announces pc = false ∨ (m.remoteDataChannels.lookup label).isSome
  | .channelText ch text => m.accepts (.channelText ch text) = none
  | .peerClosed _ => False
  | _ => True

/-- The changes a callback can make to a connected manager. -/
inductive Change (e : Env) (m : Manager) : Callback → Manager → Prop where
  | signal {text : Option Json} {sig : Signal} (h : (receive text).join = some sig) :
    Change e m (.wsMessage text) (onSignal sig e m).state
  | context {cb : Callback} (ctx : Option SignalingContext) (h : m.ignores e cb)
    (hctx : ctx.map SignalingContext.client = m.signalingContext.map SignalingContext.client) :
    Change e m cb { m with signalingContext := ctx }
  | publisher (h : m.pcs.lookup m.publishStreamId = none) (ht : e.throws .createPeer = false) :
    Change e m .wsOpened ((m.setWsOpen true).withPublisher m.publishStreamId)
  | publisherWithChannel (h : m.pcs.lookup m.publishStreamId = none)
    (ht : e.throws .createPeer = false)
    (hl : m.localDataChannels.lookup m.publishStreamId = none) :
    Change e m .wsOpened (((m.setWsOpen true).withPublisher m.publishStreamId).withLocalChannel
      m.publishStreamId m.nextPc)
  | track {pc : ℕ} {track : Track} {streamId : String} (h : m.captured pc = some streamId) :
    Change e m (.track pc track)
      { m with
        remoteTracks := m.remoteTracks.insert streamId
          ((m.remoteTracks.lookup streamId).getD [] ++ [track])
        trackHandlers := m.trackHandlers.insert track.id
          ⟨(m.midTypeMap.lookup track.mid).getD track.type, streamId⟩ }
  | channel {pc id : ℕ} {label : String} (h : m.announces pc)
    (hl : m.remoteDataChannels.lookup label = none) :
    Change e m (.dataChannel pc id label)
      { m with
        remoteDataChannels := m.remoteDataChannels.insert label (.remote id)
        channelHandlers := m.channelHandlers.insert (.remote id) label }
  | talk {ch : Channel} {text : Option Json} {streamId : String} {talking : Bool}
    (h : m.accepts (.channelText ch text) = some (streamId, talking)) :
    Change e m (.channelText ch text)
      { m with isStreamTalking := m.isStreamTalking.insert streamId talking }
  | closed (pc : ℕ) :
    Change e m (.peerClosed pc) (m.updatePeer pc fun p => { p with closed := true })

theorem Change.stays {cb : Callback} (h : m.ignores e cb) : Change e m cb m :=
  .context m.signalingContext h rfl

theorem setWsOpen_client (m : Manager) (b : Bool) :
    (m.setWsOpen b).signalingContext.map SignalingContext.client =
      m.signalingContext.map SignalingContext.client := by
  cases h : m.signalingContext <;> simp [Manager.setWsOpen, h, SignalingContext.client]

theorem setSignaling_client {c : SignalingCommand} (h : m.signaling = some c) (n : ℤ) :
    (m.setSignaling { c with candLabel := n }).signalingContext.map SignalingContext.client =
      m.signalingContext.map SignalingContext.client := by
  cases hx : m.signalingContext with
  | none => simp [Manager.setSignaling, hx]
  | some ctx =>
    have hc : ctx.signaling = some c := by simpa [Manager.signaling, hx] using h
    simp [Manager.setSignaling, hx, SignalingContext.client, hc]

/-- The handshake of `onOpen` up to `SendJoinRoom`. -/
theorem onOpen_eq (e : Env) (m : Manager) : onOpen e m =
    (setupPublishPeer m.publishStreamId e (m.setWsOpen true)).andThen
      fun _ => send .sendJoinRoom (·.sendJoinRoom) e := rfl

theorem onOpen_state (e : Env) (m : Manager) :
    (onOpen e m).state = (setupPublishPeer m.publishStreamId e (m.setWsOpen true)).state := by
  rw [onOpen_eq]
  rcases setupPublishPeer m.publishStreamId e (m.setWsOpen true) with ⟨_ | _, t, o⟩
  · rfl
  · simp [send_apply]

theorem onOpen_routine : ∀ c ∈ (onOpen e m).calls, Routine c := by
  have hsetup : ∀ c ∈ (setupPublishPeer m.publishStreamId e (m.setWsOpen true)).calls, Routine c :=
    setupPublishPeer_routine
  rw [onOpen_eq]
  rcases hs : setupPublishPeer m.publishStreamId e (m.setWsOpen true) with ⟨_ | _, t, o⟩ <;>
    rw [hs] at hsetup
  · exact hsetup
  · simp only [Outcome.andThen_some, send_apply]
    intro c hc
    rcases List.mem_append.mp hc with hc | hc
    · exact hsetup c hc
    · obtain ⟨client, -, rfl⟩ := List.mem_map.mp hc
      exact ⟨rfl, rfl⟩

theorem onOpen_change (e : Env) (m : Manager) : Change e m .wsOpened (onOpen e m).state := by
  have hp : (m.setWsOpen true).pcs = m.pcs := rfl
  rw [onOpen_state]
  cases h : m.pcs.lookup m.publishStreamId with
  | some pc =>
    rw [setupPublishPeer_of_some (by rw [hp, h])]
    exact .context _ (.inl (by simp [h])) (setWsOpen_client m true)
  | none =>
    cases ht : e.throws .createPeer with
    | true =>
      rw [setupPublishPeer_of_throws (by rw [hp, h]) ht]
      exact .context _ (.inr ht) (setWsOpen_client m true)
    | false =>
      rcases (setupPublishPeer_spec (by rw [hp, h]) ht).1 with hs | ⟨hl, hs⟩ <;> rw [hs]
      · exact .publisher h ht
      · exact .publisherWithChannel h ht hl

theorem handleDataChannelText_calls (text : Option Json) (e : Env) (m : Manager) :
    (handleDataChannelText text e m).calls = [] := by
  cases text with
  | none => rfl
  | some j =>
    rcases hc : chatText j with _ | _ | ⟨senderId, msgText⟩
    · simp [handleDataChannelText, hc]
    · simp [handleDataChannelText, hc]
    · simp only [handleDataChannelText, Act.bind_apply, Act.ofOption_apply, hc,
        Outcome.andThen_some, Outcome.after_nil, Act.ite_apply, Act.modify_apply, Act.pure_apply]
      split_ifs <;> rfl

theorem handleDataChannelText_change {ch : Channel} (text : Option Json)
    (h : (m.channelHandlers.lookup ch).isSome) :
    Change e m (.channelText ch text) (handleDataChannelText text e m).state := by
  cases text with
  | none => exact .stays rfl
  | some j =>
    have hacc : m.accepts (.channelText ch (some j)) = announcedTalk j := if_pos h
    rcases hc : chatText j with _ | _ | ⟨senderId, msgText⟩
    · rw [handleDataChannelText, Act.bind_apply, Act.ofOption_apply, hc]
      exact .stays (by simp [Manager.ignores, hacc, announcedTalk, hc])
    · rw [handleDataChannelText, Act.bind_apply, Act.ofOption_apply, hc]
      exact .stays (by simp [Manager.ignores, hacc, announcedTalk, hc])
    · simp only [handleDataChannelText, Act.bind_apply, Act.ofOption_apply, hc,
        Outcome.andThen_some, Outcome.after_nil, Act.ite_apply, Act.modify_apply, Act.pure_apply]
      split_ifs with ht hm
      · exact .talk (by simp [hacc, announcedTalk, hc, ht])
      · exact .talk (by simp [hacc, announcedTalk, hc, ht, hm])
      · exact .stays (by simp [Manager.ignores, hacc, announcedTalk, hc, ht, hm])

/-- A step without a signal neither negotiates nor asks for a stream. -/
theorem step_routine {ev : Event} {m : Manager} (h : m.connected) (hs : ev.what.signal = none) :
    ∀ c ∈ (step ev m).2, Routine c := by
  obtain ⟨cb, e⟩ := ev
  change ∀ c ∈ (deliver cb e m).calls, Routine c
  cases cb with
  | wsOpened =>
    rw [deliver_wsOpened h]
    exact onOpen_routine
  | wsClosed => simp [deliver_wsClosed h, onClosed]
  | wsMessage text =>
    rw [deliver_wsMessage h, onMessage, Act.attempt_apply, processMessage, Act.bind_apply,
      Act.ofOption_apply]
    rcases hr : receive text with _ | _ | sig
    · simp
    · simp
    · simp [Callback.signal, hr] at hs
  | track pc track =>
    cases hc : m.captured pc <;> simp [deliver, hc, addRemoteTrack]
  | trackData track data =>
    cases ht : m.trackHandlers.lookup track with
    | none => simp [deliver_trackData_of_none ht]
    | some handler =>
      rw [deliver_trackData_of_some ht, onTrackMessage_apply]
      split_ifs <;> simp [Routine, Quiet, Call.negotiates, Call.plays]
  | localCandidate pc cand mid =>
    obtain ⟨c, hs⟩ := Option.isSome_iff_exists.mp h
    cases hc : m.captured pc with
    | none => simp [deliver, hc]
    | some streamId =>
      simp [deliver, hc, onLocalCandidate_of_some hs, Routine, Quiet, Call.negotiates, Call.plays,
        SignalingCommand.sendTakeCandidate]
  | localDescription pc type sdp =>
    cases hc : m.captured pc with
    | none => simp [deliver, hc]
    | some streamId =>
      simp only [deliver, Act.gets_bind, hc, onLocalDescription, send_apply]
      intro c hc
      obtain ⟨client, -, rfl⟩ := List.mem_map.mp hc
      exact ⟨rfl, rfl⟩
  | dataChannel pc id label =>
    cases ha : m.announces pc <;> cases hl : m.remoteDataChannels.lookup label <;>
      simp [deliver, ha, onDataChannel, hl]
  | channelText ch text =>
    cases hh : m.channelHandlers.lookup ch with
    | none => simp [deliver_channelText_of_none hh]
    | some label => simp [deliver_channelText_of_some hh, handleDataChannelText_calls]
  | peerClosed pc => simp [deliver]

/-- A callback of the signaling socket. -/
def Callback.onSocket : Callback → Bool
  | .wsOpened | .wsClosed | .wsMessage _ => true
  | _ => false

/-- A callback of a connection, a channel or a track makes one of the changes. -/
theorem deliver_change {cb : Callback} (hcb : cb.onSocket = false) (e : Env) (m : Manager) :
    Change e m cb (deliver cb e m).state := by
  cases cb with
  | wsOpened => cases hcb
  | wsClosed => cases hcb
  | wsMessage text => cases hcb
  | track pc track =>
    cases hc : m.captured pc with
    | none =>
      simp only [deliver, Act.gets_bind, hc]
      exact .stays hc
    | some streamId =>
      simp only [deliver, Act.gets_bind, hc]
      exact .track hc
  | trackData track data =>
    cases ht : m.trackHandlers.lookup track with
    | none =>
      rw [deliver_trackData_of_none ht]
      exact .stays trivial
    | some handler =>
      rw [deliver_trackData_of_some ht, onTrackMessage_apply]
      exact .stays trivial
  | localCandidate pc cand mid =>
    cases hc : m.captured pc with
    | none =>
      simp only [deliver, Act.gets_bind, hc]
      exact .stays trivial
    | some streamId =>
      simp only [deliver, Act.gets_bind, hc]
      cases hs : m.signaling with
      | none =>
        simp only [onLocalCandidate, Act.gets_bind, hs]
        exact .stays trivial
      | some c =>
        rw [onLocalCandidate_of_some hs]
        exact .context _ trivial (setSignaling_client hs _)
  | localDescription pc type sdp =>
    cases hc : m.captured pc with
    | none =>
      simp only [deliver, Act.gets_bind, hc]
      exact .stays trivial
    | some streamId =>
      simp only [deliver, Act.gets_bind, hc, onLocalDescription, send_apply]
      exact .stays trivial
  | dataChannel pc id label =>
    cases ha : m.announces pc with
    | false =>
      simp only [deliver, Act.gets_bind, ha]
      exact .stays (.inl ha)
    | true =>
      simp only [deliver, Act.gets_bind, ha, if_true, onDataChannel]
      cases hl : m.remoteDataChannels.lookup label with
      | none => exact .channel ha hl
      | some ch => exact .stays (.inr (by simp [hl]))
  | channelText ch text =>
    cases hh : m.channelHandlers.lookup ch with
    | none =>
      rw [deliver_channelText_of_none hh]
      refine .stays ?_
      cases text <;> simp [Manager.ignores, Manager.accepts, hh]
    | some label =>
      rw [deliver_channelText_of_some hh]
      exact handleDataChannelText_change text (by simp [hh])
  | peerClosed pc => exact .closed pc

/-- Every step of a connected manager makes one of the changes. -/
theorem step_change (ev : Event) {m : Manager} (h : m.connected) :
    Change ev.env m ev.what (step ev m).1 := by
  obtain ⟨cb, e⟩ := ev
  change Change e m cb (deliver cb e m).state
  cases cb with
  | wsOpened =>
    rw [deliver_wsOpened h]
    exact onOpen_change e m
  | wsClosed =>
    rw [deliver_wsClosed h]
    exact .context _ trivial (setWsOpen_client m false)
  | wsMessage text =>
    rw [deliver_wsMessage h, onMessage, Act.attempt_apply, processMessage, Act.bind_apply,
      Act.ofOption_apply]
    rcases hr : receive text with _ | _ | sig
    · exact .stays (by simp [Manager.ignores, hr])
    · exact .stays (by simp [Manager.ignores, hr])
    · exact .signal (by simp [hr])
  | _ => exact deliver_change rfl e m

/-- Without a client the socket is silent, so every step makes one of the changes or none. -/
theorem step_change_or_stays (ev : Event) (m : Manager) :
    (step ev m).1 = m ∨ Change ev.env m ev.what (step ev m).1 := by
  cases hc : m.connected with
  | true => exact .inr (step_change ev hc)
  | false =>
    obtain ⟨cb, e⟩ := ev
    change (deliver cb e m).state = m ∨ Change e m cb (deliver cb e m).state
    cases cb with
    | wsOpened | wsClosed | wsMessage text => exact .inl (by simp [deliver, hc])
    | _ => exact .inr (deliver_change rfl e m)

end ConferenceCall

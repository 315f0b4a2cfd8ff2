import ConferenceCall.Library.Machine
import ConferenceCall.Manager.Handlers

/-! The public API of `WebRTCManager`, and its runs: API calls and library
callbacks in any order, each with its own environment. -/

namespace ConferenceCall

open Library

def setRoomId (roomId : String) : Act Unit := Act.modify fun m => { m with roomId }

def setStreamId (streamId : String) : Act Unit :=
  Act.modify fun m => { m with publishStreamId := streamId }

def setSignalingServerURL (url : String) : Act Unit :=
  Act.modify fun m => { m with signalingServerUrl := url }

/-- `Connect` returns whether `open` did not throw. -/
def connect (url publishStreamId : String) : Act Bool := do
  Act.modify fun m => { m with
    signalingContext := m.signalingContext.map fun ctx =>
      { ctx with
        wsOpen := false
        signaling := some { selfStreamId := publishStreamId, roomId := ctx.roomId } } }
  let failed ← Act.ask fun e => e.throws .openSocket
  Act.record ⟨.openSocket url, !failed⟩
  return !failed

namespace Manager

/-- The session is left properly: stop and leave are sent. -/
def leaves (m : Manager) : Bool :=
  m.signalingContext.isSome && !m.publishStreamId.isEmpty &&
    (m.isPublisher.lookup m.publishStreamId).getD false

/-- Every connection in the map loses its callbacks and is closed. -/
def closeAll (m : Manager) : List Peer :=
  m.peers.mapIdx fun pc p => if pc ∈ m.pcs.values then { p.close with callbacks := false } else p

/-- All trackers are cleared and the owned objects are gone. The maps are the only owners of the
channels and the remote tracks, so these lose their handlers. -/
def cleared (m : Manager) : Manager :=
  { m with
    gstManager := false
    signalingContext := none
    pcs := ∅
    isPublisher := ∅
    sendPlay := ∅
    played := ∅
    remoteTracks := ∅
    pendingCandidates := ∅
    midTypeMap := ∅
    localDataChannels := ∅
    remoteDataChannels := ∅
    isStreamTalking := ∅
    channelHandlers := ∅
    trackHandlers := ∅
    peers := m.closeAll }

/-- The signaling socket is believed to be open. -/
def wsOpen (m : Manager) : Bool := m.signalingContext.any SignalingContext.wsOpen

end Manager

/-- The `try` block of `cleanupResources`. -/
def sendStopAndLeave : Act Unit := do
  send .sendStopPublish (·.sendStopPublish)
  send .sendStopPlayRoom (·.sendStopPlayRoom)
  send .sendLeaveRoom (·.sendLeaveRoom)

/-- The first part of `cleanupResources`. -/
def sendLeave : Act Unit := do
  if ← Act.gets Manager.leaves then Act.attempt sendStopAndLeave

/-- The connections are closed in the order of the map, which is unspecified, so
these calls are kept in the state only. -/
def cleanupResources : Act Unit := do
  sendLeave
  let wsOpen ← Act.gets Manager.wsOpen
  Act.modify Manager.cleared
  if wsOpen then callNoexcept .closeSocket

/-- The failure path of `Start2WayCommunication`. -/
def abandon : Act Bool := do
  cleanupResources
  Act.modify fun m => { m with isCommunicating := false }
  return false

def start2WayCommunication (isPlayer : Bool) : Act Bool := do
  if ← Act.gets Manager.isCommunicating then return true
  else
    let url ← Act.gets Manager.signalingServerUrl
    if url.isEmpty || url == "AMS_WEBSOCKET_URL" then return false
    else
      Act.modify fun m => { m with isOnlyPlayer := isPlayer, isCommunicating := true }
      Act.modify fun m => { m with
        gstManager := true
        signalingContext := some { roomId := m.roomId } }
      let streamId ← Act.gets Manager.publishStreamId
      setupPublishPeer streamId
      if ← connect url streamId then return true else abandon

def stop2WayCommunication : Act Unit := do
  if ← Act.gets Manager.isCommunicating then
    cleanupResources
    Act.modify fun m => { m with isCommunicating := false }

/-- `SendChatMessage` once it has read its own id. -/
def sendChat (text senderId date : String) : Act Unit := do
  check .chatDump
  match ← Act.gets fun m => m.localDataChannels.lookup senderId with
  | some dc =>
    if ← Act.ask fun e => e.isOpen dc then call .chatSend (.sendText dc ⟨text, senderId, date⟩)
  | none => pure ()

/-- `date` is the formatted current time. -/
def sendChatMessage (text date : String) : Act Unit := do
  if ← Act.gets fun m => m.isCommunicating && m.wsOpen then
    let senderId ← Act.gets Manager.publishStreamId
    sendChat text senderId date

def sendBinaryMessage (data : List UInt8) (label : String) : Act Unit := do
  match ← Act.gets fun m => m.localDataChannels.lookup label with
  | some dc => if ← Act.ask fun e => e.isOpen dc then call .binarySend (.sendBinary dc data)
  | none => pure ()

/-! ### What ending a session does -/

section
variable {e : Env} {m : Manager}

/-- The leave commands, each sent only when the one before it did not throw. -/
def leaveCalls (e : Env) (own room : String) : List Invocation :=
  ⟨.send (.stop own), !e.throws .sendStopPublish⟩ ::
    if e.throws .sendStopPublish then [] else
      ⟨.send (.stop room), !e.throws .sendStopPlayRoom⟩ ::
        if e.throws .sendStopPlayRoom then [] else
          [⟨.send (.leaveFromRoom room), !e.throws .sendLeaveRoom⟩]

theorem sendLeave_of_leaves {c : SignalingCommand} (h : m.leaves) (hc : m.signaling = some c) :
    sendLeave e m = ⟨some (), m, leaveCalls e c.selfStreamId c.roomId⟩ := by
  cases h₁ : e.throws .sendStopPublish <;> cases h₂ : e.throws .sendStopPlayRoom <;>
    cases h₃ : e.throws .sendLeaveRoom <;>
    simp [sendLeave, sendStopAndLeave, h, send_apply, Manager.sendFails, Manager.sent, hc, h₁, h₂,
      h₃, leaveCalls, Outcome.after, SignalingCommand.sendStopPublish,
      SignalingCommand.sendStopPlayRoom, SignalingCommand.sendLeaveRoom]

theorem sendLeave_of_not_leaves (h : m.leaves = false) : sendLeave e m = ⟨some (), m, []⟩ := by
  simp [sendLeave, h]

theorem sendStopAndLeave_within : Act.Within Eq Quiet sendStopAndLeave := by
  have hsend (site : Site) (build : SignalingCommand → Command) :
      Act.Within Eq Quiet (send site build) := fun e m => by
    rw [send_apply]
    exact ⟨rfl, sent_quiet⟩
  have hT (m₁ m₂ m₃ : Manager) (h : m₁ = m₂) (h' : m₂ = m₃) : m₁ = m₃ := h.trans h'
  exact Act.Within.bind hT (hsend _ _) fun _ => Act.Within.bind hT (hsend _ _) fun _ => hsend _ _

/-- Leaving changes nothing and always completes. -/
theorem sendLeave_spec (e : Env) (m : Manager) :
    ∃ calls, sendLeave e m = ⟨some (), m, calls⟩ ∧ ∀ c ∈ calls, Quiet c := by
  cases h : m.leaves with
  | false => exact ⟨[], sendLeave_of_not_leaves h, by simp⟩
  | true =>
    obtain ⟨hs, hc⟩ := sendStopAndLeave_within e m
    refine ⟨(sendStopAndLeave e m).calls, ?_, hc⟩
    simp only [sendLeave, Act.bind_apply, Act.gets_apply, h, Outcome.andThen_some, if_true,
      Act.attempt_apply, Outcome.after_nil, ← hs]

/-- What cleaning up says to the server. -/
theorem cleanupResources_apply (e : Env) (m : Manager) : cleanupResources e m =
    ⟨some (), m.cleared,
      (sendLeave e m).calls ++ if m.wsOpen then [⟨.closeSocket, true⟩] else []⟩ := by
  obtain ⟨calls, h, -⟩ := sendLeave_spec e m
  cases hw : m.wsOpen <;> simp [cleanupResources, h, hw, Outcome.after]

namespace Manager

/-- `Start2WayCommunication` gives up on this URL. -/
def lacksUrl (m : Manager) : Bool :=
  m.signalingServerUrl.isEmpty || m.signalingServerUrl == "AMS_WEBSOCKET_URL"

/-- The manager when the publish peer of a new session is set up. -/
def starting (m : Manager) (isPlayer : Bool) : Manager :=
  { m with
    isOnlyPlayer := isPlayer
    isCommunicating := true
    gstManager := true
    signalingContext := some { roomId := m.roomId } }

end Manager

theorem start2WayCommunication_of_running (isPlayer : Bool) (e : Env) (h : m.isCommunicating) :
    start2WayCommunication isPlayer e m = ⟨some true, m, []⟩ := by
  simp [start2WayCommunication, h]

/-- A start on a manager without a session. -/
theorem start2WayCommunication_apply (isPlayer : Bool) (e : Env) (h : m.isCommunicating = false) :
    start2WayCommunication isPlayer e m =
      if m.lacksUrl then ⟨some false, m, []⟩
      else (do
        setupPublishPeer m.publishStreamId
        if ← connect m.signalingServerUrl m.publishStreamId then return true
        else abandon : Act Bool) e (m.starting isPlayer) := by
  have hurl : (m.signalingServerUrl.isEmpty || m.signalingServerUrl == "AMS_WEBSOCKET_URL") =
      m.lacksUrl := rfl
  simp only [start2WayCommunication, Act.gets_bind, h, Bool.false_eq_true, if_false, hurl]
  cases m.lacksUrl <;> rfl

theorem stop2WayCommunication_apply (h : m.isCommunicating) : stop2WayCommunication e m =
    ⟨some (), { m.cleared with isCommunicating := false },
      (sendLeave e m).calls ++ if m.wsOpen then [⟨.closeSocket, true⟩] else []⟩ := by
  simp [stop2WayCommunication, h, cleanupResources_apply, Outcome.after]

theorem stop2WayCommunication_calls (h : m.isCommunicating) :
    (stop2WayCommunication e m).calls =
      (sendLeave e m).calls ++ if m.wsOpen then [⟨.closeSocket, true⟩] else [] := by
  rw [stop2WayCommunication_apply h]

end

/-! ### Events -/

/-- What the libraries deliver to the manager. Texts are given by what they parse to. -/
inductive Callback where
  | wsOpened
  | wsClosed
  | wsMessage (text : Option Json)
  | track (pc : ℕ) (track : Track)
  | trackData (track : ℕ) (data : List UInt8)
  | localCandidate (pc : ℕ) (cand mid : String)
  | localDescription (pc : ℕ) (type : SdpType) (sdp : String)
  | dataChannel (pc id : ℕ) (label : String)
  | channelText (ch : Channel) (text : Option Json)
  | peerClosed (pc : ℕ)

/-- The id a connection's callbacks capture, while they are installed. -/
def Manager.captured (m : Manager) (pc : ℕ) : Option String :=
  (m.peers[pc]?).bind fun p => if p.callbacks then some p.streamId else none

/-- The `onDataChannel` slot of a connection is set. -/
def Manager.announces (m : Manager) (pc : ℕ) : Bool := (m.peers[pc]?).any Peer.needDC

/-- The socket's slots are set from `Connect` to `Disconnect`. -/
def Manager.connected (m : Manager) : Bool := m.signaling.isSome

/-- Invoke the handler registered for a callback, if there is one. -/
def deliver : Callback → Act Unit
  | .wsOpened => do if ← Act.gets Manager.connected then onOpen
  | .wsClosed => do if ← Act.gets Manager.connected then onClosed
  | .wsMessage text => do if ← Act.gets Manager.connected then onMessage text
  | .track pc track => do
    match ← Act.gets fun m => m.captured pc with
    | some streamId => addRemoteTrack track streamId
    | none => pure ()
  | .trackData track data => do
    match ← Act.gets fun m => m.trackHandlers.lookup track with
    | some handler => onTrackMessage handler data
    | none => pure ()
  | .localCandidate pc cand mid => do
    match ← Act.gets fun m => m.captured pc with
    | some streamId => onLocalCandidate streamId cand mid
    | none => pure ()
  | .localDescription pc type sdp => do
    match ← Act.gets fun m => m.captured pc with
    | some streamId => onLocalDescription streamId type sdp
    | none => pure ()
  | .dataChannel pc id label => do
    if ← Act.gets fun m => m.announces pc then onDataChannel id label
  | .channelText ch text => do
    match ← Act.gets fun m => m.channelHandlers.lookup ch with
    | some _ => handleDataChannelText text
    | none => pure ()
  | .peerClosed pc => Act.modify fun m => m.updatePeer pc fun p => { p with closed := true }

/-- A call of the public API. -/
inductive Api where
  | setSignalingServerURL (url : String)
  | setRoomId (roomId : String)
  | setStreamId (streamId : String)
  | start (isPlayer : Bool)
  | stop
  | sendChatMessage (text date : String)
  | sendBinaryMessage (data : List UInt8) (label : String)

def invoke : Api → Act Unit
  | .setSignalingServerURL url => ConferenceCall.setSignalingServerURL url
  | .setRoomId roomId => ConferenceCall.setRoomId roomId
  | .setStreamId streamId => ConferenceCall.setStreamId streamId
  | .start isPlayer => do let _ ← start2WayCommunication isPlayer
  | .stop => stop2WayCommunication
  | .sendChatMessage text date => ConferenceCall.sendChatMessage text date
  | .sendBinaryMessage data label => ConferenceCall.sendBinaryMessage data label

/-- Something that happens to the manager, and what the libraries answer meanwhile. -/
structure Timed (ι : Type) where
  what : ι
  env : Env

/-- A callback during a session. -/
abbrev Event := Timed Callback

/-- The server's message for a signal, arriving in an environment. -/
def Signal.event (sig : Signal) (env : Env) : Event := ⟨.wsMessage (some sig.text), env⟩

/-- The effect of a computation as a step of a machine. -/
def stepOf {ι : Type} (f : ι → Act Unit) : Step (Timed ι) Manager Invocation :=
  fun i m => ((f i.what i.env m).state, (f i.what i.env m).calls)

/-- One callback of a session. -/
def step : Step Event Manager Invocation := stepOf deliver

section
variable {e : Env} {m : Manager}

theorem deliver_wsOpened (h : m.connected) : deliver .wsOpened e m = onOpen e m := by
  simp only [deliver, Act.gets_bind, h, if_true]

theorem deliver_wsClosed (h : m.connected) : deliver .wsClosed e m = onClosed e m := by
  simp only [deliver, Act.gets_bind, h, if_true]

theorem deliver_wsMessage (h : m.connected) (text : Option Json) :
    deliver (.wsMessage text) e m = onMessage text e m := by
  simp only [deliver, Act.gets_bind, h, if_true]

/-- A packet is pushed whenever its track is an audio track. -/
theorem onTrackMessage_apply (handler : TrackHandler) (data : List UInt8) (e : Env) (m : Manager) :
    onTrackMessage handler data e m = ⟨some (), m,
      if handler.kind = "audio" ∧ m.gstManager then
        [⟨.pushAudioFrame data, true⟩] else []⟩ := by
  by_cases hk : handler.kind = "audio" <;> cases hg : m.gstManager <;>
    simp [onTrackMessage, hk, hg]

theorem deliver_trackData_of_some {track : ℕ} {handler : TrackHandler}
    (h : m.trackHandlers.lookup track = some handler) (data : List UInt8) :
    deliver (.trackData track data) e m = onTrackMessage handler data e m := by
  simp only [deliver, Act.gets_bind, h]

theorem deliver_trackData_of_none {track : ℕ} (h : m.trackHandlers.lookup track = none)
    (data : List UInt8) : deliver (.trackData track data) e m = ⟨some (), m, []⟩ := by
  simp only [deliver, Act.gets_bind, h, Act.pure_apply]

theorem deliver_channelText_of_some {ch : Channel} {label : String}
    (h : m.channelHandlers.lookup ch = some label) (text : Option Json) :
    deliver (.channelText ch text) e m = handleDataChannelText text e m := by
  simp only [deliver, Act.gets_bind, h]

theorem deliver_channelText_of_none {ch : Channel} (h : m.channelHandlers.lookup ch = none)
    (text : Option Json) : deliver (.channelText ch text) e m = ⟨some (), m, []⟩ := by
  simp only [deliver, Act.gets_bind, h, Act.pure_apply]

end

end ConferenceCall

import ConferenceCall.Manager.Media

/-! The handlers of the signaling callbacks, as `initWebRTCStateMachine` binds
them, and the negotiation they lead to. -/

namespace ConferenceCall

open Library

def sdpType (type : String) : SdpType := if type == "offer" then .offer else .answer

/-- Hand the buffered candidates over, then forget them. -/
def flushCandidates (streamId : String) (pc : ℕ) : Act Unit := do
  match ← Act.gets fun m => m.pendingCandidates.lookup streamId with
  | some cs =>
    Act.each (fun i c => call (.addRemoteCandidate i) (.addRemoteCandidate pc c)) 0 cs
    Act.modify fun m => { m with pendingCandidates := m.pendingCandidates.erase streamId }
  | none => pure ()

/-- `handleRemoteSDP` between the connection and `setRemoteDescription`. -/
def readRemoteSDP (type : String) (pc : ℕ) : Act Unit := do
  if type == "offer" then prepareRecvTracksFromSDP pc
  check .description

/-- `handleRemoteSDP` from `setRemoteDescription` on. -/
def applyRemoteSDP (streamId type sdp : String) (pc : ℕ) : Act Unit := do
  call .setRemoteDescription (.setRemoteDescription pc (sdpType type) sdp)
  flushCandidates streamId pc
  if type == "offer" then call .setLocalDescription (.setLocalDescription pc .answer)

def handleRemoteSDP (streamId type sdp : String) : Act Unit := do
  let needDC ← Act.gets fun m => streamId == m.roomId
  let pc ← createPeerIfNotExist streamId needDC
  readRemoteSDP type pc
  applyRemoteSDP streamId type sdp pc

/-- `pendingCandidates[streamId]` exists before the candidate is constructed. -/
def addRemoteCandidate (streamId cand mid : String) : Act Unit := do
  if cand.isEmpty then pure ()
  else
    match ← Act.gets fun m => m.pcs.lookup streamId with
    | none =>
      Act.modify fun m => { m with
        pendingCandidates := m.pendingCandidates.insert streamId
          ((m.pendingCandidates.lookup streamId).getD []) }
      check .candidate
      Act.modify fun m => { m with
        pendingCandidates := m.pendingCandidates.insert streamId
          ((m.pendingCandidates.lookup streamId).getD [] ++ [⟨cand, mid⟩]) }
    | some pc =>
      check .candidate
      call (.addRemoteCandidate 0) (.addRemoteCandidate pc ⟨cand, mid⟩)

def startOffer (streamId : String) : Act Unit := do
  match ← Act.gets fun m => m.pcs.lookup streamId with
  | some pc => call .setLocalDescription (.setLocalDescription pc .offer)
  | none => pure ()

def onJoinedRoomNotification : Act Unit := do
  if ← Act.gets Manager.isOnlyPlayer then send .sendPublish (·.sendPublish false false)
  else send .sendPublish (·.sendPublish true true)

def onPublishStartedNotification : Act Unit := do
  match ← Act.gets fun m => m.sendPlay.lookup m.roomId with
  | some _ => pure ()
  | none =>
    Act.modify fun m => { m with sendPlay := m.sendPlay.insert m.roomId true }
    send .sendPlayRoom (·.sendPlayRoom)

def onPlayStartedNotification (streamId : String) : Act Unit := do
  if !streamId.isEmpty then
    Act.modify fun m => { m with played := m.played.insert streamId true }

def onPlayFinishedNotification (streamId : String) : Act Unit := do
  if !streamId.isEmpty then
    removePeerIfNotExist streamId
    if ← Act.gets fun m => streamId == m.roomId then
      Act.modify fun m => { m with sendPlay := m.sendPlay.insert m.roomId true }
      send .sendPlayRoom (·.sendPlayRoom)

/-- `sendPlay.count(trackId) && sendPlay[trackId]`. -/
def Manager.playSent (m : Manager) (trackId : String) : Bool :=
  (m.sendPlay.lookup trackId).getD false

/-- The stream has a connection that is not `Closed`. -/
def Manager.hasLivePeer (m : Manager) (streamId : String) : Bool :=
  (m.pcs.lookup streamId).any fun pc => !m.isClosed pc

def onSubtrackAddedNotification (trackId : String) : Act Unit := do
  if ← Act.gets fun m => !trackId.isEmpty && trackId != m.publishStreamId then
    if ← Act.gets fun m => m.hasLivePeer trackId then pure ()
    else if ← Act.gets fun m => m.playSent trackId then pure ()
    else
      Act.modify fun m => { m with sendPlay := m.sendPlay.insert trackId true }
      send .sendPlayStream (·.sendPlayStream trackId)

def onSubtrackRemovedNotification (trackId : String) : Act Unit := do
  if !trackId.isEmpty then
    Act.modify fun m => { m with sendPlay := m.sendPlay.erase trackId }

/-- The handler bound to each callback. -/
def onSignal : Signal → Act Unit
  | .onStartOfferer streamId => startOffer streamId
  | .onRemoteSDP streamId type sdp => handleRemoteSDP streamId type sdp
  | .onRemoteCandidate streamId cand mid => addRemoteCandidate streamId cand mid
  | .onJoinedRoomNotification => onJoinedRoomNotification
  | .onPublishStartedNotification => onPublishStartedNotification
  | .onPlayStartedNotification streamId => onPlayStartedNotification streamId
  | .onPlayFinishedNotification streamId => onPlayFinishedNotification streamId
  | .onSubtrackAddedNotification trackId => onSubtrackAddedNotification trackId
  | .onSubtrackRemovedNotification trackId => onSubtrackRemovedNotification trackId

/-- The body of the `try` block: parsing, decoding and the handler. -/
def processMessage (text : Option Json) : Act Unit := do
  match ← Act.ofOption (receive text) with
  | some signal => onSignal signal
  | none => pure ()

/-- A text on the signaling socket; whatever it raises is swallowed. -/
def onMessage (text : Option Json) : Act Unit := Act.attempt (processMessage text)

def Manager.setSignaling (m : Manager) (c : SignalingCommand) : Manager :=
  { m with signalingContext := m.signalingContext.map fun ctx => { ctx with signaling := some c } }

def Manager.setWsOpen (m : Manager) (b : Bool) : Manager :=
  { m with signalingContext := m.signalingContext.map fun ctx => { ctx with wsOpen := b } }

/-- The socket opened: `onConnected` sets the publish peer up again and joins. -/
def onOpen : Act Unit := do
  Act.modify fun m => m.setWsOpen true
  let streamId ← Act.gets Manager.publishStreamId
  setupPublishPeer streamId
  send .sendJoinRoom (·.sendJoinRoom)

def onClosed : Act Unit := Act.modify fun m => m.setWsOpen false

def onLocalCandidate (streamId cand mid : String) : Act Unit := do
  match ← Act.gets Manager.signaling with
  | some c =>
    Act.modify fun m => m.setSignaling { c with candLabel := c.nextLabel }
    call .sendTakeCandidate (.send (c.sendTakeCandidate streamId cand mid))
  | none => pure ()

def onLocalDescription (streamId : String) (type : SdpType) (sdp : String) : Act Unit :=
  send .sendTakeConfiguration
    (·.sendTakeConfiguration streamId (match type with | .offer => "offer" | .answer => "answer") sdp)

end ConferenceCall

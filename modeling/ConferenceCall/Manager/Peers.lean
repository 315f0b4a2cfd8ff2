import ConferenceCall.Manager.State

/-! Creation and removal of PeerConnections: `createPeerIfNotExist`,
`setupPublishPeer` and `removePeerIfNotExist`. -/

namespace ConferenceCall

open Library

namespace Manager

/-- Change what is registered on a PeerConnection. -/
def updatePeer (m : Manager) (pc : ℕ) (f : Peer → Peer) : Manager :=
  { m with peers := m.peers.modify pc f }

end Manager

/-- Sets the `onDataChannel` slot; the handler itself is `onDataChannel`. -/
def setupDataChannel (pc : ℕ) : Act Unit :=
  Act.modify fun m => m.updatePeer pc fun p => { p with needDC := true }

def createPeerIfNotExist (streamId : String) (needDC : Bool) : Act ℕ := do
  match ← Act.gets fun m => m.pcs.lookup streamId with
  | some pc => return pc
  | none =>
    let pc ← Act.gets Manager.nextPc
    call .createPeer (.createPeer pc streamId)
    Act.modify fun m => { m with
      peers := m.peers ++ [Peer.fresh streamId]
      pcs := m.pcs.insert streamId pc
      isPublisher := m.isPublisher.insert streamId false }
    if needDC then setupDataChannel pc
    Act.modify fun m => m.updatePeer pc fun p => { p with callbacks := true }
    return pc

/-- The `onOpen` handlers of the tracks only feed the media pipelines. -/
def setupLocalTracks (pc : ℕ) : Act Unit := do
  call (.addTrack 0) (.addTrack pc "video-stream" "video")
  call (.addTrack 1) (.addTrack pc "audio-stream" "audio")

/-- The last block of `setupPublishPeer`; only the `onMessage` handler does more than log. -/
def createLocalChannel (streamId : String) (pc : ℕ) : Act Unit := do
  match ← Act.gets fun m => m.localDataChannels.lookup streamId with
  | some _ => pure ()
  | none =>
    call .createDataChannel (.createDataChannel pc streamId)
    Act.modify fun m => { m with
      localDataChannels := m.localDataChannels.insert streamId (.local pc)
      channelHandlers := m.channelHandlers.insert (.local pc) streamId }

def setupPublishPeer (streamId : String) : Act Unit := do
  match ← Act.gets fun m => m.pcs.lookup streamId with
  | some _ => pure ()
  | none =>
    let pc ← createPeerIfNotExist streamId true
    Act.modify fun m => { m with
      publishStreamId := streamId
      isPublisher := m.isPublisher.insert streamId true }
    if !(← Act.gets Manager.isOnlyPlayer) then setupLocalTracks pc
    createLocalChannel streamId pc

/-- `if (dc->isOpen()) dc->close();` -/
def closeIfOpen (ch : Channel) : Act Unit := do
  if ← Act.ask fun e => e.isOpen ch then callNoexcept (.closeChannel ch)

/-- First block of `removePeerIfNotExist`. The entry is the last owner of its channel, and a
channel that is destroyed loses its handler. -/
def removeLocalChannel (streamId : String) : Act Unit := do
  match ← Act.gets fun m => m.localDataChannels.lookup streamId with
  | some ch =>
    closeIfOpen ch
    Act.modify fun m => { m with
      localDataChannels := m.localDataChannels.erase streamId
      channelHandlers := m.channelHandlers.erase ch }
  | none => pure ()

/-- Second block of `removePeerIfNotExist`: the label is taken to be the stream id. -/
def removeRemoteChannel (streamId : String) : Act Unit := do
  match ← Act.gets fun m => m.remoteDataChannels.lookup streamId with
  | some ch =>
    closeIfOpen ch
    Act.modify fun m => { m with
      remoteDataChannels := m.remoteDataChannels.erase streamId
      channelHandlers := m.channelHandlers.erase ch }
  | none => pure ()

/-- Third block of `removePeerIfNotExist`. -/
def removePeer (streamId : String) : Act Unit := do
  match ← Act.gets fun m => m.pcs.lookup streamId with
  | some pc =>
    callNoexcept (.closePeer pc)
    Act.modify fun m => m.updatePeer pc Peer.close
    Act.modify fun m => { m with pcs := m.pcs.erase streamId }
  | none => pure ()

def removePeerIfNotExist (streamId : String) : Act Unit := do
  removeLocalChannel streamId
  removeRemoteChannel streamId
  removePeer streamId
  Act.modify fun m => { m with played := m.played.erase streamId }
  Act.modify fun m => { m with sendPlay := m.sendPlay.erase streamId }

/-! ### What they leave behind -/

namespace Manager

/-- The state after `createPeerIfNotExist` made a PeerConnection. -/
def withPeer (m : Manager) (streamId : String) (needDC : Bool) : Manager :=
  { m with
    peers := m.peers ++ [{ Peer.fresh streamId with needDC, callbacks := true }]
    pcs := m.pcs.insert streamId m.nextPc
    isPublisher := m.isPublisher.insert streamId false }

/-- The connections after the one of `streamId`, if any, was closed. -/
def peersWithout (m : Manager) (streamId : String) : List Peer :=
  match m.pcs.lookup streamId with
  | some pc => m.peers.modify pc Peer.close
  | none => m.peers

/-- The handlers after the channels under a stream id, if any, were destroyed. -/
def handlersWithout (m : Manager) (streamId : String) : Dict Channel String :=
  (m.channelHandlers.eraseKey (m.localDataChannels.lookup streamId)).eraseKey
    (m.remoteDataChannels.lookup streamId)

/-- The state after `removePeerIfNotExist`. -/
def withoutPeer (m : Manager) (streamId : String) : Manager :=
  { m with
    channelHandlers := m.handlersWithout streamId
    localDataChannels := m.localDataChannels.erase streamId
    remoteDataChannels := m.remoteDataChannels.erase streamId
    peers := m.peersWithout streamId
    pcs := m.pcs.erase streamId
    played := m.played.erase streamId
    sendPlay := m.sendPlay.erase streamId }

end Manager

variable {e : Env} {m : Manager} {streamId : String}

private theorem modify_length_append {α : Type} (l : List α) (a : α) (f : α → α) :
    (l ++ [a]).modify l.length f = l ++ [f a] := by
  induction l with
  | nil => rfl
  | cons b l ih => simp [ih]

theorem createPeerIfNotExist_of_some {pc : ℕ} (needDC : Bool)
    (h : m.pcs.lookup streamId = some pc) :
    createPeerIfNotExist streamId needDC e m = ⟨some pc, m, []⟩ := by
  simp [createPeerIfNotExist, h]

theorem createPeerIfNotExist_of_none (needDC : Bool) (h : m.pcs.lookup streamId = none) :
    createPeerIfNotExist streamId needDC e m =
      if e.throws .createPeer then ⟨none, m, [⟨.createPeer m.nextPc streamId, false⟩]⟩
      else ⟨some m.nextPc, m.withPeer streamId needDC, [⟨.createPeer m.nextPc streamId, true⟩]⟩ := by
  cases ht : e.throws .createPeer
  · cases needDC <;>
      simp [createPeerIfNotExist, h, call_apply, ht, setupDataChannel, Manager.updatePeer,
        Manager.withPeer, Manager.nextPc, Outcome.after, modify_length_append, Peer.fresh]
  · simp [createPeerIfNotExist, h, call_apply, ht]

/-- The `close()` a channel of a removed stream gets. -/
def closingCalls (e : Env) : Option Channel → List Invocation
  | some ch => if e.isOpen ch then [⟨.closeChannel ch, true⟩] else []
  | none => []

/-- The calls of a removal. -/
def removalCalls (e : Env) (m : Manager) (streamId : String) : List Invocation :=
  closingCalls e (m.localDataChannels.lookup streamId) ++
    (closingCalls e (m.remoteDataChannels.lookup streamId) ++
      (m.pcs.lookup streamId).toList.map fun pc => ⟨.closePeer pc, true⟩)

theorem closeIfOpen_apply (ch : Channel) (e : Env) (m : Manager) :
    closeIfOpen ch e m = ⟨some (), m, closingCalls e (some ch)⟩ := by
  cases h : e.isOpen ch <;> simp [closeIfOpen, closingCalls, h, Outcome.after]

theorem removeLocalChannel_apply (streamId : String) (e : Env) (m : Manager) :
    removeLocalChannel streamId e m =
      ⟨some (), { m with
          localDataChannels := m.localDataChannels.erase streamId
          channelHandlers := m.channelHandlers.eraseKey (m.localDataChannels.lookup streamId) },
        closingCalls e (m.localDataChannels.lookup streamId)⟩ := by
  cases h : m.localDataChannels.lookup streamId with
  | none => simp [removeLocalChannel, h, closingCalls, Dict.erase_of_lookup_none _ _ h]
  | some ch => simp [removeLocalChannel, h, closeIfOpen_apply, Outcome.after]

theorem removeRemoteChannel_apply (streamId : String) (e : Env) (m : Manager) :
    removeRemoteChannel streamId e m =
      ⟨some (), { m with
          remoteDataChannels := m.remoteDataChannels.erase streamId
          channelHandlers := m.channelHandlers.eraseKey (m.remoteDataChannels.lookup streamId) },
        closingCalls e (m.remoteDataChannels.lookup streamId)⟩ := by
  cases h : m.remoteDataChannels.lookup streamId with
  | none => simp [removeRemoteChannel, h, closingCalls, Dict.erase_of_lookup_none _ _ h]
  | some ch => simp [removeRemoteChannel, h, closeIfOpen_apply, Outcome.after]

theorem removePeer_apply (streamId : String) (e : Env) (m : Manager) :
    removePeer streamId e m =
      ⟨some (), { m with peers := m.peersWithout streamId, pcs := m.pcs.erase streamId },
        (m.pcs.lookup streamId).toList.map fun pc => ⟨.closePeer pc, true⟩⟩ := by
  cases h : m.pcs.lookup streamId with
  | none => simp [removePeer, h, Manager.peersWithout, Dict.erase_of_lookup_none _ _ h]
  | some pc => simp [removePeer, h, Manager.peersWithout, Manager.updatePeer, Outcome.after]

/-- A removal always completes. -/
theorem removePeerIfNotExist_apply (streamId : String) (e : Env) (m : Manager) :
    removePeerIfNotExist streamId e m =
      ⟨some (), m.withoutPeer streamId, removalCalls e m streamId⟩ := by
  simp [removePeerIfNotExist, removeLocalChannel_apply, removeRemoteChannel_apply,
    removePeer_apply, Outcome.after, Manager.withoutPeer, Manager.handlersWithout,
    Manager.peersWithout, removalCalls]

end ConferenceCall

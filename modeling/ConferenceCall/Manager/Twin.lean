import ConferenceCall.Library.Simulation
import ConferenceCall.Manager.Inputs

/-! A manager that has been used before beside a new one. The connections of earlier sessions
come first, so a connection of the new manager has a later number in the used one. Apart from
that no computation of the manager can tell the two apart. -/

namespace ConferenceCall

open Library

/-! ### Later numbers -/

def Channel.shift (n : ℕ) : Channel → Channel
  | .local pc => .local (pc + n)
  | .remote id => .remote id

def Call.shift (n : ℕ) : Call → Call
  | .createPeer pc streamId => .createPeer (pc + n) streamId
  | .addTrack pc mid type => .addTrack (pc + n) mid type
  | .createDataChannel pc label => .createDataChannel (pc + n) label
  | .setRemoteDescription pc type sdp => .setRemoteDescription (pc + n) type sdp
  | .addRemoteCandidate pc c => .addRemoteCandidate (pc + n) c
  | .setLocalDescription pc type => .setLocalDescription (pc + n) type
  | .closePeer pc => .closePeer (pc + n)
  | .closeChannel ch => .closeChannel (ch.shift n)
  | .sendText ch c => .sendText (ch.shift n) c
  | .sendBinary ch data => .sendBinary (ch.shift n) data
  | c => c

def Invocation.shift (n : ℕ) (c : Invocation) : Invocation := ⟨c.call.shift n, c.returned⟩

/-- What the libraries answer about a channel, they answer about the later one. -/
def Env.shift (n : ℕ) (e : Env) : Env :=
  { e with isOpen := fun
      | .local pc => e.isOpen (.local (pc - n))
      | .remote id => e.isOpen (.remote id) }

def Callback.shift (n : ℕ) : Callback → Callback
  | .track pc t => .track (pc + n) t
  | .localCandidate pc cand mid => .localCandidate (pc + n) cand mid
  | .localDescription pc type sdp => .localDescription (pc + n) type sdp
  | .dataChannel pc id label => .dataChannel (pc + n) id label
  | .channelText ch text => .channelText (ch.shift n) text
  | .peerClosed pc => .peerClosed (pc + n)
  | cb => cb

def Input.shift (n : ℕ) : Input → Input
  | .callback cb => .callback (cb.shift n)
  | .api call => .api call

def Timed.shift (n : ℕ) (i : Timed Input) : Timed Input := ⟨i.what.shift n, i.env.shift n⟩

@[simp] theorem Env.shift_isOpen (n : ℕ) (e : Env) (ch : Channel) :
    (e.shift n).isOpen (ch.shift n) = e.isOpen ch := by
  cases ch <;> simp [Env.shift, Channel.shift]

theorem Channel.shift_eq_iff {n : ℕ} {ch ch' : Channel} :
    ch.shift n = ch'.shift n ↔ ch = ch' := by
  cases ch <;> cases ch' <;> simp [Channel.shift]

/-! ### The two managers -/

/-- `used` is what `base` would have become, `fresh` what a new manager has become. `known` says
whether `isOnlyPlayer` has been set. -/
structure Twin (base : Manager) (known : Prop) (used fresh : Manager) : Prop where
  signalingServerUrl : used.signalingServerUrl = fresh.signalingServerUrl
  roomId : used.roomId = fresh.roomId
  publishStreamId : used.publishStreamId = fresh.publishStreamId
  isOnlyPlayer : known → used.isOnlyPlayer = fresh.isOnlyPlayer
  isCommunicating : used.isCommunicating = fresh.isCommunicating
  gstManager : used.gstManager = fresh.gstManager
  signalingContext : used.signalingContext = fresh.signalingContext
  pcs : ∀ streamId, used.pcs.lookup streamId =
    (fresh.pcs.lookup streamId).map (· + base.nextPc)
  isPublisher : used.isPublisher = fresh.isPublisher
  sendPlay : used.sendPlay = fresh.sendPlay
  played : used.played = fresh.played
  remoteTracks : used.remoteTracks = fresh.remoteTracks
  pendingCandidates : used.pendingCandidates = fresh.pendingCandidates
  midTypeMap : used.midTypeMap = fresh.midTypeMap
  localDataChannels : ∀ streamId, used.localDataChannels.lookup streamId =
    (fresh.localDataChannels.lookup streamId).map (Channel.shift base.nextPc)
  remoteDataChannels : ∀ label, used.remoteDataChannels.lookup label =
    (fresh.remoteDataChannels.lookup label).map (Channel.shift base.nextPc)
  isStreamTalking : used.isStreamTalking = fresh.isStreamTalking
  peers : used.peers = base.peers ++ fresh.peers
  channelHandlers : ∀ ch : Channel,
    used.channelHandlers.lookup (ch.shift base.nextPc) = fresh.channelHandlers.lookup ch
  trackHandlers : used.trackHandlers = fresh.trackHandlers

/-- The renaming of the simulation. -/
def twins (base : Manager) (known : Prop) :
    Renaming Env Manager Invocation Env Manager Invocation :=
  ⟨Env.shift base.nextPc, Invocation.shift base.nextPc, Twin base known⟩

/-- The left computation is the right one of the used manager. -/
abbrev Twinned (base : Manager) (known : Prop) {α α' : Type} (v : α' → α) (x : Act α)
    (y : Act α') : Prop :=
  Act.Simulates (twins base known) v x y

variable {base used fresh : Manager} {known : Prop} {streamId : String}

namespace Twin

theorem weaken {known' : Prop} (h : Twin base known used fresh) (hk : known' → known) :
    Twin base known' used fresh :=
  { h with isOnlyPlayer := fun hk' => h.isOnlyPlayer (hk hk') }

theorem nextPc (h : Twin base known used fresh) : used.nextPc = fresh.nextPc + base.nextPc := by
  rw [Manager.nextPc, h.peers, List.length_append, Nat.add_comm]
  rfl

theorem signaling (h : Twin base known used fresh) : used.signaling = fresh.signaling := by
  rw [Manager.signaling, h.signalingContext]
  rfl

/-- The connections of the new manager come after those of the earlier sessions. -/
theorem peer (h : Twin base known used fresh) (pc : ℕ) :
    used.peers[pc + base.nextPc]? = fresh.peers[pc]? := by
  rw [h.peers, List.getElem?_append_right (by rw [Manager.nextPc]; exact Nat.le_add_left _ _)]
  simp [Manager.nextPc]

theorem captured (h : Twin base known used fresh) (pc : ℕ) :
    used.captured (pc + base.nextPc) = fresh.captured pc := by
  rw [Manager.captured, h.peer]
  rfl

theorem announces (h : Twin base known used fresh) (pc : ℕ) :
    used.announces (pc + base.nextPc) = fresh.announces pc := by
  rw [Manager.announces, h.peer]
  rfl

theorem hasLivePeer (h : Twin base known used fresh) (streamId : String) :
    used.hasLivePeer streamId = fresh.hasLivePeer streamId := by
  rw [Manager.hasLivePeer, h.pcs, Manager.hasLivePeer]
  cases fresh.pcs.lookup streamId with
  | none => rfl
  | some pc => simp [Manager.isClosed, h.peer]

theorem insertPc (h : Twin base known used fresh) (streamId s : String) (pc : ℕ) :
    (used.pcs.insert streamId (pc + base.nextPc)).lookup s =
      ((fresh.pcs.insert streamId pc).lookup s).map (· + base.nextPc) := by
  rw [Dict.lookup_insert_eq, Dict.lookup_insert_eq, h.pcs]
  split_ifs <;> rfl

theorem updatePeer (h : Twin base known used fresh) (pc : ℕ) (f : Peer → Peer) :
    Twin base known (used.updatePeer (pc + base.nextPc) f) (fresh.updatePeer pc f) :=
  { h with
    peers := by
      refine List.ext_getElem? fun i => ?_
      simp only [Manager.updatePeer, h.peers, List.getElem?_modify]
      rcases lt_or_ge i base.peers.length with hi | hi
      · have hne : pc + base.nextPc ≠ i := by
          rw [Manager.nextPc]
          omega
        rw [List.getElem?_append_left hi, List.getElem?_append_left hi]
        simp [hne]
      · rw [List.getElem?_append_right hi, List.getElem?_append_right hi, List.getElem?_modify]
        have heq : pc + base.nextPc = i ↔ pc = i - base.peers.length := by
          rw [Manager.nextPc]
          omega
        simp only [heq] }

end Twin

/-! ### Connections -/

theorem check_twinned (site : Site) : Twinned base known id (check site) (check site) := by
  intro e s t h
  have hthrows : (e.shift base.nextPc).throws = e.throws := rfl
  simp only [twins, check_apply, hthrows]
  split <;> exact ⟨rfl, h, rfl⟩

theorem call_twinned (site : Site) {c c' : Call} (hc : c = c'.shift base.nextPc) :
    Twinned base known id (call site c) (call site c') := by
  intro e s t h
  have hthrows : (e.shift base.nextPc).throws = e.throws := rfl
  simp only [twins, call_apply, hthrows]
  exact ⟨by rw [Option.map_id]; rfl, h, by simp [Invocation.shift, hc]⟩

theorem callNoexcept_twinned {c c' : Call} (hc : c = c'.shift base.nextPc) :
    Twinned base known id (callNoexcept c) (callNoexcept c') :=
  .record (by simp [twins, Invocation.shift, hc])

theorem send_twinned (site : Site) (build : SignalingCommand → Command) :
    Twinned base known id (send site build) (send site build) := by
  refine .bind (v := id) (.gets fun _ _ h => h.signaling) fun client => ?_
  cases client with
  | some c => exact call_twinned site rfl
  | none => exact .pure rfl

theorem updatePeer_twinned (pc : ℕ) (f : Peer → Peer) :
    Twinned base known id (Act.modify fun m => m.updatePeer (pc + base.nextPc) f)
      (Act.modify fun m => m.updatePeer pc f) :=
  .modify fun _ _ h => h.updatePeer pc f

theorem createPeerIfNotExist_twinned (streamId : String) (needDC : Bool) :
    Twinned base known (· + base.nextPc) (createPeerIfNotExist streamId needDC)
      (createPeerIfNotExist streamId needDC) := by
  refine .bind (.gets fun _ _ h => h.pcs streamId) fun found => ?_
  cases found with
  | some pc => exact .pure rfl
  | none =>
    refine .bind (.gets fun _ _ h => h.nextPc) fun pc => .bind (call_twinned _ rfl) fun _ =>
      .bind (.modify fun s t h => ?_) fun _ => ?_
    · exact { h with
        pcs := fun s => h.insertPc streamId s pc
        isPublisher := congrArg (fun d => Finmap.insert streamId false d) h.isPublisher
        peers := by rw [h.peers, List.append_assoc] }
    · have hlast : Twinned base known (· + base.nextPc)
          (do
            Act.modify fun m => m.updatePeer (pc + base.nextPc) fun p => { p with callbacks := true }
            return pc + base.nextPc)
          (do
            Act.modify fun m => m.updatePeer pc fun p => { p with callbacks := true }
            return pc) := .bind (updatePeer_twinned pc _) fun _ => .pure rfl
      exact .ite (.bind (updatePeer_twinned pc _) fun _ => hlast) hlast

theorem setupLocalTracks_twinned (pc : ℕ) :
    Twinned base known id (setupLocalTracks (pc + base.nextPc)) (setupLocalTracks pc) :=
  .bind (call_twinned _ rfl) fun _ => call_twinned _ rfl

theorem Twin.insertHandler (h : Twin base known used fresh) (ch : Channel) (label : String)
    (ch' : Channel) :
    (used.channelHandlers.insert (ch.shift base.nextPc) label).lookup (ch'.shift base.nextPc) =
      (fresh.channelHandlers.insert ch label).lookup ch' := by
  simp only [Dict.lookup_insert_eq, h.channelHandlers, Channel.shift_eq_iff]

theorem Twin.eraseHandler (h : Twin base known used fresh) (ch ch' : Channel) :
    (used.channelHandlers.erase (ch.shift base.nextPc)).lookup (ch'.shift base.nextPc) =
      (fresh.channelHandlers.erase ch).lookup ch' := by
  simp only [Dict.lookup_erase_eq, h.channelHandlers, Channel.shift_eq_iff]

theorem Twin.insertChannel {d d' : Tracker Channel} {n : ℕ}
    (h : ∀ s, d.lookup s = (d'.lookup s).map (Channel.shift n)) (streamId : String) (ch : Channel)
    (s : String) : (d.insert streamId (ch.shift n)).lookup s =
      ((d'.insert streamId ch).lookup s).map (Channel.shift n) := by
  rw [Dict.lookup_insert_eq, Dict.lookup_insert_eq, h]
  split_ifs <;> rfl

theorem Twin.eraseChannel {d d' : Tracker Channel} {n : ℕ}
    (h : ∀ s, d.lookup s = (d'.lookup s).map (Channel.shift n)) (streamId s : String) :
    (d.erase streamId).lookup s = ((d'.erase streamId).lookup s).map (Channel.shift n) := by
  rw [Dict.lookup_erase_eq, Dict.lookup_erase_eq, h]
  split_ifs <;> rfl

theorem createLocalChannel_twinned (streamId : String) (pc : ℕ) :
    Twinned base known id (createLocalChannel streamId (pc + base.nextPc))
      (createLocalChannel streamId pc) := by
  refine .bind (.gets fun _ _ h => h.localDataChannels streamId) fun found => ?_
  cases found with
  | some ch => exact .pure rfl
  | none =>
    refine .bind (call_twinned _ rfl) fun _ => .modify fun s t h => ?_
    exact { h with
      localDataChannels := Twin.insertChannel h.localDataChannels streamId (.local pc)
      channelHandlers := h.insertHandler (.local pc) streamId }

theorem setupPublishPeer_twinned (hk : known) (streamId : String) :
    Twinned base known id (setupPublishPeer streamId) (setupPublishPeer streamId) := by
  refine .bind (.gets fun _ _ h => h.pcs streamId) fun found => ?_
  cases found with
  | some pc => exact .pure rfl
  | none =>
    refine .bind (createPeerIfNotExist_twinned streamId true) fun pc =>
      .bind (.modify fun s t h => ?_) fun _ =>
      .bind (v := id) (.gets fun _ _ h => h.isOnlyPlayer hk) fun onlyPlayer => ?_
    · exact { h with
        publishStreamId := rfl
        isPublisher := congrArg (fun d => Finmap.insert streamId true d) h.isPublisher }
    · exact .ite (.bind (setupLocalTracks_twinned pc) fun _ => createLocalChannel_twinned streamId pc)
        (createLocalChannel_twinned streamId pc)

theorem closeIfOpen_twinned (ch : Channel) :
    Twinned base known id (closeIfOpen (ch.shift base.nextPc)) (closeIfOpen ch) :=
  .bind (v := id) (.ask fun e => e.shift_isOpen _ ch) fun _ =>
    .ite (callNoexcept_twinned rfl) (.pure rfl)

theorem removePeerIfNotExist_twinned (streamId : String) :
    Twinned base known id (removePeerIfNotExist streamId) (removePeerIfNotExist streamId) := by
  have hlocal : Twinned base known id (removeLocalChannel streamId) (removeLocalChannel streamId) := by
    refine .bind (.gets fun _ _ h => h.localDataChannels streamId) fun found => ?_
    cases found with
    | some ch =>
      exact .bind (closeIfOpen_twinned ch) fun _ => .modify fun s t h =>
        { h with
          localDataChannels := Twin.eraseChannel h.localDataChannels streamId
          channelHandlers := h.eraseHandler ch }
    | none => exact .pure rfl
  have hremote : Twinned base known id (removeRemoteChannel streamId) (removeRemoteChannel streamId) := by
    refine .bind (.gets fun _ _ h => h.remoteDataChannels streamId) fun found => ?_
    cases found with
    | some ch =>
      exact .bind (closeIfOpen_twinned ch) fun _ => .modify fun s t h =>
        { h with
          remoteDataChannels := Twin.eraseChannel h.remoteDataChannels streamId
          channelHandlers := h.eraseHandler ch }
    | none => exact .pure rfl
  have hpeer : Twinned base known id (removePeer streamId) (removePeer streamId) := by
    refine .bind (.gets fun _ _ h => h.pcs streamId) fun found => ?_
    cases found with
    | some pc =>
      refine .bind (callNoexcept_twinned rfl) fun _ =>
        .bind (updatePeer_twinned pc _) fun _ => .modify fun s t h => ?_
      exact { h with
        pcs := fun s => by
          rw [Dict.lookup_erase_eq, Dict.lookup_erase_eq, h.pcs]
          split_ifs <;> rfl }
    | none => exact .pure rfl
  exact .bind hlocal fun _ => .bind hremote fun _ => .bind hpeer fun _ =>
    .bind (.modify fun s t h => { h with played := congrArg (fun d => Finmap.erase streamId d) h.played })
      fun _ => .modify fun s t h =>
        { h with sendPlay := congrArg (fun d => Finmap.erase streamId d) h.sendPlay }

end ConferenceCall

import ConferenceCall.Library.Action
import ConferenceCall.Library.Dict
import ConferenceCall.Signaling.Notification

/-! The state of a `WebRTCManager`, the library objects it holds, and the calls
it makes into the libraries. PeerConnections are numbered in the order of their
creation; a remote data channel and a track keep the number the library gave
them. A library call logs itself and may throw; which calls of one step throw is
part of the step's environment, so every combination of failures is covered. -/

namespace ConferenceCall

open Library

/-- One `unordered_map<string, V>` of the manager. -/
abbrev Tracker (V : Type) := Dict String V

/-- What the manager can observe of a PeerConnection and has registered on it. -/
structure Peer where
  /-- The id the callbacks of the connection capture. -/
  streamId : String
  /-- The `onDataChannel` slot is set. -/
  needDC : Bool
  /-- The `onTrack`, `onLocalCandidate` and `onLocalDescription` slots are set. -/
  callbacks : Bool
  /-- `state() == State::Closed`. -/
  closed : Bool
  /-- The manager has called `close()`. -/
  closeCalled : Bool
  deriving DecidableEq

/-- A new connection without callbacks. -/
def Peer.fresh (streamId : String) : Peer := ⟨streamId, false, false, false, false⟩

def Peer.close (p : Peer) : Peer := { p with closed := true, closeCalled := true }

/-- A data channel: the one created on a PeerConnection of ours, or an announced one. -/
inductive Channel where
  | local (pc : ℕ)
  | remote (id : ℕ)
  deriving DecidableEq

structure Candidate where
  candidate : String
  mid : String
  deriving DecidableEq

/-- A track handed to `onTrack`, with the type of its description. -/
structure Track where
  id : ℕ
  mid : String
  type : String
  deriving DecidableEq

/-- What the `onMessage` handler of a track captures. -/
structure TrackHandler where
  kind : String
  streamId : String
  deriving DecidableEq

/-- The types of `rtc::Description` the program uses. -/
inductive SdpType where
  | offer | answer
  deriving DecidableEq

/-- The fields of a chat message; `eventType` and `name` are fixed by these. -/
structure ChatMessage where
  message : String
  senderId : String
  date : String
  deriving DecidableEq

def ChatMessage.json (c : ChatMessage) : Json := .object
  [("eventType", .string "MESSAGE_RECEIVED"), ("message", .string c.message),
    ("senderId", .string c.senderId), ("name", .string c.senderId), ("date", .string c.date)]

/-- A call of the manager that leaves its own memory. -/
inductive Call where
  | createPeer (pc : ℕ) (streamId : String)
  | addTrack (pc : ℕ) (mid type : String)
  | createDataChannel (pc : ℕ) (label : String)
  | setRemoteDescription (pc : ℕ) (type : SdpType) (sdp : String)
  | addRemoteCandidate (pc : ℕ) (c : Candidate)
  | setLocalDescription (pc : ℕ) (type : SdpType)
  | closePeer (pc : ℕ)
  | closeChannel (ch : Channel)
  | send (c : Command)
  | sendText (ch : Channel) (c : ChatMessage)
  | sendBinary (ch : Channel) (data : List UInt8)
  | pushAudioFrame (data : List UInt8)
  | openSocket (url : String)
  | closeSocket
  deriving DecidableEq

/-- A logged call, with whether it returned normally. -/
structure Invocation where
  call : Call
  returned : Bool
  deriving DecidableEq

/-- The connection a call negotiates on: it applies an SDP, a candidate or an offer. -/
def Call.negotiates : Call → Option ℕ
  | .setRemoteDescription pc _ _ => some pc
  | .addRemoteCandidate pc _ => some pc
  | .setLocalDescription pc _ => some pc
  | _ => none

/-- A call that builds a connection up. -/
def Call.builds : Call → Bool
  | .createPeer _ _ | .addTrack _ _ _ | .createDataChannel _ _ => true
  | _ => false

/-- The stream a call asks the server to play. -/
def Call.plays : Call → Option String
  | .send (.play _ streamId) => some streamId
  | _ => none

/-- The call negotiates nothing. -/
def Quiet (c : Invocation) : Prop := c.call.negotiates = none

/-- The call negotiates nothing and asks for no stream. -/
def Routine (c : Invocation) : Prop := Quiet c ∧ c.call.plays = none

theorem Call.negotiates_of_builds {c : Call} (h : c.builds) : c.negotiates = none := by
  cases c <;> simp_all [Call.builds, Call.negotiates]

theorem Call.plays_of_builds {c : Call} (h : c.builds) : c.plays = none := by
  cases c <;> simp_all [Call.builds, Call.plays]

theorem Call.plays_of_negotiates {c : Call} {pc : ℕ} (h : c.negotiates = some pc) :
    c.plays = none := by
  cases c <;> simp_all [Call.negotiates, Call.plays]

theorem routine_of_builds {c : Invocation} (h : c.call.builds) : Routine c :=
  ⟨Call.negotiates_of_builds h, Call.plays_of_builds h⟩

/-- The places where a library call may throw. One step reaches each at most once;
the places inside a loop carry the iteration. -/
inductive Site where
  | createPeer
  | createDataChannel
  | addTrack (i : ℕ)
  | sdpParse
  | description
  | setRemoteDescription
  | candidate
  | addRemoteCandidate (i : ℕ)
  | setLocalDescription
  | sendJoinRoom | sendPublish | sendPlayRoom | sendPlayStream | sendTakeCandidate
  | sendTakeConfiguration | sendStopPublish | sendStopPlayRoom | sendLeaveRoom
  | chatDump | chatSend | binarySend
  | openSocket
  deriving DecidableEq

/-- What the libraries answer during one step. -/
structure Env where
  /-- The call at this place throws. -/
  throws : Site → Bool
  /-- `isOpen()` of a data channel. -/
  isOpen : Channel → Bool
  /-- The result of `sdptransform::parse`. -/
  parsed : Json

/-- Nothing throws. -/
def Env.calm : Env := ⟨fun _ => false, fun _ => true, .object []⟩

/-- The fields of `WebRTCManager`, followed by the objects of the libraries. -/
structure Manager where
  signalingServerUrl : String := ""
  roomId : String := "room1"
  publishStreamId : String := ""
  isOnlyPlayer : Bool := false
  isCommunicating : Bool := false
  /-- `m_gstManager` is set. -/
  gstManager : Bool := false
  signalingContext : Option SignalingContext := none
  pcs : Tracker ℕ := ∅
  isPublisher : Tracker Bool := ∅
  sendPlay : Tracker Bool := ∅
  played : Tracker Bool := ∅
  remoteTracks : Tracker (List Track) := ∅
  pendingCandidates : Tracker (List Candidate) := ∅
  midTypeMap : Tracker String := ∅
  localDataChannels : Tracker Channel := ∅
  remoteDataChannels : Tracker Channel := ∅
  isStreamTalking : Tracker Bool := ∅
  /-- Every PeerConnection created so far. -/
  peers : List Peer := []
  /-- The `onMessage` slot of a data channel, with the label its handler captures. -/
  channelHandlers : Dict Channel String := ∅
  /-- The `onMessage` slot of a track. -/
  trackHandlers : Dict ℕ TrackHandler := ∅

namespace Manager

/-- The client behind the open signaling context. -/
def signaling (m : Manager) : Option SignalingCommand :=
  m.signalingContext.bind SignalingContext.signaling

/-- `state()` of a PeerConnection is `Closed`. -/
def isClosed (m : Manager) (pc : ℕ) : Bool := (m.peers[pc]?).any Peer.closed

/-- The number the next PeerConnection gets. -/
def nextPc (m : Manager) : ℕ := m.peers.length

end Manager

/-- A computation of the manager. -/
abbrev Act (α : Type) := Library.Act Env Manager Invocation α

/-- Call a library function without an effect of its own; it may throw. -/
def check (site : Site) : Act Unit := fun e m =>
  if e.throws site then ⟨none, m, []⟩ else ⟨some (), m, []⟩

/-- Call a library function with an effect; it may throw. -/
def call (site : Site) (c : Call) : Act Unit := fun e m =>
  if e.throws site then ⟨none, m, [⟨c, false⟩]⟩ else ⟨some (), m, [⟨c, true⟩]⟩

/-- Call a library function that does not throw. -/
def callNoexcept (c : Call) : Act Unit := Library.Act.record ⟨c, true⟩

/-- `m_signalingContext->Send...()`: nothing happens without a client. -/
def send (site : Site) (build : SignalingCommand → Command) : Act Unit := do
  match ← Library.Act.gets Manager.signaling with
  | some c => call site (.send (build c))
  | none => pure ()

section
variable {e : Env} {m : Manager}

theorem check_apply (site : Site) (e : Env) (m : Manager) :
    check site e m = if e.throws site then ⟨none, m, []⟩ else ⟨some (), m, []⟩ := rfl

theorem call_apply (site : Site) (c : Call) (e : Env) (m : Manager) :
    call site c e m = ⟨if e.throws site then none else some (), m, [⟨c, !e.throws site⟩]⟩ := by
  unfold call; cases e.throws site <;> rfl

@[simp] theorem callNoexcept_apply (c : Call) (e : Env) (m : Manager) :
    callNoexcept c e m = ⟨some (), m, [⟨c, true⟩]⟩ := rfl

/-- Sending a command fails. -/
def Manager.sendFails (m : Manager) (e : Env) (site : Site) : Bool :=
  m.signaling.isSome && e.throws site

/-- What sending a command logs. -/
def Manager.sent (m : Manager) (e : Env) (site : Site) (build : SignalingCommand → Command) :
    List Invocation :=
  m.signaling.toList.map fun c => ⟨.send (build c), !e.throws site⟩

theorem send_apply (site : Site) (build : SignalingCommand → Command) (e : Env) (m : Manager) :
    send site build e m =
      ⟨if m.sendFails e site then none else some (), m, m.sent e site build⟩ := by
  cases h : m.signaling <;> simp [send, h, call_apply, Manager.sendFails, Manager.sent]

theorem sent_quiet {site : Site} {build : SignalingCommand → Command} :
    ∀ c ∈ m.sent e site build, Quiet c := by
  intro c hc
  obtain ⟨_, -, rfl⟩ := List.mem_map.mp hc
  rfl

theorem sent_plays {site : Site} {build : SignalingCommand → Command} {c : Invocation}
    {streamId : String} (hc : c ∈ m.sent e site build) (hp : c.call.plays = some streamId) :
    ∃ client room, m.signaling = some client ∧ build client = .play room streamId := by
  obtain ⟨client, hm, rfl⟩ := List.mem_map.mp hc
  cases hb : build client <;> simp_all [Call.plays]

theorem check_within {R : Manager → Manager → Prop} {P : Invocation → Prop} (hR : ∀ m, R m m)
    (site : Site) : Act.Within R P (check site) := by
  intro e m
  rw [check_apply]
  split <;> exact ⟨hR m, by simp⟩

theorem call_within {R : Manager → Manager → Prop} {P : Invocation → Prop} (hR : ∀ m, R m m)
    (site : Site) (c : Call) (hP : ∀ b, P ⟨c, b⟩) : Act.Within R P (call site c) := by
  intro e m
  rw [call_apply]
  exact ⟨hR m, by simpa using hP _⟩

end

end ConferenceCall

import ConferenceCall.Manager.Effects
import ConferenceCall.Manager.TwinHandlers
import ConferenceCall.Session.Ownership

/-! Sessions do not leak into later ones. A manager whose sessions have ended holds nothing of
them but closed connections; from there it says what a new manager says. -/

namespace ConferenceCall

open Library

/-- No session is running and nothing is left of an earlier one but library objects. -/
structure Rested (m : Manager) : Prop where
  idle : Idle m
  gstManager : m.gstManager = false
  signalingContext : m.signalingContext = none
  channelHandlers : m.channelHandlers = ∅
  trackHandlers : m.trackHandlers = ∅

/-- Callbacks come only during a session. -/
def Timed.inSession (i : Timed Input) (m : Manager) : Prop :=
  ∀ cb, i.what = .callback cb → m.isCommunicating = true

variable {base used fresh m m' : Manager} {known : Prop} {e : Env}

/-! ### The end of a session -/

theorem rested_new : Rested {} := ⟨idle_new "" "room1" "", rfl, rfl, rfl, rfl⟩

theorem rested_cleared (m : Manager) : Rested { m.cleared with isCommunicating := false } := by
  constructor
  · constructor <;> rfl
  all_goals rfl

/-- A start leaves a session or nothing of one. -/
theorem start_rested (isPlayer : Bool) (e : Env) (hm : m.isCommunicating = false → Rested m)
    (h : (start2WayCommunication isPlayer e m).state.isCommunicating = false) :
    Rested (start2WayCommunication isPlayer e m).state := by
  cases hc : m.isCommunicating with
  | true =>
    rw [start2WayCommunication_of_running isPlayer e hc, hc] at h
    cases h
  | false =>
    rw [start2WayCommunication_apply isPlayer e hc] at h ⊢
    cases hurl : m.lacksUrl with
    | true =>
      exact hm hc
    | false =>
      rw [hurl] at h
      simp only [Bool.false_eq_true, if_false] at h ⊢
      have hsetup : (setupPublishPeer m.publishStreamId e (m.starting isPlayer)).state.isCommunicating =
          true := by
        cases hp : (m.starting isPlayer).pcs.lookup m.publishStreamId with
        | some pc => rw [setupPublishPeer_of_some hp]; rfl
        | none =>
          cases ht : e.throws .createPeer with
          | true => rw [setupPublishPeer_of_throws hp ht]; rfl
          | false =>
            rcases (setupPublishPeer_spec hp ht).1 with hs | ⟨-, hs⟩ <;> rw [hs] <;> rfl
      rcases Act.bind_cases (setupPublishPeer m.publishStreamId)
        (fun _ => do
          if ← connect m.signalingServerUrl m.publishStreamId then return true else abandon)
        e (m.starting isPlayer) with ⟨-, hb⟩ | ⟨_, -, hb⟩
      · rw [hb, hsetup] at h
        cases h
      · rw [hb] at h ⊢
        cases hopen : e.throws .openSocket with
        | false =>
          simp [Opening.connect_apply, hopen, hsetup] at h
        | true =>
          simp only [Act.bind_apply, Opening.connect_apply, hopen, Outcome.andThen_some, abandon,
            Outcome.after_state, Bool.not_true, Bool.false_eq_true, if_false, cleanupResources_apply,
            Act.modify_apply, Act.pure_apply]
          exact rested_cleared _

/-- Settings and chats leave a manager between sessions at rest. -/
theorem Rested.invoke (h : Rested m) {call : Api} (hd : (Input.api call).during) (e : Env) :
    Rested (invoke call e m).state := by
  obtain ⟨⟨_, _, _, hs⟩, -⟩ := invoke_during hd e m
  rw [hs]
  exact { h with idle := { h.idle with } }

/-- An input between sessions or during one. -/
theorem inputStep_rested (i : Timed Input) (hi : i.inSession m)
    (hm : m.isCommunicating = false → Rested m) (h : (inputStep i m).1.isCommunicating = false) :
    Rested (inputStep i m).1 := by
  obtain ⟨what, e⟩ := i
  cases what with
  | callback cb =>
    rw [inputStep_callback, (step_frame ⟨cb, e⟩ m).1, hi cb rfl] at h
    cases h
  | api call =>
    change (invoke call e m).state.isCommunicating = false at h
    change Rested (invoke call e m).state
    have hduring (hd : (Input.api call).during) : Rested (invoke call e m).state := by
      obtain ⟨⟨_, _, _, hs⟩, -⟩ := invoke_during hd e m
      rw [hs] at h
      exact (hm h).invoke hd e
    cases call with
    | start isPlayer =>
      rw [(invoke_start isPlayer e m).1] at h ⊢
      exact start_rested isPlayer e hm h
    | stop =>
      change Rested (stop2WayCommunication e m).state
      cases hc : m.isCommunicating with
      | true =>
        rw [stop2WayCommunication_apply hc]
        exact rested_cleared m
      | false => simpa [stop2WayCommunication, hc] using hm hc
    | _ => exact hduring trivial

/-- A run from a new manager that ends outside of a session ends at rest. -/
theorem run_rested (inputs : List (Timed Input))
    (hin : inputStep.Along (fun i m => i.inSession m) inputs {})
    (h : (inputStep.run inputs {}).1.isCommunicating = false) : Rested (inputStep.run inputs {}).1 :=
  Step.run_preserves (I := fun m => m.isCommunicating = false → Rested m)
    (fun i _ hm hi => inputStep_rested i hi hm) inputs {} (fun _ => rested_new) hin h

/-! ### The next session -/

/-- A rested manager and a new one with its settings. -/
theorem Rested.twin (h : Rested base) (known : Prop) (hk : ¬known) :
    Twin base known base
      { signalingServerUrl := base.signalingServerUrl, roomId := base.roomId,
        publishStreamId := base.publishStreamId } where
  signalingServerUrl := rfl
  roomId := rfl
  publishStreamId := rfl
  isOnlyPlayer := fun hknown => absurd hknown hk
  isCommunicating := h.idle.isCommunicating
  gstManager := h.gstManager
  signalingContext := h.signalingContext
  pcs := fun _ => by simp [h.idle.pcs]
  isPublisher := h.idle.isPublisher
  sendPlay := h.idle.sendPlay
  played := h.idle.played
  remoteTracks := h.idle.remoteTracks
  pendingCandidates := h.idle.pendingCandidates
  midTypeMap := h.idle.midTypeMap
  localDataChannels := fun _ => by simp [h.idle.localDataChannels]
  remoteDataChannels := fun _ => by simp [h.idle.remoteDataChannels]
  isStreamTalking := h.idle.isStreamTalking
  peers := (List.append_nil _).symm
  channelHandlers := fun _ => by simp [h.channelHandlers]
  trackHandlers := h.trackHandlers

/-- What a connection, a channel or a track calls does the same in both managers. -/
theorem deliver_twinned {cb : Callback} (hcb : cb.onSocket = false) :
    Twinned base known id (deliver (cb.shift base.nextPc)) (deliver cb) := by
  cases cb with
  | wsOpened => cases hcb
  | wsClosed => cases hcb
  | wsMessage text => cases hcb
  | track pc t =>
    refine .bind (v := id) (.gets fun _ _ h => h.captured pc) fun found => ?_
    cases found with
    | some streamId => exact addRemoteTrack_twinned t streamId
    | none => exact .pure rfl
  | trackData t data =>
    refine .bind (v := id) (.gets fun _ _ h => by rw [h.trackHandlers]; rfl) fun found => ?_
    cases found with
    | some handler => exact onTrackMessage_twinned handler data
    | none => exact .pure rfl
  | localCandidate pc cand mid =>
    refine .bind (v := id) (.gets fun _ _ h => h.captured pc) fun found => ?_
    cases found with
    | some streamId => exact onLocalCandidate_twinned streamId cand mid
    | none => exact .pure rfl
  | localDescription pc type sdp =>
    refine .bind (v := id) (.gets fun _ _ h => h.captured pc) fun found => ?_
    cases found with
    | some streamId => exact send_twinned _ _
    | none => exact .pure rfl
  | dataChannel pc id' label =>
    exact .bind (v := id) (.gets fun _ _ h => h.announces pc) fun _ =>
      .ite (onDataChannel_twinned id' label) (.pure rfl)
  | channelText ch text =>
    refine .bind (v := id) (.gets fun _ _ h => h.channelHandlers ch) fun found => ?_
    cases found with
    | some label => exact handleDataChannelText_twinned text
    | none => exact .pure rfl
  | peerClosed pc => exact updatePeer_twinned pc _

theorem Twin.connected (h : Twin base known used fresh) : used.connected = fresh.connected := by
  rw [Manager.connected, h.signaling]
  rfl

variable (base) in
/-- The callbacks of the socket, once `isOnlyPlayer` is set. -/
theorem deliver_socket_twinned (hk : known) {cb : Callback} (hcb : cb.onSocket = true) :
    Twinned base known id (deliver (cb.shift base.nextPc)) (deliver cb) := by
  cases cb with
  | wsOpened =>
    exact .bind (v := id) (.gets fun _ _ h => h.connected) fun _ => .ite (onOpen_twinned hk) (.pure rfl)
  | wsClosed =>
    refine .bind (v := id) (.gets fun _ _ h => h.connected) fun _ => .ite (.modify ?_) (.pure rfl)
    exact fun s t h => { h with
      signalingContext := by rw [Manager.setWsOpen, h.signalingContext]; rfl }
  | wsMessage text =>
    exact .bind (v := id) (.gets fun _ _ h => h.connected) fun _ =>
      .ite (onMessage_twinned hk text) (.pure rfl)
  | _ => cases hcb

/-- A call of the API, start apart. -/
theorem invoke_twinned {call : Api} (h : ∀ isPlayer, call ≠ .start isPlayer) :
    Twinned base known id (invoke call) (invoke call) := by
  cases call with
  | setSignalingServerURL url => exact .modify fun s t h => { h with signalingServerUrl := rfl }
  | setRoomId roomId => exact .modify fun s t h => { h with roomId := rfl }
  | setStreamId streamId => exact .modify fun s t h => { h with publishStreamId := rfl }
  | start isPlayer => exact absurd rfl (h isPlayer)
  | stop =>
    refine .bind (v := id) (.gets fun _ _ h => h.isCommunicating) fun _ => .ite ?_ (.pure rfl)
    exact .bind cleanupResources_twinned fun _ => .modify fun _ _ h => { h with isCommunicating := rfl }
  | sendChatMessage text date => exact sendChatMessage_twinned text date
  | sendBinaryMessage data label => exact sendBinaryMessage_twinned data label

theorem Twin.starting (h : Twin base known used fresh) (isPlayer : Bool) :
    Twin base True (used.starting isPlayer) (fresh.starting isPlayer) :=
  { h with
    isOnlyPlayer := fun _ => rfl
    isCommunicating := rfl
    gstManager := rfl
    signalingContext := by rw [Manager.starting, h.roomId]; rfl }

theorem connectOrAbandon_twinned (url streamId : String) :
    Twinned base known id
      (do if ← connect url streamId then return true else abandon)
      (do if ← connect url streamId then return true else abandon) :=
  .bind (v := id) (connect_twinned url streamId) fun _ => .ite (.pure rfl)
    (.bind cleanupResources_twinned fun _ =>
      .bind (.modify fun _ _ h => { h with isCommunicating := rfl }) fun _ => .pure rfl)

theorem deliver_of_not_connected {cb : Callback} (hcb : cb.onSocket = true)
    (h : m.connected = false) : deliver cb e m = ⟨some (), m, []⟩ := by
  cases cb with
  | wsOpened | wsClosed | wsMessage text => simp [deliver, h]
  | _ => cases hcb

theorem connected_of_invoke {call : Api} (hcall : ∀ isPlayer, call ≠ .start isPlayer)
    (h : (invoke call e m).state.connected = true) : m.connected = true := by
  have hduring (hd : (Input.api call).during) : m.connected = true := by
    obtain ⟨⟨_, _, _, hs⟩, -⟩ := invoke_during hd e m
    rw [hs] at h
    exact h
  cases call with
  | start isPlayer => exact absurd rfl (hcall isPlayer)
  | stop =>
    change (stop2WayCommunication e m).state.connected = true at h
    cases hc : m.isCommunicating with
    | true =>
      rw [stop2WayCommunication_apply hc] at h
      cases h
    | false => simpa [stop2WayCommunication, hc] using h
  | _ => exact hduring trivial

/-- A start does the same, whatever `isOnlyPlayer` was. -/
theorem start_twin (h : Twin base (fresh.connected = true) used fresh) (isPlayer : Bool) (e : Env) :
    Twin base ((start2WayCommunication isPlayer e fresh).state.connected = true)
        (start2WayCommunication isPlayer (e.shift base.nextPc) used).state
        (start2WayCommunication isPlayer e fresh).state ∧
      (start2WayCommunication isPlayer (e.shift base.nextPc) used).calls =
        (start2WayCommunication isPlayer e fresh).calls.map (Invocation.shift base.nextPc) := by
  cases hc : fresh.isCommunicating with
  | true =>
    rw [start2WayCommunication_of_running isPlayer _ hc,
      start2WayCommunication_of_running isPlayer _ (h.isCommunicating.trans hc)]
    exact ⟨h, rfl⟩
  | false =>
    have hurl : used.lacksUrl = fresh.lacksUrl := by
      rw [Manager.lacksUrl, h.signalingServerUrl]
      rfl
    rw [start2WayCommunication_apply isPlayer _ hc,
      start2WayCommunication_apply isPlayer _ (h.isCommunicating.trans hc), hurl,
      h.publishStreamId, h.signalingServerUrl]
    cases fresh.lacksUrl with
    | true => exact ⟨h, rfl⟩
    | false =>
      have hrest : Twinned base True id
          (do
            setupPublishPeer fresh.publishStreamId
            if ← connect fresh.signalingServerUrl fresh.publishStreamId then return true else abandon)
          (do
            setupPublishPeer fresh.publishStreamId
            if ← connect fresh.signalingServerUrl fresh.publishStreamId then return true
            else abandon) :=
        .bind (setupPublishPeer_twinned trivial _) fun _ => connectOrAbandon_twinned _ _
      obtain ⟨-, hs, hcalls⟩ := hrest e _ _ (h.starting isPlayer)
      exact ⟨hs.weaken fun _ => trivial, hcalls⟩

/-- An input of the new manager and its counterpart. -/
theorem inputStep_twin (i : Timed Input) (h : Twin base (fresh.connected = true) used fresh) :
    Twin base ((inputStep i fresh).1.connected = true) (inputStep (i.shift base.nextPc) used).1
        (inputStep i fresh).1 ∧
      (inputStep (i.shift base.nextPc) used).2 =
        (inputStep i fresh).2.map (Invocation.shift base.nextPc) := by
  obtain ⟨what, e⟩ := i
  cases what with
  | callback cb =>
    cases hcb : cb.onSocket with
    | false =>
      obtain ⟨-, hs, hc⟩ := deliver_twinned hcb e used fresh h
      refine ⟨Twin.weaken hs fun hconn => ?_, hc⟩
      rwa [inputStep_callback, connected_step_eq] at hconn
    | true =>
      cases hconn : fresh.connected with
      | true =>
        obtain ⟨-, hs, hc⟩ := deliver_socket_twinned base trivial hcb e used fresh
          (h.weaken fun _ => hconn)
        exact ⟨hs.weaken fun _ => trivial, hc⟩
      | false =>
        have hcb' : (cb.shift base.nextPc).onSocket = true := by
          cases cb <;> first | rfl | cases hcb
        have hused := deliver_of_not_connected (e := e.shift base.nextPc) hcb' (h.connected.trans hconn)
        have hfresh := deliver_of_not_connected (e := e) hcb hconn
        change Twin base ((deliver cb e fresh).state.connected = true)
            (deliver (cb.shift base.nextPc) (e.shift base.nextPc) used).state (deliver cb e fresh).state ∧
          (deliver (cb.shift base.nextPc) (e.shift base.nextPc) used).calls =
            (deliver cb e fresh).calls.map (Invocation.shift base.nextPc)
        rw [hused, hfresh]
        exact ⟨h, rfl⟩
  | api call =>
    have hother (hcall : ∀ isPlayer, call ≠ .start isPlayer) :
        Twin base ((invoke call e fresh).state.connected = true)
            (invoke call (e.shift base.nextPc) used).state (invoke call e fresh).state ∧
          (invoke call (e.shift base.nextPc) used).calls =
            (invoke call e fresh).calls.map (Invocation.shift base.nextPc) := by
      obtain ⟨-, hs, hc⟩ := invoke_twinned hcall e used fresh h
      exact ⟨Twin.weaken hs fun hconn => connected_of_invoke hcall hconn, hc⟩
    cases call with
    | start isPlayer =>
      have hstart := start_twin h isPlayer e
      rwa [← (invoke_start isPlayer e fresh).1, ← (invoke_start isPlayer e fresh).2,
        ← (invoke_start isPlayer _ used).1, ← (invoke_start isPlayer _ used).2] at hstart
    | _ => exact hother nofun

/-- The command a call sends. -/
def Call.command : Call → Option Command
  | .send c => some c
  | _ => none

/-- Sessions that ended, with callbacks only while they lasted, leave nothing behind: every
tracker is empty and the owned objects are gone. Whatever happens next, with later numbers for
the connections, the manager sends the commands, makes the calls and the connections and keeps
the trackers of a new manager with its settings. -/
theorem sessions_independent (first : List (Timed Input))
    (hin : inputStep.Along (fun i m => i.inSession m) first {})
    (hended : (inputStep.run first {}).1.isCommunicating = false) (second : List (Timed Input)) :
    let base := (inputStep.run first {}).1
    let used := inputStep.run (second.map (Timed.shift base.nextPc)) base
    let fresh := inputStep.run second
      { signalingServerUrl := base.signalingServerUrl, roomId := base.roomId,
        publishStreamId := base.publishStreamId }
    (Idle base ∧ base.gstManager = false ∧ base.signalingContext = none) ∧
      used.2.filterMap (fun c => c.call.command) = fresh.2.filterMap (fun c => c.call.command) ∧
      used.2 = fresh.2.map (Invocation.shift base.nextPc) ∧
      Twin base (fresh.1.connected = true) used.1 fresh.1 := by
  intro base used fresh
  have hrest : Rested base := run_rested first hin hended
  obtain ⟨htwin, hcalls⟩ := Step.run_simulates
    (R := fun used fresh => Twin base (fresh.connected = true) used fresh)
    (fun i _ _ h => inputStep_twin i h) second base _ (hrest.twin _ Bool.false_ne_true)
  refine ⟨⟨hrest.idle, hrest.gstManager, hrest.signalingContext⟩, ?_, hcalls, htwin⟩
  rw [hcalls, List.filterMap_map]
  refine List.filterMap_congr fun c _ => ?_
  obtain ⟨call, returned⟩ := c
  cases call <;> rfl

/-- A second start after a session that was stopped. -/
theorem restarted :
    let first : List (Timed Input) :=
      [⟨.api (.setSignalingServerURL "ws"), .calm⟩, ⟨.api (.setStreamId "me"), .calm⟩,
        ⟨.api (.start false), .calm⟩, ⟨.callback .wsOpened, .calm⟩, ⟨.api .stop, .calm⟩]
    let second : List (Timed Input) :=
      [⟨.api (.start true), .calm⟩, ⟨.callback .wsOpened, .calm⟩]
    let base := (inputStep.run first {}).1
    (inputStep.run (second.map (Timed.shift base.nextPc)) base).2.filterMap
        (fun c => c.call.command) =
      (inputStep.run second { signalingServerUrl := "ws", publishStreamId := "me" }).2.filterMap
        (fun c => c.call.command) := by
  refine (sessions_independent _ ?_ (by decide) _).2.1
  simp only [Step.along_cons, Step.along_nil, and_true]
  exact ⟨nofun, nofun, nofun, fun _ _ => by decide, nofun⟩

end ConferenceCall

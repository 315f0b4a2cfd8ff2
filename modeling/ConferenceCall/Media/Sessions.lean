import ConferenceCall.Media.Tracks

/-! The manager between and during sessions, as far as the media are concerned: when its
`m_gstManager` is there, which role it has and which connections are open. -/

namespace ConferenceCall.Media

open Library

variable {e : Env} {m m' : Manager}

/-- A manager has its `m_gstManager` while it communicates, and no connection between sessions. -/
structure Seated (m : Manager) : Prop where
  linked : m.Linked
  running : m.gstManager = m.isCommunicating
  ended : m.isCommunicating = false → m.pcs = ∅ ∧ m.signalingContext = none

theorem Seated.new : Seated {} := ⟨.new, rfl, fun _ => ⟨rfl, rfl⟩⟩

/-- Outside of a session every connection is closed. -/
theorem Seated.not_open (h : Seated m) (hg : m.gstManager = false) (pc : ℕ) :
    pc ∉ m.openPeers := by
  intro hpc
  obtain ⟨hpcs, -⟩ := h.ended (h.running ▸ hg)
  rw [mem_openPeers] at hpc
  cases hp : m.peers[pc]? with
  | none => simp [hp] at hpc
  | some p =>
    have hstored := (h.linked.stored pc p hp).mp (by simpa [hp] using hpc)
    simp [hpcs] at hstored

theorem leave_apart (e : Env) (m : Manager) : ∀ c ∈ (sendLeave e m).calls, Apart c := by
  cases hl : m.leaves with
  | false => simp [sendLeave_of_not_leaves hl]
  | true =>
    cases hc : m.signaling with
    | none =>
      simp [sendLeave, hl, sendStopAndLeave, send_apply, Manager.sendFails, Manager.sent, hc,
        Outcome.after]
    | some c =>
      rw [sendLeave_of_leaves hl hc]
      intro c hc
      simp only [leaveCalls] at hc
      split_ifs at hc <;> simp only [List.mem_cons, List.not_mem_nil, or_false] at hc <;>
        rcases hc with rfl | rfl | rfl <;> exact ⟨rfl, rfl⟩

theorem ending_apart (e : Env) (m : Manager) : ∀ c ∈ (sendLeave e m).calls ++
    (if m.wsOpen then [⟨.closeSocket, true⟩] else []), Apart c := by
  intro c hc
  rcases List.mem_append.mp hc with hc | hc
  · exact leave_apart e m c hc
  · split_ifs at hc
    · rw [List.mem_singleton.mp hc]
      exact ⟨rfl, rfl⟩
    · cases hc

theorem makesGst_start {isPlayer p : Bool} (h : makesGst (.api (.start isPlayer)) m = some p) :
    p = isPlayer ∧ m.isCommunicating = false ∧ m.lacksUrl = false := by
  simp only [makesGst] at h
  split_ifs at h with hrest
  rw [Bool.or_eq_true, not_or, Bool.not_eq_true, Bool.not_eq_true] at hrest
  exact ⟨(Option.some.inj h).symm, hrest⟩

/-- A start sets the publish peer up, and then has a context or has given up. -/
theorem start_outcome (isPlayer : Bool) (e : Env) (hc : m.isCommunicating = false)
    (hurl : m.lacksUrl = false) :
    let o := start2WayCommunication isPlayer e m
    let t := setupPublishPeer m.publishStreamId e (m.starting isPlayer)
    (∃ ctx, o.state = { t.state with signalingContext := ctx } ∨ o.state =
      { ({ t.state with signalingContext := ctx } : Manager).cleared with
        isCommunicating := false }) ∧
      ∃ rest, o.calls = t.calls ++ rest ∧ ∀ c ∈ rest, Apart c := by
  intro o t
  have ho : o = _ := start2WayCommunication_apply isPlayer e hc
  rw [hurl] at ho
  rcases Act.bind_cases (setupPublishPeer m.publishStreamId)
    (fun _ => do
      if ← connect m.signalingServerUrl m.publishStreamId then return true else abandon)
    e (m.starting isPlayer) with ⟨-, hb⟩ | ⟨_, -, hb⟩
  · rw [ho.trans hb]
    exact ⟨⟨t.state.signalingContext, .inl rfl⟩, [], (List.append_nil _).symm, by simp⟩
  · rw [ho.trans hb]
    simp only [Act.bind_apply, Opening.connect_apply, Outcome.andThen_some, Outcome.after_state,
      Outcome.after_calls]
    cases hopen : e.throws .openSocket with
    | false => exact ⟨⟨_, .inl rfl⟩, _, rfl, by simp [Apart, localTrack, packet]⟩
    | true =>
      simp only [Bool.not_true, Bool.false_eq_true, if_false, abandon_apply]
      refine ⟨⟨_, .inr rfl⟩, _, rfl, fun c hc => ?_⟩
      rcases List.mem_append.mp hc with hc | hc
      · rw [List.mem_singleton.mp hc]
        exact ⟨rfl, rfl⟩
      · exact ending_apart e _ c hc

theorem nextPc_cleared (m : Manager) : m.cleared.nextPc = m.nextPc := by
  simp [Manager.cleared, Manager.closeAll, Manager.nextPc]

theorem start_adds (isPlayer : Bool) (e : Env) (m : Manager) :
    Adds m (start2WayCommunication isPlayer e m).state
      (start2WayCommunication isPlayer e m).calls := by
  cases hc : m.isCommunicating with
  | true =>
    rw [start2WayCommunication_of_running isPlayer e hc]
    exact adds_of_apart (by simp)
  | false =>
    cases hurl : m.lacksUrl with
    | true =>
      rw [start2WayCommunication_apply isPlayer e hc, hurl]
      exact adds_of_apart (by simp)
    | false =>
      obtain ⟨⟨ctx, hstate⟩, rest, hcalls, hrest⟩ := start_outcome isPlayer e hc hurl
      have hsetup : Adds m _ _ := setupPublishPeer_adds m.publishStreamId e (m.starting isPlayer)
      rw [hcalls]
      refine Adds.append ?_ (adds_of_apart hrest)
      rcases hstate with hs | hs <;> rw [hs]
      · exact hsetup
      · exact hsetup.congr rfl (nextPc_cleared _) rfl

theorem start_packets (isPlayer : Bool) (e : Env) (m : Manager) :
    ∀ c ∈ (start2WayCommunication isPlayer e m).calls, packet c = none := by
  cases hc : m.isCommunicating with
  | true => simp [start2WayCommunication_of_running isPlayer e hc]
  | false =>
    cases hurl : m.lacksUrl with
    | true => simp [start2WayCommunication_apply isPlayer e hc, hurl]
    | false =>
      obtain ⟨-, rest, hcalls, hrest⟩ := start_outcome isPlayer e hc hurl
      rw [hcalls]
      exact fun c hc => (List.mem_append.mp hc).elim (setupPublishPeer_packets _ e _ c)
        fun hc => (hrest c hc).2

theorem sendChatMessage_apart (text date : String) :
    ∀ c ∈ (sendChatMessage text date e m).calls, Apart c := by
  cases hc : m.isCommunicating && m.wsOpen with
  | false => simp [sendChatMessage, hc]
  | true =>
    simp only [sendChatMessage, Act.gets_bind, hc, if_true]
    cases hd : e.throws .chatDump with
    | true => simp [sendChat, check_apply, hd]
    | false =>
      cases hl : m.localDataChannels.lookup m.publishStreamId with
      | none => simp [sendChat, check_apply, hd, hl]
      | some ch =>
        cases ho : e.isOpen ch <;>
          simp [sendChat, check_apply, hd, hl, ho, call_apply, Apart, localTrack, packet]

theorem sendBinaryMessage_apart (data : List UInt8) (label : String) :
    ∀ c ∈ (sendBinaryMessage data label e m).calls, Apart c := by
  cases hl : m.localDataChannels.lookup label with
  | none => simp [sendBinaryMessage, hl]
  | some ch =>
    cases ho : e.isOpen ch <;> simp [sendBinaryMessage, hl, ho, call_apply, Apart, localTrack, packet]

/-- No call of the API but a start is about the media. -/
theorem invoke_apart {call : Api} (h : ∀ isPlayer, call ≠ .start isPlayer) :
    ∀ c ∈ (invoke call e m).calls, Apart c := by
  cases call with
  | start isPlayer => exact absurd rfl (h isPlayer)
  | stop =>
    change ∀ c ∈ (stop2WayCommunication e m).calls, Apart c
    cases hc : m.isCommunicating with
    | false => simp [stop2WayCommunication, hc]
    | true =>
      rw [stop2WayCommunication_calls hc]
      exact ending_apart e m
  | sendChatMessage text date => exact sendChatMessage_apart text date
  | sendBinaryMessage data label => exact sendBinaryMessage_apart data label
  | setSignalingServerURL url => simp [invoke, setSignalingServerURL]
  | setRoomId roomId => simp [invoke, ConferenceCall.setRoomId]
  | setStreamId streamId => simp [invoke, ConferenceCall.setStreamId]

theorem inputStep_adds (i : Timed Input) (m : Manager) :
    Adds m (inputStep i m).1 (inputStep i m).2 := by
  obtain ⟨what, e⟩ := i
  cases what with
  | callback cb => exact deliver_adds cb e m
  | api call =>
    by_cases hstart : ∃ isPlayer, call = .start isPlayer
    · obtain ⟨isPlayer, rfl⟩ := hstart
      obtain ⟨hs, hc⟩ := invoke_start isPlayer e m
      change Adds m (invoke (.start isPlayer) e m).state (invoke (.start isPlayer) e m).calls
      rw [hs, hc]
      exact start_adds isPlayer e m
    · exact adds_of_apart (invoke_apart fun isPlayer h => hstart ⟨isPlayer, h⟩)

/-- The packets of an input: those of a remote audio track during a session. -/
theorem inputStep_packets (i : Input) (e : Env) (m : Manager) :
    (inputStep ⟨i, e⟩ m).2.filterMap packet = match i with
      | .callback (.trackData track data) =>
        if m.gstManager ∧ ∃ h, m.trackHandlers.lookup track = some h ∧ h.kind = "audio" then [data]
        else []
      | _ => [] := by
  have hnone {l : List Invocation} (h : ∀ c ∈ l, packet c = none) : l.filterMap packet = [] :=
    List.filterMap_eq_nil_iff.mpr h
  cases i with
  | callback cb =>
    cases cb with
    | trackData track data =>
      change (deliver (.trackData track data) e m).calls.filterMap packet = _
      rw [deliver_trackData_calls]
      dsimp only
      split_ifs <;> rfl
    | wsOpened =>
      refine hnone ?_
      change ∀ c ∈ (deliver .wsOpened e m).calls, packet c = none
      cases hc : m.connected with
      | true =>
        rw [deliver_wsOpened hc]
        exact onOpen_packets e m
      | false => simp [deliver, hc]
    | _ => exact hnone fun c hc => (deliver_apart (by simp) (by simp) c hc).2
  | api call =>
    refine hnone ?_
    change ∀ c ∈ (invoke call e m).calls, packet c = none
    by_cases hstart : ∃ isPlayer, call = .start isPlayer
    · obtain ⟨isPlayer, rfl⟩ := hstart
      rw [(invoke_start isPlayer e m).2]
      exact start_packets isPlayer e m
    · exact fun c hc => (invoke_apart (fun isPlayer h => hstart ⟨isPlayer, h⟩) c hc).2

/-- Only the socket leads to a new connection. -/
theorem deliver_silent (hsilent : m.connected = false) (cb : Callback) (e : Env) :
    (deliver cb e m).state.pcs = m.pcs := by
  have hother (hsocket : cb.onSocket = false) : (deliver cb e m).state.pcs = m.pcs := by
    have hchange := deliver_change hsocket e m
    generalize (deliver cb e m).state = m' at hchange ⊢
    cases hchange with
    | signal _ => cases hsocket
    | publisher _ _ | publisherWithChannel _ _ _ => cases hsocket
    | _ => rfl
  cases cb with
  | wsOpened | wsClosed | wsMessage text => simp [deliver, hsilent]
  | _ => exact hother rfl

/-- An input keeps what holds of a session and between sessions. -/
theorem Seated.input (h : Seated m) (i : Timed Input) : Seated (inputStep i m).1 := by
  have hlinked := (inputStep_effects i m).invariant (fun _ _ he hm => Manager.Linked.effect hm he)
    h.linked
  obtain ⟨what, e⟩ := i
  cases what with
  | callback cb =>
    obtain ⟨hrunning, hgst, -, -, hclient⟩ := step_frame ⟨cb, e⟩ m
    refine ⟨hlinked, hgst.trans (h.running.trans hrunning.symm), fun hended => ?_⟩
    obtain ⟨hpcs, hcontext⟩ := h.ended (hrunning ▸ hended)
    rw [hcontext] at hclient
    refine ⟨?_, Option.map_eq_none_iff.mp hclient⟩
    -- without a client the socket is silent, and nothing else makes a connection
    have hsilent : m.connected = false := by simp [Manager.connected, Manager.signaling, hcontext]
    exact (deliver_silent hsilent cb e).trans hpcs
  | api call =>
    have hfields (hd : (Input.api call).during) : Seated (invoke call e m).state := by
      obtain ⟨⟨_, _, _, hs⟩, -⟩ := invoke_during hd e m
      have hl : (invoke call e m).state.Linked := hlinked
      rw [hs] at hl ⊢
      exact ⟨hl, h.running, h.ended⟩
    cases call with
    | start isPlayer =>
      change Seated (invoke (.start isPlayer) e m).state
      have hl : (invoke (.start isPlayer) e m).state.Linked := hlinked
      rw [(invoke_start isPlayer e m).1] at hl ⊢
      cases hc : m.isCommunicating with
      | true => rwa [start2WayCommunication_of_running isPlayer e hc]
      | false =>
        cases hurl : m.lacksUrl with
        | true => rwa [start2WayCommunication_apply isPlayer e hc, hurl]
        | false =>
          obtain ⟨⟨ctx, hstate⟩, -⟩ := start_outcome isPlayer e hc hurl
          obtain ⟨hrunning, hgst, -⟩ :=
            setupPublishPeer_frame m.publishStreamId e (m.starting isPlayer)
          rcases hstate with hs | hs <;> rw [hs] at hl ⊢
          · have hcontinues : (setupPublishPeer m.publishStreamId e
                (m.starting isPlayer)).state.isCommunicating = true := hrunning
            exact ⟨hl, hgst.trans hrunning.symm, fun hended => by simp [hcontinues] at hended⟩
          · exact ⟨hl, rfl, fun _ => ⟨rfl, rfl⟩⟩
    | stop =>
      change Seated (stop2WayCommunication e m).state
      cases hc : m.isCommunicating with
      | false => simpa [stop2WayCommunication, hc] using h
      | true =>
        have hl : (stop2WayCommunication e m).state.Linked := hlinked
        rw [stop2WayCommunication_apply hc] at hl ⊢
        exact ⟨hl, rfl, fun _ => ⟨rfl, rfl⟩⟩
    | _ => exact hfields trivial

/-! ### The handlers of the remote tracks -/

/-- The input ends a session: one that was there, or one that it began itself. -/
def Ends (i : Input) (e : Env) (m : Manager) : Prop :=
  (m.gstManager = true ∨ (makesGst i m).isSome) ∧ (inputStep ⟨i, e⟩ m).1.gstManager = false

theorem setupPublishPeer_trackHandlers (s : String) (e : Env) (m : Manager) :
    (setupPublishPeer s e m).state.trackHandlers = m.trackHandlers := by
  cases hp : m.pcs.lookup s with
  | some pc => rw [setupPublishPeer_of_some hp]
  | none =>
    cases ht : e.throws .createPeer with
    | true => rw [setupPublishPeer_of_throws hp ht]
    | false => rcases (setupPublishPeer_spec hp ht).1 with hs | ⟨-, hs⟩ <;> rw [hs] <;> rfl

/-- An input that hands no track over keeps the handlers, or drops them all with the session. -/
theorem inputStep_trackHandlers (h : Seated m) {i : Input} (e : Env)
    (hover : ∀ pc t, i = .callback (.track pc t) → m.captured pc = none) :
    Ends i e m ∧ (inputStep ⟨i, e⟩ m).1.trackHandlers = ∅ ∨
      ¬ Ends i e m ∧ (inputStep ⟨i, e⟩ m).1.trackHandlers = m.trackHandlers := by
  cases i with
  | callback cb =>
    right
    constructor
    · rintro ⟨hg | hp, hafter⟩
      · rw [inputStep_callback, (step_frame ⟨cb, e⟩ m).2.1, hg] at hafter
        cases hafter
      · cases hp
    · rw [inputStep_callback]
      rcases step_change_or_stays ⟨cb, e⟩ m with hs | hchange
      · rw [hs]
      · generalize (step ⟨cb, e⟩ m).1 = m' at hchange ⊢
        cases hchange with
        | signal hsig =>
          rename_i sig
          obtain ⟨_, _, _, _, _, _, _, _, _, _, hs⟩ := onSignal_frame sig e m
          rw [hs]
        | track hc =>
          cases (hover _ _ rfl).symm.trans hc
        | _ => rfl
  | api call =>
    have hsame (hs : (inputStep ⟨.api call, e⟩ m).1.trackHandlers = m.trackHandlers)
        (hg : (inputStep ⟨.api call, e⟩ m).1.gstManager = m.gstManager)
        (hp : m.gstManager = false → makesGst (.api call) m = none) :
        Ends (.api call) e m ∧ (inputStep ⟨.api call, e⟩ m).1.trackHandlers = ∅ ∨
          ¬ Ends (.api call) e m ∧ (inputStep ⟨.api call, e⟩ m).1.trackHandlers =
            m.trackHandlers := by
      refine .inr ⟨?_, hs⟩
      rintro ⟨hbefore, hafter⟩
      rw [hg] at hafter
      simp [hafter, hp hafter] at hbefore
    have hduring (hd : (Input.api call).during) :
        Ends (.api call) e m ∧ (inputStep ⟨.api call, e⟩ m).1.trackHandlers = ∅ ∨
          ¬ Ends (.api call) e m ∧ (inputStep ⟨.api call, e⟩ m).1.trackHandlers =
            m.trackHandlers := by
      obtain ⟨⟨_, _, _, hs⟩, -⟩ := invoke_during hd e m
      have hafter : (inputStep ⟨.api call, e⟩ m).1 = _ := hs
      refine hsame (by rw [hafter]) (by rw [hafter]) fun _ => ?_
      cases call with
      | start _ => cases hd
      | _ => rfl
    cases call with
    | start isPlayer =>
      have hstart : (inputStep ⟨.api (.start isPlayer), e⟩ m).1 =
          (start2WayCommunication isPlayer e m).state := (invoke_start isPlayer e m).1
      cases hc : m.isCommunicating with
      | true =>
        have hg := h.running.trans hc
        rw [start2WayCommunication_of_running isPlayer e hc] at hstart
        exact hsame (by rw [hstart]) (by rw [hstart]) (by simp [hg])
      | false =>
        cases hurl : m.lacksUrl with
        | true =>
          rw [start2WayCommunication_apply isPlayer e hc, hurl, if_pos rfl] at hstart
          exact hsame (by rw [hstart]) (by rw [hstart]) (by simp [makesGst, hurl])
        | false =>
          obtain ⟨⟨ctx, hstate⟩, -⟩ := start_outcome isPlayer e hc hurl
          rcases hstate with hs | hs <;> rw [hs] at hstart
          · refine .inr ⟨?_, ?_⟩
            · rintro ⟨-, hafter⟩
              rw [hstart] at hafter
              obtain ⟨-, hgst, -⟩ :=
                setupPublishPeer_frame m.publishStreamId e (m.starting isPlayer)
              cases hgst.symm.trans hafter
            · rw [hstart]
              exact setupPublishPeer_trackHandlers _ e (m.starting isPlayer)
          · exact .inl ⟨⟨.inr (by simp [makesGst, hc, hurl]), by rw [hstart]; rfl⟩,
              by rw [hstart]; rfl⟩
    | stop =>
      have hstop : (inputStep ⟨.api .stop, e⟩ m).1 = (stop2WayCommunication e m).state := rfl
      cases hc : m.isCommunicating with
      | false =>
        have hs : (stop2WayCommunication e m).state = m := by simp [stop2WayCommunication, hc]
        exact hsame (by rw [hstop, hs]) (by rw [hstop, hs]) fun _ => rfl
      | true =>
        rw [stop2WayCommunication_apply hc] at hstop
        exact .inl ⟨⟨.inl (h.running.trans hc), by rw [hstop]; rfl⟩, by rw [hstop]; rfl⟩
    | _ => exact hduring trivial

/-- The role is set with a new `GstManager`; without one, none is there that was not. -/
theorem inputStep_role (i : Input) (e : Env) (m : Manager) :
    (∀ p, makesGst i m = some p → (inputStep ⟨i, e⟩ m).1.isOnlyPlayer = p) ∧
      (makesGst i m = none → (inputStep ⟨i, e⟩ m).1.isOnlyPlayer = m.isOnlyPlayer ∧
        ((inputStep ⟨i, e⟩ m).1.gstManager → m.gstManager)) := by
  cases i with
  | callback cb =>
    refine ⟨fun p hp => (by cases hp), fun _ => ⟨deliver_role cb e m, fun hg => ?_⟩⟩
    rwa [inputStep_callback, (step_frame ⟨cb, e⟩ m).2.1] at hg
  | api call =>
    change (∀ p, _ → (invoke call e m).state.isOnlyPlayer = p) ∧
      (_ → (invoke call e m).state.isOnlyPlayer = m.isOnlyPlayer ∧
        ((invoke call e m).state.gstManager → m.gstManager))
    have hfields (hd : (Input.api call).during) :
        (invoke call e m).state.isOnlyPlayer = m.isOnlyPlayer ∧
          ((invoke call e m).state.gstManager → m.gstManager) := by
      obtain ⟨⟨_, _, _, hs⟩, -⟩ := invoke_during hd e m
      rw [hs]
      exact ⟨rfl, id⟩
    cases call with
    | start isPlayer =>
      rw [(invoke_start isPlayer e m).1]
      refine ⟨fun p hp => ?_, fun hnone => ?_⟩
      · obtain ⟨rfl, hc, hurl⟩ := makesGst_start hp
        obtain ⟨⟨ctx, hstate⟩, -⟩ := start_outcome p e hc hurl
        obtain ⟨-, -, hrole⟩ := setupPublishPeer_frame m.publishStreamId e (m.starting p)
        rcases hstate with hs | hs <;> rw [hs] <;> exact hrole
      · have hsame : (start2WayCommunication isPlayer e m).state = m := by
          cases hc : m.isCommunicating with
          | true => rw [start2WayCommunication_of_running isPlayer e hc]
          | false =>
            have hurl : m.lacksUrl = true := by
              by_contra hurl
              simp [makesGst, hc, hurl] at hnone
            rw [start2WayCommunication_apply isPlayer e hc, hurl, if_pos rfl]
        rw [hsame]
        exact ⟨rfl, id⟩
    | stop =>
      refine ⟨fun p hp => (by cases hp), fun _ => ?_⟩
      change (stop2WayCommunication e m).state.isOnlyPlayer = _ ∧
        ((stop2WayCommunication e m).state.gstManager → _)
      cases hc : m.isCommunicating with
      | false => simp [stop2WayCommunication, hc]
      | true =>
        rw [stop2WayCommunication_apply hc]
        exact ⟨rfl, fun hg => by cases hg⟩
    | _ => exact ⟨fun p hp => (by cases hp), fun _ => hfields trivial⟩

/-- An open connection that is not new was open before. -/
theorem mem_openPeers_input {i : Timed Input} {pc : ℕ} (hpc : pc < m.nextPc)
    (hopen : pc ∈ (inputStep i m).1.openPeers) : pc ∈ m.openPeers := by
  obtain ⟨p, hp⟩ : ∃ p, m.peers[pc]? = some p := ⟨_, List.getElem?_eq_getElem hpc⟩
  rw [mem_openPeers, hp]
  cases hclosed : p.closeCalled with
  | false => simp [hclosed]
  | true =>
    have hshut : m.Shut pc := ⟨p, hp, hclosed⟩
    exact absurd (hshut.effects (inputStep_effects i m)) (not_shut_of_open hopen)

theorem nextPc_input (i : Timed Input) (m : Manager) : m.nextPc ≤ (inputStep i m).1.nextPc := by
  refine (inputStep_effects i m).invariant (I := fun m' => m.nextPc ≤ m'.nextPc)
    (fun m₁ m₂ he hle => hle.trans ?_) le_rfl
  cases he with
  | peer needDC hnone => simp [Manager.nextPc, Manager.withPeer]
  | removed s =>
    rw [Manager.nextPc, Manager.nextPc, Manager.withoutPeer, Manager.peersWithout]
    cases m₁.pcs.lookup s <;> simp
  | closed pc => simp [Manager.nextPc, Manager.updatePeer]
  | cleared => exact (nextPc_cleared m₁).ge
  | _ => exact le_rfl

end ConferenceCall.Media

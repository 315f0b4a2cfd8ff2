import ConferenceCall.Manager.Inputs

/-! A start that reports success, beside the state that the library keeps of the session's socket.
`Start2WayCommunication` only looks at `m_isCommunicating`, and nothing clears that flag when the
socket is closed or fails, or when the first publish peer throws. -/

namespace ConferenceCall

open Library

/-- The socket of the session, as the library has it. -/
inductive Socket where
  | absent | connecting | opened | closed
  deriving DecidableEq

namespace Socket

/-- The socket is open or has a connection attempt in progress. -/
def Live (s : Socket) : Prop := s = .connecting ∨ s = .opened

instance (s : Socket) : Decidable s.Live := inferInstanceAs (Decidable (_ ∨ _))

/-- A connection attempt succeeds, or a live socket is closed. -/
def event : Input → Socket → Socket
  | .callback .wsOpened, .connecting => .opened
  | .callback .wsClosed, .connecting => .closed
  | .callback .wsClosed, .opened => .closed
  | _, s => s

/-- What a call of the manager does to the socket. -/
def call (s : Socket) (c : Invocation) : Socket :=
  match c.call with
  | .openSocket _ => if c.returned then .connecting else .closed
  | .closeSocket => .closed
  | _ => s

/-- The object of the socket goes with the signaling context. -/
def within (m : Manager) (s : Socket) : Socket := if m.signalingContext.isNone then .absent else s

end Socket

/-- A manager and the socket of its session. -/
structure Watched where
  manager : Manager
  socket : Socket

/-- An input of the manager, or a failure of the socket that reaches no callback. -/
inductive Occurrence where
  | input (i : Timed Input)
  | socketFailed

def watch : Step Occurrence Watched Invocation
  | .input i, s =>
    let r := inputStep i s.manager
    (⟨r.1, (r.2.foldl Socket.call (s.socket.event i.what)).within r.1⟩, r.2)
  | .socketFailed, s => ({ s with socket := if s.socket.Live then .closed else s.socket }, [])

/-- A start that returns true leaves a live socket. -/
def ReportsLive (o : Occurrence) (s : Watched) : Prop :=
  ∀ isPlayer e, o = .input ⟨.api (.start isPlayer), e⟩ →
    (start2WayCommunication isPlayer e s.manager).value = some true → (watch o s).1.socket.Live

/-- A start that finds a session finds its socket live. -/
def FindsLive (o : Occurrence) (s : Watched) : Prop :=
  ∀ isPlayer e, o = .input ⟨.api (.start isPlayer), e⟩ →
    s.manager.isCommunicating = true → s.socket.Live

variable {e : Env} {m : Manager}

theorem setupPublishPeer_signalingContext (streamId : String) (e : Env) (m : Manager) :
    (setupPublishPeer streamId e m).state.signalingContext = m.signalingContext := by
  cases h : m.pcs.lookup streamId with
  | some pc => rw [setupPublishPeer_of_some h]
  | none =>
    cases ht : e.throws .createPeer with
    | true => rw [setupPublishPeer_of_throws h ht]
    | false =>
      rcases (setupPublishPeer_spec h ht).1 with hs | ⟨-, hs⟩
      · rw [hs]
        rfl
      · rw [hs]
        rfl

/-- A start that begins a session ends with a connection attempt. -/
theorem start_connects (isPlayer : Bool) (hidle : m.isCommunicating = false)
    (hv : (start2WayCommunication isPlayer e m).value = some true) :
    (∃ calls, (start2WayCommunication isPlayer e m).calls =
      calls ++ [⟨.openSocket m.signalingServerUrl, true⟩]) ∧
      (start2WayCommunication isPlayer e m).state.signalingContext.isSome := by
  have hctx := setupPublishPeer_signalingContext m.publishStreamId e (m.starting isPlayer)
  rw [start2WayCommunication_apply isPlayer e hidle] at hv ⊢
  split_ifs at hv ⊢
  · simp at hv
  · rw [Act.bind_apply] at hv ⊢
    generalize setupPublishPeer m.publishStreamId e (m.starting isPlayer) = r at hv hctx ⊢
    obtain ⟨_ | _, t, calls⟩ := r
    · cases hv
    · cases hopen : e.throws .openSocket with
      | true => simp [Opening.connect_apply, hopen, Opening.abandon_value] at hv
      | false =>
        simp only [Outcome.andThen_some, Act.bind_apply, Opening.connect_apply, hopen]
        refine ⟨⟨calls, rfl⟩, ?_⟩
        change (t.signalingContext.map _).isSome
        rw [show t.signalingContext = (m.starting isPlayer).signalingContext from hctx]
        rfl

/-! ### Runs -/

theorem watch_within (o : Occurrence) (s : Watched)
    (h : s.manager.signalingContext = none → s.socket = .absent) :
    (watch o s).1.manager.signalingContext = none → (watch o s).1.socket = .absent := by
  cases o with
  | input i =>
    intro (hnone : (inputStep i s.manager).1.signalingContext = none)
    change Socket.within _ _ = _
    rw [Socket.within, hnone]
    rfl
  | socketFailed =>
    intro hnone
    change (if s.socket.Live then Socket.closed else s.socket) = .absent
    rw [h hnone]
    rfl

/-- A start reports a live socket exactly when it does not find a dead one. -/
theorem reportsLive_iff (o : Occurrence) (s : Watched)
    (h : s.manager.signalingContext = none → s.socket = .absent) :
    ReportsLive o s ↔ FindsLive o s := by
  refine forall₂_congr fun isPlayer e => forall_congr' fun ho => ?_
  subst ho
  have hinput : inputStep ⟨.api (.start isPlayer), e⟩ s.manager =
      ((start2WayCommunication isPlayer e s.manager).state,
        (start2WayCommunication isPlayer e s.manager).calls) := by
    obtain ⟨hstate, hcalls⟩ := invoke_start isPlayer e s.manager
    exact Prod.ext hstate hcalls
  have hsocket : (watch (.input ⟨.api (.start isPlayer), e⟩) s).1.socket =
      ((start2WayCommunication isPlayer e s.manager).calls.foldl Socket.call s.socket).within
        (start2WayCommunication isPlayer e s.manager).state := by
    simp only [watch, hinput]
    rfl
  rw [hsocket]
  cases hc : s.manager.isCommunicating with
  | true =>
    rw [start2WayCommunication_of_running isPlayer e hc]
    have hsame : s.socket.within s.manager = s.socket := by
      unfold Socket.within
      split_ifs with hnone
      · exact (h (Option.isNone_iff_eq_none.mp hnone)).symm
      · rfl
    simp only [List.foldl_nil, hsame, forall_const]
  | false =>
    refine iff_of_true (fun hv => ?_) (by simp)
    obtain ⟨⟨calls, hcalls⟩, hctx⟩ := start_connects isPlayer hc hv
    rw [hcalls, List.foldl_append, Socket.within, Option.isNone_eq_false_iff.mpr hctx]
    exact .inl rfl

/-- For every sequence of calls, callbacks and socket events on a new manager. -/
theorem start_live_iff (occurrences : List Occurrence) :
    watch.Along ReportsLive occurrences ⟨{}, .absent⟩ ↔
      watch.Along FindsLive occurrences ⟨{}, .absent⟩ :=
  Step.along_congr (I := fun s => s.manager.signalingContext = none → s.socket = .absent)
    watch_within reportsLive_iff occurrences _ fun _ => rfl

/-- The server closes the socket, and a further start reports success. -/
theorem start_over_closed_socket :
    ¬watch.Along ReportsLive
      [.input ⟨.api (.setSignalingServerURL "ws://server"), .calm⟩,
        .input ⟨.api (.start false), .calm⟩, .input ⟨.callback .wsOpened, .calm⟩,
        .input ⟨.callback .wsClosed, .calm⟩, .input ⟨.api (.start false), .calm⟩]
      ⟨{}, .absent⟩ := by
  intro h
  have hlive := h [_, _, _, _] _ [] rfl false .calm rfl rfl
  exact absurd hlive (by decide)

end ConferenceCall

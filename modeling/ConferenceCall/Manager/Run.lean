import ConferenceCall.Manager.Changes

/-! Sessions: a `Start2WayCommunication` that returned true on an idle manager,
followed by callbacks in any order. The identity of the session never changes, and
a connection stays registered under the id its callbacks capture. -/

namespace ConferenceCall

open Library

/-- No session is running and nothing is left of an earlier one. -/
structure Idle (m : Manager) : Prop where
  isCommunicating : m.isCommunicating = false
  pcs : m.pcs = ∅
  isPublisher : m.isPublisher = ∅
  sendPlay : m.sendPlay = ∅
  played : m.played = ∅
  remoteTracks : m.remoteTracks = ∅
  pendingCandidates : m.pendingCandidates = ∅
  midTypeMap : m.midTypeMap = ∅
  localDataChannels : m.localDataChannels = ∅
  remoteDataChannels : m.remoteDataChannels = ∅
  isStreamTalking : m.isStreamTalking = ∅

/-- A new manager is idle, whatever has been configured. -/
theorem idle_new (url roomId streamId : String) :
    Idle { signalingServerUrl := url, roomId, publishStreamId := streamId } := by
  constructor <;> rfl

/-- A successful start. -/
structure Opening where
  before : Manager
  isPlayer : Bool
  env : Env
  idle : Idle before
  opened : (start2WayCommunication isPlayer env before).value = some true

namespace Opening

variable (o : Opening)

/-- The state in which the callbacks of the session start. -/
def state : Manager := (start2WayCommunication o.isPlayer o.env o.before).state

/-- The calls of the start. -/
def calls : List Invocation := (start2WayCommunication o.isPlayer o.env o.before).calls

/-- The stream id of the session. -/
def own : String := o.before.publishStreamId

/-- The room id of the session. -/
def room : String := o.before.roomId

/-- The manager when the publish peer is set up. -/
def prepared : Manager :=
  { o.before with
    isOnlyPlayer := o.isPlayer
    isCommunicating := true
    gstManager := true
    signalingContext := some { roomId := o.room } }

/-- The state a start leaves. -/
def begun : Manager :=
  { (o.prepared.withPublisher o.own).withLocalChannel o.own o.before.nextPc with
    signalingContext := some
      { roomId := o.room, wsOpen := false,
        signaling := some { selfStreamId := o.own, roomId := o.room } } }

private theorem prepared_lookup : o.prepared.pcs.lookup o.own = none := by
  simp [prepared, o.idle.pcs]

/-- `Start2WayCommunication` on an idle manager. -/
private theorem start_eq : start2WayCommunication o.isPlayer o.env o.before =
    if o.before.lacksUrl then ⟨some false, o.before, []⟩
    else (setupPublishPeer o.own o.env o.prepared).andThen fun _ t => (do
      if ← connect o.before.signalingServerUrl o.own then return true else abandon : Act Bool)
        o.env t :=
  start2WayCommunication_apply _ _ o.idle.isCommunicating

theorem connect_apply (url streamId : String) (e : Env) (m : Manager) :
    connect url streamId e m =
      ⟨some (!e.throws .openSocket), { m with
        signalingContext := m.signalingContext.map fun ctx =>
          { ctx with
            wsOpen := false
            signaling := some { selfStreamId := streamId, roomId := ctx.roomId } } },
        [⟨.openSocket url, !e.throws .openSocket⟩]⟩ := rfl

theorem abandon_value (e : Env) (m : Manager) : (abandon e m).value = some false := by
  simp [abandon, cleanupResources_apply]

/-- A start that returns true got through every step. -/
theorem outcome_eq : o.state = o.begun ∧ ∀ c ∈ o.calls, Quiet c := by
  have hv := o.opened
  have hl : o.prepared.localDataChannels.lookup o.own = none := by
    simp [prepared, o.idle.localDataChannels]
  have hdone := setupPublishPeer_completed (e := o.env) o.prepared_lookup hl
  have hquiet : ∀ c ∈ (setupPublishPeer o.own o.env o.prepared).calls, Quiet c :=
    fun c hc =>
    (setupPublishPeer_routine c hc).1
  rw [state, calls, start_eq]
  rw [start_eq] at hv
  split at hv
  · simp at hv
  next hurl =>
    rw [if_neg hurl]
    rcases hs : setupPublishPeer o.own o.env o.prepared with ⟨_ | _, t, cs⟩ <;>
      rw [hs] at hv hdone hquiet
    · simp at hv
    · have ht : t = (o.prepared.withPublisher o.own).withLocalChannel o.own o.before.nextPc :=
        hdone rfl
      subst ht
      cases hopen : o.env.throws .openSocket with
      | true => simp [connect_apply, hopen, abandon_value] at hv
      | false =>
        simp only [Outcome.andThen_some, Act.bind_apply, connect_apply, hopen]
        refine ⟨rfl, fun c hc => ?_⟩
        simp only [Outcome.after_calls, List.mem_append, Bool.not_false, if_true, Act.pure_apply,
          List.append_nil, List.mem_singleton] at hc
        rcases hc with hc | rfl
        · exact hquiet c hc
        · rfl

end Opening

/-- A fresh manager with all three settings, started where no call fails. -/
def Opening.plain : Opening where
  before := { signalingServerUrl := "ws", roomId := "room", publishStreamId := "me" }
  isPlayer := false
  env := .calm
  idle := idle_new "ws" "room" "me"
  opened := by decide

/-! ### What holds during a session -/

/-- Every stored connection is the one made for its stream. -/
def Manager.Owned (m : Manager) : Prop :=
  ∀ streamId pc, m.pcs.lookup streamId = some pc → (m.peers[pc]?).map Peer.streamId = some streamId

section Owned
variable {m : Manager}

theorem Manager.Owned.lt (h : m.Owned) {streamId : String} {pc : ℕ}
    (hpc : m.pcs.lookup streamId = some pc) : pc < m.nextPc := by
  have hs := h streamId pc hpc
  by_contra hlt
  rw [List.getElem?_eq_none (by simpa [nextPc] using hlt)] at hs
  cases hs

/-- Two streams do not share a connection. -/
theorem Manager.Owned.inj (h : m.Owned) {s t : String} {pc : ℕ} (hs : m.pcs.lookup s = some pc)
    (ht : m.pcs.lookup t = some pc) : s = t :=
  Option.some.inj ((h s pc hs).symm.trans (h t pc ht))

theorem Manager.Owned.withPeer (h : m.Owned) (streamId : String) (needDC : Bool) :
    (m.withPeer streamId needDC).Owned := by
  intro s pc hs
  simp only [Manager.withPeer, Dict.lookup_insert_eq] at hs ⊢
  split_ifs at hs with hk
  · cases hs
    simp [Manager.nextPc, hk, Peer.fresh]
  · have hlt := h.lt hs
    rw [List.getElem?_append_left hlt]
    exact h s pc hs

theorem Manager.Owned.updatePeer (h : m.Owned) (pc : ℕ) {f : Peer → Peer}
    (hf : ∀ p, (f p).streamId = p.streamId) : (m.updatePeer pc f).Owned := by
  intro s pc' hs
  have ho := h s pc' hs
  simp only [Manager.updatePeer, List.getElem?_modify]
  cases hp : m.peers[pc']? with
  | none => simp [hp] at ho
  | some p =>
    rw [hp] at ho
    by_cases hk : pc = pc' <;> simpa [hk, hf] using ho

theorem Manager.Owned.withoutPeer (h : m.Owned) (streamId : String) :
    (m.withoutPeer streamId).Owned := by
  intro s pc hs
  simp only [Manager.withoutPeer, Dict.lookup_erase_eq] at hs ⊢
  split_ifs at hs with hk
  cases hp : m.pcs.lookup streamId with
  | none => simpa [Manager.peersWithout, hp] using h s pc hs
  | some pc' =>
    simpa [Manager.peersWithout, hp, Manager.updatePeer] using
      h.updatePeer pc' (fun _ => rfl) (f := Peer.close) s pc hs

theorem Manager.Owned.relinked (h : m.Owned) (e : Env) (sig : Signal) : (m.relinked e sig).Owned := by
  cases sig with
  | onRemoteSDP streamId type sdp =>
    simp only [Manager.relinked]
    split_ifs
    · exact h
    · cases hp : m.pcs.lookup streamId with
      | none => rw [Manager.ensured_of_none hp]; exact h.withPeer streamId _
      | some pc => rwa [Manager.ensured_of_some hp]
  | onPlayFinishedNotification streamId =>
    simp only [Manager.relinked]
    split_ifs
    · exact h
    · exact h.withoutPeer streamId
  | _ => exact h

/-- What no callback changes. -/
theorem step_frame (ev : Event) (m : Manager) :
    (step ev m).1.isCommunicating = m.isCommunicating ∧ (step ev m).1.gstManager = m.gstManager ∧
      (step ev m).1.roomId = m.roomId ∧ (step ev m).1.publishStreamId = m.publishStreamId ∧
      (step ev m).1.signalingContext.map SignalingContext.client =
        m.signalingContext.map SignalingContext.client := by
  rcases step_change_or_stays ev m with hs | hchange
  · rw [hs]
    exact ⟨rfl, rfl, rfl, rfl, rfl⟩
  obtain ⟨cb, e⟩ := ev
  generalize (step ⟨cb, e⟩ m).1 = m' at hchange ⊢
  cases hchange with
  | signal hsig =>
    rename_i sig
    obtain ⟨_, _, _, _, _, _, _, _, _, _, hs⟩ := onSignal_frame sig e m
    rw [hs]
    exact ⟨rfl, rfl, rfl, rfl, rfl⟩
  | context ctx _ hctx => exact ⟨rfl, rfl, rfl, rfl, hctx⟩
  | publisher _ _ => exact ⟨rfl, rfl, rfl, rfl, setWsOpen_client m true⟩
  | publisherWithChannel _ _ _ => exact ⟨rfl, rfl, rfl, rfl, setWsOpen_client m true⟩
  | _ => exact ⟨rfl, rfl, rfl, rfl, rfl⟩

theorem connected_iff_client : m.connected ↔
    ((m.signalingContext.map SignalingContext.client).bind Prod.snd).isSome := by
  cases h : m.signalingContext <;>
    simp [Manager.connected, Manager.signaling, h, SignalingContext.client]

/-- A manager stays connected or unconnected. -/
theorem connected_step_eq (ev : Event) (m : Manager) : (step ev m).1.connected = m.connected := by
  obtain ⟨-, -, -, -, hc⟩ := step_frame ev m
  rw [Bool.eq_iff_iff, connected_iff_client, hc, connected_iff_client]

theorem connected_step (ev : Event) (h : m.connected) : (step ev m).1.connected := by
  rwa [connected_step_eq]

theorem Manager.Owned.after_step (ho : m.Owned) (h : m.connected) (ev : Event) :
    (step ev m).1.Owned := by
  have hchange := step_change ev h
  obtain ⟨cb, e⟩ := ev
  generalize (step ⟨cb, e⟩ m).1 = m' at hchange ⊢
  cases hchange with
  | signal hsig =>
    rename_i sig
    obtain ⟨_, _, hs⟩ := onSignal_state sig e m
    rw [hs]
    exact ho.relinked e sig
  | publisher _ _ => exact ho.withPeer _ true
  | publisherWithChannel _ _ _ => exact ho.withPeer _ true
  | closed pc => exact ho.updatePeer pc fun _ => rfl
  | _ => exact ho

end Owned

/-- The manager is in the session it was started for. -/
structure InSession (own room : String) (m : Manager) : Prop where
  isCommunicating : m.isCommunicating = true
  gstManager : m.gstManager = true
  roomId : m.roomId = room
  publishStreamId : m.publishStreamId = own
  client : m.signalingContext.map SignalingContext.client = some (room, some (own, room))
  owned : m.Owned

section InSession
variable {own room : String} {m : Manager}

theorem InSession.signaling (h : InSession own room m) :
    ∃ c, m.signaling = some c ∧ c.selfStreamId = own ∧ c.roomId = room := by
  have hc := h.client
  rcases hx : m.signalingContext with _ | ctx
  · simp [hx] at hc
  · simp only [hx, Option.map_some, Option.some.injEq, SignalingContext.client, Prod.mk.injEq,
      Option.map_eq_some_iff] at hc
    obtain ⟨-, c, hs, ho, hr⟩ := hc
    exact ⟨c, by simp [Manager.signaling, hx, hs], ho, hr⟩

theorem InSession.connected (h : InSession own room m) : m.connected := by
  obtain ⟨c, hc, -⟩ := h.signaling
  simp [Manager.connected, hc]

theorem InSession.after_step (h : InSession own room m) (ev : Event) :
    InSession own room (step ev m).1 := by
  obtain ⟨hic, hg, hr, hp, hc⟩ := step_frame ev m
  exact ⟨hic.trans h.isCommunicating, hg.trans h.gstManager, hr.trans h.roomId,
    hp.trans h.publishStreamId, hc.trans h.client, h.owned.after_step h.connected ev⟩

theorem InSession.after_run (h : InSession own room m) (evs : List Event) :
    InSession own room (step.run evs m).1 :=
  Step.run_invariant (fun ev _ hm => hm.after_step ev) evs m h

theorem nextPc_relinked (m : Manager) (e : Env) (sig : Signal) :
    m.nextPc ≤ (m.relinked e sig).nextPc := by
  cases sig with
  | onRemoteSDP streamId type sdp =>
    simp only [Manager.relinked]
    split_ifs
    · exact le_rfl
    · cases hp : m.pcs.lookup streamId <;> simp [Manager.ensured, hp, Manager.withPeer, Manager.nextPc]
  | onPlayFinishedNotification streamId =>
    simp only [Manager.relinked]
    split_ifs
    · exact le_rfl
    · cases hp : m.pcs.lookup streamId <;>
        simp [Manager.nextPc, Manager.withoutPeer, Manager.peersWithout, hp]
  | _ => exact le_rfl

/-- The number of a connection is not given again. -/
theorem nextPc_step (ev : Event) (h : m.connected) : m.nextPc ≤ (step ev m).1.nextPc := by
  have hchange := step_change ev h
  obtain ⟨cb, e⟩ := ev
  generalize (step ⟨cb, e⟩ m).1 = m' at hchange ⊢
  cases hchange with
  | signal hsig =>
    rename_i sig
    obtain ⟨_, _, hs⟩ := onSignal_state sig e m
    rw [hs]
    exact nextPc_relinked m e sig
  | publisher _ _ =>
    simp [Manager.nextPc, Manager.withPublisher, Manager.withPeer, Manager.setWsOpen]
  | publisherWithChannel _ _ _ =>
    simp [Manager.nextPc, Manager.withLocalChannel, Manager.withPublisher, Manager.withPeer,
      Manager.setWsOpen]
  | closed pc => simp [Manager.nextPc, Manager.updatePeer]
  | _ => exact le_rfl

theorem nextPc_run (h : InSession own room m) (evs : List Event) :
    m.nextPc ≤ (step.run evs m).1.nextPc := by
  have hrun : InSession own room (step.run evs m).1 ∧ m.nextPc ≤ (step.run evs m).1.nextPc :=
    Step.run_invariant (I := fun m' => InSession own room m' ∧ m.nextPc ≤ m'.nextPc)
    (fun ev _ hm => ⟨hm.1.after_step ev, hm.2.trans (nextPc_step ev hm.1.connected)⟩)
    evs m ⟨h, le_rfl⟩
  exact hrun.2

end InSession

/-- A session starts in its own state. -/
theorem Opening.inSession (o : Opening) : InSession o.own o.room o.state := by
  have hb : o.before.Owned := by
    intro s pc hs
    simp [o.idle.pcs] at hs
  rw [o.outcome_eq.1]
  exact ⟨rfl, rfl, rfl, rfl, rfl, hb.withPeer o.own true⟩

/-- The state of a session after some callbacks. -/
def Opening.after (o : Opening) (evs : List Event) : Manager := (step.run evs o.state).1

theorem Opening.inSession_after (o : Opening) (evs : List Event) :
    InSession o.own o.room (o.after evs) :=
  o.inSession.after_run evs

theorem Opening.after_append (o : Opening) (evs more : List Event) :
    o.after (evs ++ more) = (step.run more (o.after evs)).1 := by
  rw [after, Step.run_append]
  rfl

theorem Opening.after_concat (o : Opening) (evs : List Event) (ev : Event) :
    o.after (evs ++ [ev]) = (step ev (o.after evs)).1 :=
  o.after_append evs [ev]

end ConferenceCall

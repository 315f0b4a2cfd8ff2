import ConferenceCall.Manager.Inputs

/-! What any input does to the connections, as a sequence of a few effects. An invariant of the
connections is a case analysis over the effects, for all inputs and all failures at once. -/

namespace ConferenceCall

open Library

/-- One change of a manager, as far as its connections and channels are concerned. -/
inductive Effect (m : Manager) : Manager → Prop where
  | fields (signalingServerUrl roomId publishStreamId : String) (isOnlyPlayer isCommunicating : Bool)
    (gstManager : Bool) (signalingContext : Option SignalingContext) :
    Effect m { m with
      signalingServerUrl, roomId, publishStreamId, isOnlyPlayer, isCommunicating, gstManager,
      signalingContext }
  | trackers (isPublisher sendPlay played isStreamTalking : Tracker Bool)
    (remoteTracks : Tracker (List Track)) (pendingCandidates : Tracker (List Candidate))
    (midTypeMap : Tracker String) (trackHandlers : Dict ℕ TrackHandler) :
    Effect m { m with
      isPublisher, sendPlay, played, isStreamTalking, remoteTracks, pendingCandidates, midTypeMap,
      trackHandlers }
  | peer {streamId : String} (needDC : Bool) (h : m.pcs.lookup streamId = none) :
    Effect m (m.withPeer streamId needDC)
  | localChannel {streamId : String} {pc : ℕ} (h : m.pcs.lookup streamId = some pc) :
    Effect m (m.withLocalChannel streamId pc)
  | announced (id : ℕ) (label : String) :
    Effect m { m with
      remoteDataChannels := m.remoteDataChannels.insert label (.remote id)
      channelHandlers := m.channelHandlers.insert (.remote id) label }
  | removed (streamId : String) : Effect m (m.withoutPeer streamId)
  | closed (pc : ℕ) : Effect m (m.updatePeer pc fun p => { p with closed := true })
  | cleared : Effect m m.cleared

/-- Several effects one after the other. -/
abbrev Effects : Manager → Manager → Prop := Relation.ReflTransGen Effect

namespace Effects

variable {e : Env} {m : Manager} {streamId : String}

/-- What every effect keeps holds after several. -/
theorem invariant {I : Manager → Prop} (hI : ∀ m m', Effect m m' → I m → I m') {m m' : Manager}
    (h : Effects m m') (hm : I m) : I m' := by
  induction h with
  | refl => exact hm
  | tail _ hlast ih => exact hI _ _ hlast ih

theorem setWsOpen (m : Manager) (b : Bool) : Effects m (m.setWsOpen b) :=
  .single (.fields _ _ _ _ _ _ _)

theorem publisher (h : m.pcs.lookup streamId = none) : Effects m (m.withPublisher streamId) :=
  (Relation.ReflTransGen.single (.peer true h)).tail (.fields _ _ streamId _ _ _ _) |>.tail
    (.trackers _ _ _ _ _ _ _ _)

theorem setup (streamId : String) (e : Env) (m : Manager) :
    Effects m (setupPublishPeer streamId e m).state := by
  cases hp : m.pcs.lookup streamId with
  | some pc => rw [setupPublishPeer_of_some hp]
  | none =>
    cases ht : e.throws .createPeer with
    | true => rw [setupPublishPeer_of_throws hp ht]
    | false =>
      have hstored : (m.withPublisher streamId).pcs.lookup streamId = some m.nextPc := by
        simp [Manager.withPublisher, Manager.withPeer]
      rcases (setupPublishPeer_spec hp ht).1 with hs | ⟨-, hs⟩ <;> rw [hs]
      · exact publisher hp
      · exact (publisher hp).tail (.localChannel hstored)

theorem relinked (sig : Signal) (e : Env) (m : Manager) : Effects m (m.relinked e sig) := by
  cases sig with
  | onRemoteSDP streamId type sdp =>
    simp only [Manager.relinked]
    split_ifs
    · exact .refl
    · cases hp : m.pcs.lookup streamId with
      | none => rw [Manager.ensured_of_none hp]; exact .single (.peer _ hp)
      | some pc => rw [Manager.ensured_of_some hp]
  | onPlayFinishedNotification streamId =>
    simp only [Manager.relinked]
    split_ifs
    · exact .refl
    · exact .single (.removed streamId)
  | _ => exact .refl

theorem signal (sig : Signal) (e : Env) (m : Manager) : Effects m (onSignal sig e m).state := by
  obtain ⟨_, _, hs⟩ := onSignal_state sig e m
  rw [hs]
  exact (relinked sig e m).tail (.trackers _ _ _ _ _ _ _ _)

theorem change {cb : Callback} {m' : Manager} (h : Change e m cb m') : Effects m m' := by
  cases h with
  | signal _ => exact signal _ e m
  | context ctx _ _ => exact .single (.fields _ _ _ _ _ _ ctx)
  | publisher hnone _ => exact (setWsOpen m true).trans (publisher hnone)
  | publisherWithChannel hnone _ _ =>
    refine ((setWsOpen m true).trans (publisher hnone)).tail (.localChannel ?_)
    simp [Manager.withPublisher, Manager.withPeer, Manager.nextPc, Manager.setWsOpen]
  | track _ => exact .single (.trackers _ _ _ _ _ _ _ _)
  | channel _ _ => exact .single (.announced _ _)
  | talk _ => exact .single (.trackers _ _ _ _ _ _ _ _)
  | closed pc => exact .single (.closed pc)

/-- A start, whether it gets through, fails or throws. -/
theorem start (isPlayer : Bool) :
    Act.Within Effects (fun _ => True) (start2WayCommunication isPlayer) := by
  have hR (m : Manager) : Effects m m := .refl
  have hT (m₁ m₂ m₃ : Manager) (h : Effects m₁ m₂) (h' : Effects m₂ m₃) : Effects m₁ m₃ := h.trans h'
  have hfields (m : Manager) (url room streamId : String) (p c g : Bool)
      (ctx : Option SignalingContext) :=
    Relation.ReflTransGen.single (Effect.fields (m := m) url room streamId p c g ctx)
  refine .bind hT (.gets hR _) fun running => ?_
  split
  · exact .pure hR true
  refine .bind hT (.gets hR _) fun url => ?_
  split
  · exact .pure hR false
  refine .bind hT (.modify fun m => hfields m _ _ _ _ _ _ _) fun _ =>
    .bind hT (.modify fun m => hfields m _ _ _ _ _ _ _) fun _ =>
    .bind hT (.gets hR _) fun streamId =>
    .bind hT (fun e m => ⟨setup streamId e m, fun _ _ => trivial⟩) fun _ =>
    .bind hT (fun e m => ⟨hfields m _ _ _ _ _ _ _, fun _ _ => trivial⟩) fun opened => ?_
  split
  · exact .pure hR true
  · refine .bind hT (fun e m => ⟨?_, fun _ _ => trivial⟩) fun _ =>
      .bind hT (.modify fun m => hfields m _ _ _ _ _ _ _) fun _ => .pure hR false
    rw [cleanupResources_apply]
    exact .single .cleared

theorem stop (e : Env) (m : Manager) : Effects m (stop2WayCommunication e m).state := by
  cases hc : m.isCommunicating with
  | false => simp [stop2WayCommunication, hc, Relation.ReflTransGen.refl]
  | true =>
    rw [stop2WayCommunication_apply hc]
    exact (Relation.ReflTransGen.single .cleared).tail (.fields _ _ _ _ _ _ _)

theorem during {call : Api} (hd : (Input.api call).during) (e : Env) (m : Manager) :
    Effects m (invoke call e m).state := by
  obtain ⟨⟨_, _, _, hs⟩, -⟩ := invoke_during hd e m
  rw [hs]
  exact .single (.fields _ _ _ _ _ _ _)

end Effects

/-- Every input is a sequence of effects. -/
theorem inputStep_effects (i : Timed Input) (m : Manager) : Effects m (inputStep i m).1 := by
  obtain ⟨what, e⟩ := i
  cases what with
  | callback cb =>
    rw [inputStep_callback]
    rcases step_change_or_stays ⟨cb, e⟩ m with hs | hs
    · rw [hs]
    · exact Effects.change hs
  | api call =>
    cases call with
    | start isPlayer =>
      have hs := (Effects.start isPlayer e m).1
      rwa [← (invoke_start isPlayer e m).1] at hs
    | stop => exact Effects.stop e m
    | _ =>
      refine Effects.during ?_ e m
      trivial

/-- What every effect keeps holds in every state that any inputs lead to. -/
theorem run_effects {I : Manager → Prop} (hI : ∀ m m', Effect m m' → I m → I m')
    (inputs : List (Timed Input)) {m : Manager} (h : I m) : I (inputStep.run inputs m).1 :=
  Step.run_invariant (fun i m hm => (inputStep_effects i m).invariant hI hm) inputs m h

end ConferenceCall

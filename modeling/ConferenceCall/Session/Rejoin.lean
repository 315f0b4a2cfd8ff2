import ConferenceCall.Manager.Adjust
import ConferenceCall.Session.Foreign

/-! Forgetting a stream. `removePeerIfNotExist` undoes the connection, the channels
and the play marks of a stream. Four trackers are not touched by it: `isPublisher`,
`remoteTracks`, `pendingCandidates` and `isStreamTalking`. A stream without entries in
them is forgotten, and the session goes on as if nothing had named the stream. -/

namespace ConferenceCall

open Library

/-- No tracker has an entry for a stream. -/
structure Manager.Forgotten (m : Manager) (streamId : String) : Prop where
  pcs : m.pcs.lookup streamId = none
  isPublisher : m.isPublisher.lookup streamId = none
  sendPlay : m.sendPlay.lookup streamId = none
  played : m.played.lookup streamId = none
  localDataChannels : m.localDataChannels.lookup streamId = none
  remoteTracks : m.remoteTracks.lookup streamId = none
  pendingCandidates : m.pendingCandidates.lookup streamId = none
  isStreamTalking : m.isStreamTalking.lookup streamId = none

/-- The stream a signal names. -/
def Signal.stream : Signal → Option String
  | .onStartOfferer streamId => some streamId
  | .onRemoteSDP streamId _ _ => some streamId
  | .onRemoteCandidate streamId _ _ => some streamId
  | .onJoinedRoomNotification => none
  | .onPublishStartedNotification => none
  | .onPlayStartedNotification streamId => some streamId
  | .onPlayFinishedNotification streamId => some streamId
  | .onSubtrackAddedNotification trackId => some trackId
  | .onSubtrackRemovedNotification trackId => some trackId

/-- The stream the remote side names: in a signal, as a label or as a sender. -/
def Callback.stream : Callback → Option String
  | .wsMessage text => (receive text).join.bind Signal.stream
  | .dataChannel _ _ label => some label
  | .channelText _ (some j) => (chatText j).join.map Prod.fst
  | _ => none

/-- Without the play marks of a stream. -/
def Adjust.without (streamId : String) : Adjust where
  roomId := id
  publishStreamId := id
  sendPlay := fun d => d.erase streamId
  played := fun d => d.erase streamId

variable {own room streamId : String} {e : Env} {m : Manager}

theorem Adjust.without_apply (streamId : String) (m : Manager) :
    (Adjust.without streamId).apply m =
      { m with sendPlay := m.sendPlay.erase streamId, played := m.played.erase streamId } := rfl

theorem Adjust.without_at {key : String} (h : key ≠ streamId) : (Adjust.without streamId).At key where
  lookup _ := Finmap.lookup_erase_ne h
  insert d := Dict.erase_insert_ne d true h
  erase _ := Finmap.erase_erase
  insertPlayed d := Dict.erase_insert_ne d true h
  erasePlayed _ := Finmap.erase_erase

/-! ### Callbacks that name another stream, or none -/

theorem agreesOn_without {sig : Signal} (hs : sig.stream ≠ some streamId)
    (hr : m.roomId ≠ streamId) : (Adjust.without streamId).agreesOn m sig := by
  cases sig with
  | onRemoteSDP t type sdp => exact .inr Iff.rfl
  | onPublishStartedNotification => exact ⟨rfl, Adjust.without_at hr⟩
  | onPlayStartedNotification t => exact Adjust.without_at fun h => hs (congrArg some h)
  | onPlayFinishedNotification t =>
    exact ⟨Adjust.without_at fun h => hs (congrArg some h), Iff.rfl⟩
  | onSubtrackAddedNotification t =>
    exact ⟨Adjust.without_at fun h => hs (congrArg some h), Iff.rfl⟩
  | onSubtrackRemovedNotification t => exact Adjust.without_at fun h => hs (congrArg some h)
  | _ => trivial

theorem Callback.stream_of_signal {cb : Callback} {sig : Signal} (h : cb.signal = some sig) :
    cb.stream = sig.stream := by
  cases cb with
  | wsMessage text =>
    have hr : (receive text).join = some sig := h
    simp [Callback.stream, hr]
  | _ => cases h

/-- What names another stream does not see the marks. -/
theorem step_without {ev : Event} (hs : ev.what.stream ≠ some streamId)
    (hr : m.roomId ≠ streamId) : step ev ((Adjust.without streamId).apply m) =
      ((Adjust.without streamId).apply (step ev m).1, (step ev m).2) := by
  refine Adjust.step_apply ?_
  have hsig (sig : Signal) (h : ev.what.signal = some sig) :
      (Adjust.without streamId).agreesOn m sig :=
    agreesOn_without (by rwa [← Callback.stream_of_signal h]) hr
  obtain ⟨cb, e⟩ := ev
  cases cb with
  | wsOpened => rfl
  | _ => exact hsig

/-! ### Callbacks that name the stream -/

theorem Adjust.without_without (streamId : String) (m : Manager) :
    (Adjust.without streamId).apply ((Adjust.without streamId).apply m) =
      (Adjust.without streamId).apply m := by
  simp only [Adjust.without_apply, Dict.erase_erase_self]

/-- Without a connection and channels, `play_finished` takes the play marks away. -/
theorem finished_of_unseen (e : Env) (hr : streamId ≠ m.roomId) (h : m.Foreign streamId)
    (hl : m.remoteDataChannels.lookup streamId = none) (hu : m.Unseen streamId) :
    (onSignal (.onPlayFinishedNotification streamId) e m).state =
      (Adjust.without streamId).apply m := by
  have hpc := h.known hu.isPublisher
  cases ht : streamId.isEmpty with
  | true =>
    have hs : streamId = "" := by simpa using ht
    obtain ⟨hp, hd⟩ := h.nameless hs
    rw [onSignal, onPlayFinishedNotification_of_empty ht, Adjust.without_apply, hs,
      Dict.erase_of_lookup_none _ _ hp, Dict.erase_of_lookup_none _ _ hd]
  | false =>
    rw [onSignal, onPlayFinishedNotification_of_other ht hr]
    simp only [Adjust.without_apply, Manager.withoutPeer, Manager.peersWithout, hpc,
      Manager.handlersWithout, h.localDataChannels, hl, Dict.eraseKey_none,
      Dict.erase_of_lookup_none _ _ hpc, Dict.erase_of_lookup_none _ _ h.localDataChannels,
      Dict.erase_of_lookup_none _ _ hl]

/-- As long as the stream is not seen, its signals change its play marks only. -/
theorem signal_of_unseen {sig : Signal} (hn : sig.stream = some streamId)
    (hr : streamId ≠ m.roomId) (h : m.Foreign streamId)
    (hl : m.remoteDataChannels.lookup streamId = none) (hu : m.Unseen streamId)
    (hu' : (onSignal sig e m).state.Unseen streamId) :
    (Adjust.without streamId).apply (onSignal sig e m).state =
      (Adjust.without streamId).apply m := by
  have hpc := h.known hu.isPublisher
  cases sig with
  | onStartOfferer t => rw [onSignal, startOffer_state]
  | onRemoteSDP t type sdp =>
    cases hn
    cases hb : blocked e m streamId with
    | true => rw [onSignal, handleRemoteSDP_of_blocked type sdp hb]
    | false =>
      obtain ⟨⟨mids, pending, hs, -⟩, -⟩ := handleRemoteSDP_spec type sdp hb
      have hp := hu'.isPublisher
      rw [onSignal, hs, Manager.ensured_of_none hpc] at hp
      simp [Manager.withPeer] at hp
  | onRemoteCandidate t cand mid =>
    cases hn
    cases hc : cand.isEmpty with
    | true => rw [onSignal, addRemoteCandidate_of_empty hc]
    | false =>
      have hp := hu'.pendingCandidates
      rw [onSignal, addRemoteCandidate_of_none hc hpc] at hp
      split_ifs at hp <;> simp [Manager.buffer] at hp
  | onJoinedRoomNotification => cases hn
  | onPublishStartedNotification => cases hn
  | onPlayStartedNotification t =>
    cases hn
    rw [onSignal, onPlayStartedNotification_apply]
    dsimp only
    split_ifs
    · rfl
    · simp only [Adjust.without_apply, Dict.erase_insert_self]
  | onPlayFinishedNotification t =>
    cases hn
    rw [finished_of_unseen e hr h hl hu, Adjust.without_without]
  | onSubtrackAddedNotification t =>
    cases hn
    cases hp : m.plays streamId with
    | true =>
      rw [onSignal, onSubtrackAddedNotification_of_plays hp]
      simp only [Adjust.without_apply, Manager.markPlay, Dict.erase_insert_self]
    | false => rw [onSignal, onSubtrackAddedNotification_of_not_plays hp]
  | onSubtrackRemovedNotification t =>
    cases hn
    rw [onSignal, onSubtrackRemovedNotification_apply]
    dsimp only
    split_ifs
    · rfl
    · simp only [Adjust.without_apply, Dict.erase_erase_self]

/-- As long as the stream is not seen, what names it changes its play marks only. -/
theorem step_of_unseen (hm : InSession own room m) (hr : streamId ≠ room) {ev : Event}
    (hn : ev.what.stream = some streamId) (h : m.Foreign streamId)
    (hl : m.remoteDataChannels.lookup streamId = none) (hopen : ¬ev.what.opens streamId m)
    (hu : m.Unseen streamId) (hu' : (step ev m).1.Unseen streamId) :
    (Adjust.without streamId).apply (step ev m).1 = (Adjust.without streamId).apply m := by
  obtain ⟨cb, e⟩ := ev
  cases cb with
  | wsMessage text =>
    obtain ⟨sig, hsig, hs⟩ := Option.bind_eq_some_iff.mp hn
    have hstep : step ⟨.wsMessage text, e⟩ m =
        ((onSignal sig e m).state, (onSignal sig e m).calls) := step_signal hm.connected hsig
    rw [hstep] at hu' ⊢
    exact signal_of_unseen hs (by rwa [hm.roomId]) h hl hu hu'
  | dataChannel pc id label =>
    cases hn
    have ha : m.announces pc = false := by
      cases ha : m.announces pc with
      | false => rfl
      | true => exact absurd ⟨pc, id, rfl, ha⟩ hopen
    simp [step, stepOf, deliver, ha]
  | channelText ch text =>
    rcases text with _ | j
    · cases hn
    · cases hh : m.channelHandlers.lookup ch with
      | none => simp [step, stepOf, deliver_channelText_of_none hh]
      | some label =>
        obtain ⟨⟨sender, msgText⟩, hj, rfl⟩ := Option.map_eq_some_iff.mp hn
        have hc : chatText j = some (some (sender, msgText)) := Option.join_eq_some_iff.mp hj
        simp only [step, stepOf, deliver_channelText_of_some hh, handleDataChannelText,
          Act.bind_apply, Act.ofOption_apply, hc, Outcome.andThen_some, Outcome.after_nil,
          Act.ite_apply, Act.modify_apply, Act.pure_apply] at hu' ⊢
        have hk := hu'.isStreamTalking
        split_ifs at hk ⊢
        · simp at hk
        · simp at hk
        · rfl
  | _ => cases hn

/-! ### Sessions -/

/-- The server says that a stream is over. -/
def finish (streamId : String) (e : Env) : Event :=
  (Signal.onPlayFinishedNotification streamId).event e

theorem step_finish (hm : InSession own room m) (streamId : String) (e : Env) :
    step (finish streamId e) m =
      ((onSignal (.onPlayFinishedNotification streamId) e m).state,
        (onSignal (.onPlayFinishedNotification streamId) e m).calls) :=
  step_signal hm.connected (Signal.event_signal _ e)

/-- A removal forgets the stream exactly when it was not seen. -/
theorem finish_forgotten (hm : InSession own room m) (hr : streamId ≠ room)
    (h : m.Foreign streamId) (e : Env) :
    (step (finish streamId e) m).1.Forgotten streamId ↔ m.Unseen streamId := by
  rw [step_finish hm, onSignal]
  cases ht : streamId.isEmpty with
  | true =>
    have hs : streamId = "" := by simpa using ht
    rw [onPlayFinishedNotification_of_empty ht]
    constructor
    · exact fun hf => ⟨hf.isPublisher, hf.remoteTracks, hf.pendingCandidates, hf.isStreamTalking⟩
    · intro hu
      obtain ⟨hp, hd⟩ := h.nameless hs
      subst hs
      exact ⟨h.known hu.isPublisher, hu.isPublisher, hp, hd, h.localDataChannels, hu.remoteTracks,
        hu.pendingCandidates, hu.isStreamTalking⟩
  | false =>
    rw [onPlayFinishedNotification_of_other ht (by rwa [hm.roomId])]
    constructor
    · exact fun hf => ⟨hf.isPublisher, hf.remoteTracks, hf.pendingCandidates, hf.isStreamTalking⟩
    · exact fun hu => ⟨Finmap.lookup_erase _ _, hu.isPublisher, Finmap.lookup_erase _ _,
        Finmap.lookup_erase _ _, Finmap.lookup_erase _ _, hu.remoteTracks, hu.pendingCandidates,
        hu.isStreamTalking⟩

/-- The run of a session without everything that names an unseen stream. -/
theorem session_without (o : Opening) (ho : streamId ≠ o.own) (hr : streamId ≠ o.room)
    (evs : List Event) (hu : (o.after evs).Unseen streamId)
    (hopen : step.Along (fun ev m => ¬ev.what.opens streamId m) evs o.state) :
    o.after (evs.filter fun ev => ev.what.stream ≠ some streamId) =
      (Adjust.without streamId).apply (o.after evs) := by
  have hfresh : o.state.sendPlay = ∅ ∧ o.state.played = ∅ ∧ o.state.remoteDataChannels = ∅ := by
    rw [o.outcome_eq.1]
    exact ⟨o.idle.sendPlay, o.idle.played, o.idle.remoteDataChannels⟩
  have hstart : (Adjust.without streamId).apply o.state = o.state := by
    rw [Adjust.without_apply, Dict.erase_of_lookup_none _ _ (by rw [hfresh.1]; rfl),
      Dict.erase_of_lookup_none _ _ (by rw [hfresh.2.1]; rfl)]
  have hok : step.Along (fun ev m => InSession o.own o.room m ∧ m.Foreign streamId ∧
      m.remoteDataChannels.lookup streamId = none ∧ ¬ev.what.opens streamId m ∧
      m.Unseen streamId ∧ (step ev m).1.Unseen streamId) evs o.state := by
    rintro l₁ ev l₂ rfl
    have hm := o.inSession_after l₁
    have hf := foreign_run o.inSession ho hr (foreign_start o ho) l₁
    obtain ⟨hopen₁, hopen₂⟩ := Step.along_append.mp hopen
    have hl := label_run o.inSession l₁ (by rw [hfresh.2.2]; rfl) hopen₁
    rw [Opening.after, Step.run_append] at hu
    exact ⟨hm, hf, hl, (Step.along_cons.mp hopen₂).1, unseen_of_run hm ho hr hf (ev :: l₂) hu,
      unseen_of_run (hm.after_step ev) ho hr (foreign_step hm ho hr hf ev) l₂ hu⟩
  exact Step.run_filter step (R := fun m _ m' _ => m' = (Adjust.without streamId).apply m)
    (fun ev => decide (ev.what.stream ≠ some streamId))
    (fun ev m _ m' _ h hok hk => by
      obtain ⟨hm, -⟩ := hok
      rw [h, step_without (by simpa using hk) (by rw [hm.roomId]; exact hr.symm)])
    (fun ev m _ m' _ h hok hk => by
      obtain ⟨hm, hf, hl, hopen, hu, hu'⟩ := hok
      rw [h, step_of_unseen hm hr (by simpa using hk) hf hl hopen hu hu'])
    evs o.state [] o.state [] hstart.symm hok

/-- A removal forgets a foreign stream exactly when nothing it leaves behind was
registered for it. If no channel with its label was opened either, the session goes on as
one in which nothing had named the stream. -/
theorem finished_stream_forgotten (o : Opening) (streamId : String) (evs : List Event) (e : Env)
    (ho : streamId ≠ o.own) (hr : streamId ≠ o.room) :
    ((o.after (evs ++ [finish streamId e])).Forgotten streamId ↔ (o.after evs).Unseen streamId) ∧
    ((o.after evs).Unseen streamId →
      step.Along (fun ev m => ¬ev.what.opens streamId m) evs o.state →
      ∀ later, step.run later (o.after (evs ++ [finish streamId e])) =
        step.run later (o.after (evs.filter fun ev => ev.what.stream ≠ some streamId))) := by
  have hm := o.inSession_after evs
  have hf : (o.after evs).Foreign streamId :=
    foreign_run o.inSession ho hr (foreign_start o ho) evs
  have hlast : o.after (evs ++ [finish streamId e]) =
      (step (finish streamId e) (o.after evs)).1 := by
    rw [Opening.after, Step.run_append]
    rfl
  rw [hlast]
  refine ⟨finish_forgotten hm hr hf e, fun hu hopen later => ?_⟩
  have hlabel : (o.after evs).remoteDataChannels.lookup streamId = none := by
    refine label_run o.inSession evs ?_ hopen
    rw [o.outcome_eq.1]
    simp [Opening.begun, Opening.prepared, Manager.withLocalChannel, Manager.withPublisher,
      Manager.withPeer, o.idle.remoteDataChannels]
  rw [session_without o ho hr evs hu hopen, step_finish hm,
    finished_of_unseen e (by rwa [hm.roomId]) hf hlabel hu]

/-- A stream that was only announced is forgotten. -/
theorem announced_stream_forgotten :
    (Opening.plain.after ([(Signal.onSubtrackAddedNotification "bob").event .calm] ++
      [finish "bob" .calm])).Forgotten "bob" ∧
    step.run [(Signal.onRemoteSDP "bob" "offer" "").event .calm]
      (Opening.plain.after ([(Signal.onSubtrackAddedNotification "bob").event .calm] ++
        [finish "bob" .calm])) =
    step.run [(Signal.onRemoteSDP "bob" "offer" "").event .calm] (Opening.plain.after []) := by
  have hu : (Opening.plain.after
      [(Signal.onSubtrackAddedNotification "bob").event .calm]).Unseen "bob" := by
    constructor <;> decide
  obtain ⟨hiff, hrest⟩ := finished_stream_forgotten .plain "bob"
    [(Signal.onSubtrackAddedNotification "bob").event .calm] .calm (by decide) (by decide)
  refine ⟨hiff.mpr hu, hrest hu (Step.along_cons.mpr ⟨?_, Step.along_nil _ _⟩) _⟩
  rintro ⟨_, _, h, -⟩
  cases h

/-- Bob's candidate outlives his stream and reaches the connection of his next one. -/
theorem stale_candidate_applied : ¬ ∀ (o : Opening) (streamId : String) (evs : List Event)
    (e : Env), streamId ≠ o.own → streamId ≠ o.room →
      (o.after (evs ++ [finish streamId e])).Forgotten streamId ∧
      ∀ later, (step.run later (o.after (evs ++ [finish streamId e]))).2 =
        (step.run later
          (o.after (evs.filter fun ev => ev.what.stream ≠ some streamId))).2 := by
  intro h
  obtain ⟨-, hlater⟩ := h .plain "bob"
    [(Signal.onRemoteCandidate "bob" "candidate" "0").event .calm] .calm (by decide) (by decide)
  exact absurd (hlater [(Signal.onRemoteSDP "bob" "offer" "").event .calm]) (by decide)

end ConferenceCall

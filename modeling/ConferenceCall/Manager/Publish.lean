import ConferenceCall.Manager.Peers

/-! What `setupPublishPeer` leaves behind: the publish peer with its tracks and its
data channel, or what an exception left of them. -/

namespace ConferenceCall

open Library

namespace Manager

/-- The state after `setupPublishPeer` registered the publish peer. -/
def withPublisher (m : Manager) (streamId : String) : Manager :=
  { m.withPeer streamId true with
    publishStreamId := streamId
    isPublisher := (m.withPeer streamId true).isPublisher.insert streamId true }

/-- The state after the data channel of a connection was created. -/
def withLocalChannel (m : Manager) (streamId : String) (pc : ℕ) : Manager :=
  { m with
    localDataChannels := m.localDataChannels.insert streamId (.local pc)
    channelHandlers := m.channelHandlers.insert (.local pc) streamId }

end Manager

variable {e : Env} {m : Manager} {streamId : String}

theorem setupLocalTracks_spec (pc : ℕ) (e : Env) (m : Manager) :
    (setupLocalTracks pc e m).state = m ∧
      ∀ c ∈ (setupLocalTracks pc e m).calls, c.call.builds := by
  cases h : e.throws (.addTrack 0) <;> simp [setupLocalTracks, call_apply, h, Call.builds]

theorem createLocalChannel_spec (streamId : String) (pc : ℕ) (e : Env) (m : Manager) :
    ((createLocalChannel streamId pc e m).state = m ∨
      m.localDataChannels.lookup streamId = none ∧
        (createLocalChannel streamId pc e m).state = m.withLocalChannel streamId pc) ∧
      ∀ c ∈ (createLocalChannel streamId pc e m).calls, c.call.builds := by
  cases h : m.localDataChannels.lookup streamId with
  | some ch => simp [createLocalChannel, h]
  | none =>
    cases ht : e.throws .createDataChannel <;>
      simp [createLocalChannel, h, call_apply, ht, Call.builds, Manager.withLocalChannel]

theorem setupPublishPeer_of_some {pc : ℕ} (h : m.pcs.lookup streamId = some pc) :
    setupPublishPeer streamId e m = ⟨some (), m, []⟩ := by
  simp [setupPublishPeer, h]

theorem setupPublishPeer_of_throws (h : m.pcs.lookup streamId = none)
    (ht : e.throws .createPeer) : setupPublishPeer streamId e m =
      ⟨none, m, [⟨.createPeer m.nextPc streamId, false⟩]⟩ := by
  simp [setupPublishPeer, h, createPeerIfNotExist_of_none, ht]

theorem setupPublishPeer_of_none (h : m.pcs.lookup streamId = none)
    (ht : e.throws .createPeer = false) : setupPublishPeer streamId e m =
      ((do
        if !m.isOnlyPlayer then setupLocalTracks m.nextPc
        createLocalChannel streamId m.nextPc : Act Unit) e (m.withPublisher streamId)).after
          [⟨.createPeer m.nextPc streamId, true⟩] := by
  simp only [setupPublishPeer, Act.bind_apply, Act.gets_apply, Outcome.andThen_some, h,
    createPeerIfNotExist_of_none, ht, Act.modify_apply, Outcome.after_nil, Bool.false_eq_true,
    if_false]
  rfl

/-- A new publish peer is registered; its channel too unless something throws. -/
theorem setupPublishPeer_spec (h : m.pcs.lookup streamId = none)
    (ht : e.throws .createPeer = false) :
    ((setupPublishPeer streamId e m).state = m.withPublisher streamId ∨
      m.localDataChannels.lookup streamId = none ∧ (setupPublishPeer streamId e m).state =
        (m.withPublisher streamId).withLocalChannel streamId m.nextPc) ∧
    ∀ c ∈ (setupPublishPeer streamId e m).calls, c.call.builds := by
  obtain ⟨hs, hc⟩ := createLocalChannel_spec streamId m.nextPc e (m.withPublisher streamId)
  obtain ⟨hs', hc'⟩ := setupLocalTracks_spec m.nextPc e (m.withPublisher streamId)
  have hl : (m.withPublisher streamId).localDataChannels = m.localDataChannels := rfl
  rw [hl] at hs
  rw [setupPublishPeer_of_none h ht]
  cases m.isOnlyPlayer with
  | true => exact ⟨by simpa using hs, by simpa using ⟨rfl, hc⟩⟩
  | false =>
    simp only [Bool.not_false, if_true]
    rcases Act.bind_cases (setupLocalTracks m.nextPc)
      (fun _ => createLocalChannel streamId m.nextPc) e (m.withPublisher streamId) with
      ⟨-, hb⟩ | ⟨a, -, hb⟩ <;> rw [hb, hs']
    · exact ⟨.inl rfl, by simpa using ⟨rfl, hc'⟩⟩
    · refine ⟨by simpa using hs, fun c hm => ?_⟩
      simp only [Outcome.after_calls, List.mem_append, List.mem_singleton] at hm
      rcases hm with rfl | hm | hm
      · rfl
      · exact hc' c hm
      · exact hc c hm

theorem setupPublishPeer_routine : ∀ c ∈ (setupPublishPeer streamId e m).calls, Routine c := by
  cases h : m.pcs.lookup streamId with
  | some pc => simp [setupPublishPeer_of_some h]
  | none =>
    cases ht : e.throws .createPeer with
    | true =>
      simp [setupPublishPeer_of_throws h ht, Routine, Quiet, Call.negotiates, Call.plays]
    | false => exact fun c hc => routine_of_builds ((setupPublishPeer_spec h ht).2 c hc)

theorem createLocalChannel_completed {pc : ℕ} (hl : m.localDataChannels.lookup streamId = none)
    (hv : (createLocalChannel streamId pc e m).value = some ()) :
    (createLocalChannel streamId pc e m).state = m.withLocalChannel streamId pc := by
  cases ht : e.throws .createDataChannel <;>
    simp_all [createLocalChannel, call_apply, Manager.withLocalChannel]

/-- A setup that gets through leaves the peer with its channel. -/
theorem setupPublishPeer_completed (h : m.pcs.lookup streamId = none)
    (hl : m.localDataChannels.lookup streamId = none)
    (hv : (setupPublishPeer streamId e m).value = some ()) :
    (setupPublishPeer streamId e m).state =
      (m.withPublisher streamId).withLocalChannel streamId m.nextPc := by
  cases ht : e.throws .createPeer with
  | true => simp [setupPublishPeer_of_throws h ht] at hv
  | false =>
    rw [setupPublishPeer_of_none h ht] at hv ⊢
    obtain ⟨hs', -⟩ := setupLocalTracks_spec m.nextPc e (m.withPublisher streamId)
    cases hp : m.isOnlyPlayer with
    | true =>
      simp only [hp, Bool.not_true, Bool.false_eq_true, if_false] at hv ⊢
      exact createLocalChannel_completed hl hv
    | false =>
      simp only [hp, Bool.not_false, if_true] at hv ⊢
      rcases Act.bind_cases (setupLocalTracks m.nextPc)
        (fun _ => createLocalChannel streamId m.nextPc) e (m.withPublisher streamId) with
        ⟨-, hb⟩ | ⟨a, -, hb⟩ <;> rw [hb] at hv ⊢
      · cases hv
      · rw [hs'] at hv ⊢
        exact createLocalChannel_completed hl hv

end ConferenceCall

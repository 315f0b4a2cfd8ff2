import ConferenceCall.Manager.Handlers

/-! What `handleRemoteSDP` does. Either the connection cannot be made, or it is
there afterwards; the remote description is applied unless a section of the SDP
is rejected before, and what follows it are the buffered candidates and the answer. -/

namespace ConferenceCall

open Library

variable {e : Env} {m : Manager} {streamId : String}

/-! ### Applying a remote description -/

/-- Whether one section of the SDP gets through `addRecvTrack`. -/
def trackAdded (e : Env) (i : ℕ) (media : Json) : Bool :=
  match recvTrack media with
  | some (some _) => !e.throws (.addTrack i)
  | some none => true
  | none => false

/-- Whether `prepareRecvTracksFromSDP` gets through. -/
def tracksPrepared (e : Env) : Bool :=
  !e.throws .sdpParse &&
    match e.parsed.find? "media" with
    | some media => Act.allFrom (trackAdded e) 0 media.items
    | none => true

/-- Whether a `takeConfiguration` of this type gets to `setRemoteDescription`. -/
def reaches (e : Env) (type : String) : Bool :=
  (type != "offer" || tracksPrepared e) && !e.throws .description

theorem addRecvTrack_value (pc i : ℕ) (media : Json) (e : Env) (m : Manager) :
    (addRecvTrack pc i media e m).value = if trackAdded e i media then some () else none := by
  rcases h : recvTrack media with _ | _ | ⟨mid, type⟩
  · simp [addRecvTrack, trackAdded, h]
  · simp [addRecvTrack, trackAdded, h]
  · cases ht : e.throws (.addTrack i) <;> simp [addRecvTrack, trackAdded, h, call_apply, ht]

theorem prepareRecvTracksFromSDP_value (pc : ℕ) (e : Env) (m : Manager) :
    (prepareRecvTracksFromSDP pc e m).value = if tracksPrepared e then some () else none := by
  cases ht : e.throws .sdpParse with
  | true => simp [prepareRecvTracksFromSDP, check_apply, ht, tracksPrepared]
  | false =>
    cases hm : e.parsed.find? "media" with
    | none => simp [prepareRecvTracksFromSDP, check_apply, ht, tracksPrepared, hm]
    | some media =>
      simp [prepareRecvTracksFromSDP, check_apply, ht, tracksPrepared, hm,
        Act.each_value _ fun i section_ m => addRecvTrack_value pc i section_ e m]

/-- Only `midTypeMap` differs. -/
def MidsOnly (m m' : Manager) : Prop := ∃ mids, m' = { m with midTypeMap := mids }

theorem MidsOnly.refl (m : Manager) : MidsOnly m m := ⟨m.midTypeMap, rfl⟩

theorem MidsOnly.trans (m₁ m₂ m₃ : Manager) (h : MidsOnly m₁ m₂) (h' : MidsOnly m₂ m₃) :
    MidsOnly m₁ m₃ := by
  obtain ⟨a, rfl⟩ := h
  obtain ⟨b, rfl⟩ := h'
  exact ⟨b, rfl⟩

theorem addRecvTrack_within (pc i : ℕ) (media : Json) :
    Act.Within MidsOnly (fun c => c.call.builds) (addRecvTrack pc i media) := by
  intro e m
  rcases h : recvTrack media with _ | _ | ⟨mid, type⟩
  · simpa [addRecvTrack, h] using MidsOnly.refl m
  · simpa [addRecvTrack, h] using MidsOnly.refl m
  · cases ht : e.throws (.addTrack i)
    · simpa [addRecvTrack, h, call_apply, ht, Call.builds] using ⟨_, rfl⟩
    · simpa [addRecvTrack, h, call_apply, ht, Call.builds] using MidsOnly.refl m

theorem prepareRecvTracksFromSDP_within (pc : ℕ) :
    Act.Within MidsOnly (fun c => c.call.builds) (prepareRecvTracksFromSDP pc) := by
  refine Act.Within.bind MidsOnly.trans ?_ fun _ =>
    Act.Within.bind MidsOnly.trans (Act.Within.ask MidsOnly.refl _) fun sdpJson => ?_
  · intro e m
    rw [check_apply]
    split <;> exact ⟨MidsOnly.refl m, by simp⟩
  · cases sdpJson.find? "media" with
    | none => exact Act.Within.pure MidsOnly.refl ()
    | some media =>
      exact Act.Within.each MidsOnly.refl MidsOnly.trans _
        (fun i section_ _ => addRecvTrack_within pc i section_) 0

/-- Only `midTypeMap` and the buffered candidates of one stream differ; the latter
are as before or gone. -/
def Negotiated (streamId : String) (m m' : Manager) : Prop :=
  ∃ mids pending, m' = { m with midTypeMap := mids, pendingCandidates := pending } ∧
    (pending = m.pendingCandidates ∨ pending = m.pendingCandidates.erase streamId)

theorem Negotiated.refl (streamId : String) (m : Manager) : Negotiated streamId m m :=
  ⟨m.midTypeMap, m.pendingCandidates, rfl, .inl rfl⟩

theorem Negotiated.trans (streamId : String) (m₁ m₂ m₃ : Manager)
    (h : Negotiated streamId m₁ m₂) (h' : Negotiated streamId m₂ m₃) :
    Negotiated streamId m₁ m₃ := by
  obtain ⟨a, p, rfl, hp⟩ := h
  obtain ⟨b, q, rfl, hq⟩ := h'
  refine ⟨b, q, rfl, ?_⟩
  rcases hp with rfl | rfl <;> rcases hq with rfl | rfl
  · exact .inl rfl
  · exact .inr rfl
  · exact .inr rfl
  · exact .inr (Dict.erase_of_lookup_none _ _ (Finmap.lookup_erase _ _))

theorem MidsOnly.negotiated {m m' : Manager} (streamId : String) (h : MidsOnly m m') :
    Negotiated streamId m m' := by
  obtain ⟨mids, rfl⟩ := h
  exact ⟨mids, m.pendingCandidates, rfl, .inl rfl⟩

/-- After the description: candidates are handed over and the answer is made. -/
def Call.follows (pc : ℕ) (c : Call) : Prop :=
  (∃ cand, c = .addRemoteCandidate pc cand) ∨ c = .setLocalDescription pc .answer

theorem Call.follows_negotiates {pc : ℕ} {c : Call} (h : c.follows pc) : c.negotiates = some pc := by
  rcases h with ⟨cand, rfl⟩ | rfl <;> rfl

theorem flushCandidates_within (streamId : String) (pc : ℕ) :
    Act.Within (Negotiated streamId) (fun c => c.call.follows pc) (flushCandidates streamId pc) := by
  refine Act.Within.bind (Negotiated.trans streamId)
    (Act.Within.gets (Negotiated.refl streamId) _) fun pending => ?_
  cases pending with
  | none => exact Act.Within.pure (Negotiated.refl streamId) ()
  | some cs =>
    refine Act.Within.bind (Negotiated.trans streamId) ?_ fun _ => ?_
    · exact Act.Within.each (Negotiated.refl streamId) (Negotiated.trans streamId) cs
        (fun i c _ => call_within (Negotiated.refl streamId) _ _ fun _ => .inl ⟨c, rfl⟩) 0
    · exact Act.Within.modify fun m => ⟨m.midTypeMap, _, rfl, .inr rfl⟩

theorem readRemoteSDP_value (type : String) (pc : ℕ) (e : Env) (m : Manager) :
    (readRemoteSDP type pc e m).value = if reaches e type then some () else none := by
  by_cases ht : type == "offer"
  · have hv := prepareRecvTracksFromSDP_value pc e m
    simp only [readRemoteSDP, ht, if_true, reaches, bne, Bool.not_true, Bool.false_or]
    rcases Act.bind_cases (prepareRecvTracksFromSDP pc) (fun _ => check .description) e m with
      ⟨hn, hb⟩ | ⟨_, hs, hb⟩ <;> rw [hb]
    · cases hp : tracksPrepared e <;> simp_all
    · cases hp : tracksPrepared e <;> cases hd : e.throws .description <;> simp_all [check_apply]
  · cases hd : e.throws .description <;>
      simp [readRemoteSDP, ht, reaches, check_apply, hd, bne]

theorem readRemoteSDP_within (type : String) (pc : ℕ) :
    Act.Within MidsOnly (fun c => c.call.builds) (readRemoteSDP type pc) := by
  unfold readRemoteSDP
  split
  · exact Act.Within.bind MidsOnly.trans (prepareRecvTracksFromSDP_within pc)
      fun _ => check_within MidsOnly.refl _
  · exact check_within MidsOnly.refl _

/-- The remote description comes first, then what follows it. -/
theorem applyRemoteSDP_spec (streamId type sdp : String) (pc : ℕ) (e : Env) (m : Manager) :
    Negotiated streamId m (applyRemoteSDP streamId type sdp pc e m).state ∧
      ∃ ok rest, (applyRemoteSDP streamId type sdp pc e m).calls =
        ⟨.setRemoteDescription pc (sdpType type) sdp, ok⟩ :: rest ∧
        ∀ c ∈ rest, c.call.follows pc := by
  have hrest : Act.Within (Negotiated streamId) (fun c => c.call.follows pc) (do
      flushCandidates streamId pc
      if type == "offer" then call .setLocalDescription (.setLocalDescription pc .answer)) := by
    refine Act.Within.bind (Negotiated.trans streamId) (flushCandidates_within streamId pc)
      fun _ => ?_
    split
    · exact call_within (Negotiated.refl streamId) _ _ fun _ => .inr rfl
    · exact Act.Within.pure (Negotiated.refl streamId) ()
  rw [applyRemoteSDP]
  rcases Act.bind_cases (call .setRemoteDescription (.setRemoteDescription pc (sdpType type) sdp))
    (fun _ => do
      flushCandidates streamId pc
      if type == "offer" then call .setLocalDescription (.setLocalDescription pc .answer)) e m with
    ⟨-, hb⟩ | ⟨_, -, hb⟩ <;> rw [hb, call_apply]
  · exact ⟨Negotiated.refl streamId m, _, [], rfl, by simp⟩
  · obtain ⟨hs, hc⟩ := hrest e m
    exact ⟨hs, _, _, rfl, hc⟩

namespace Manager

/-- The connection `createPeerIfNotExist` returns. -/
def pcOf (m : Manager) (streamId : String) : ℕ := (m.pcs.lookup streamId).getD m.nextPc

/-- The state in which `handleRemoteSDP` has its connection. -/
def ensured (m : Manager) (streamId : String) : Manager :=
  match m.pcs.lookup streamId with
  | some _ => m
  | none => m.withPeer streamId (streamId == m.roomId)

theorem ensured_of_some {pc : ℕ} (h : m.pcs.lookup streamId = some pc) :
    m.ensured streamId = m := by simp [ensured, h]

theorem ensured_of_none (h : m.pcs.lookup streamId = none) :
    m.ensured streamId = m.withPeer streamId (streamId == m.roomId) := by simp [ensured, h]

theorem ensured_lookup (m : Manager) (streamId : String) :
    (m.ensured streamId).pcs.lookup streamId = some (m.pcOf streamId) := by
  cases h : m.pcs.lookup streamId with
  | none => simp [ensured_of_none h, withPeer, pcOf, h]
  | some pc => simp [ensured_of_some h, pcOf, h]

theorem ensured_lookup_ne (m : Manager) {s : String} (hs : s ≠ streamId) :
    (m.ensured streamId).pcs.lookup s = m.pcs.lookup s := by
  cases h : m.pcs.lookup streamId with
  | none => simp [ensured_of_none h, withPeer, hs]
  | some pc => rw [ensured_of_some h]

theorem ensured_pendingCandidates (m : Manager) (streamId : String) :
    (m.ensured streamId).pendingCandidates = m.pendingCandidates := by
  cases h : m.pcs.lookup streamId <;> simp [ensured, h, withPeer]

end Manager

/-- The connection cannot be made. -/
def blocked (e : Env) (m : Manager) (streamId : String) : Bool :=
  (m.pcs.lookup streamId).isNone && e.throws .createPeer

theorem createPeerIfNotExist_of_not_blocked (h : blocked e m streamId = false) :
    ∃ o, createPeerIfNotExist streamId (streamId == m.roomId) e m =
      ⟨some (m.pcOf streamId), m.ensured streamId, o⟩ ∧ ∀ c ∈ o, c.call.builds := by
  cases hp : m.pcs.lookup streamId with
  | some pc =>
    exact ⟨[], by simp [createPeerIfNotExist_of_some _ hp, Manager.pcOf, Manager.ensured, hp]⟩
  | none =>
    have ht : e.throws .createPeer = false := by simpa [blocked, hp] using h
    exact ⟨[⟨.createPeer m.nextPc streamId, true⟩], by
      simp [createPeerIfNotExist_of_none _ hp, ht, Manager.pcOf, Manager.ensured, hp, Call.builds]⟩

theorem handleRemoteSDP_of_blocked (type sdp : String) (h : blocked e m streamId) :
    handleRemoteSDP streamId type sdp e m =
      ⟨none, m, [⟨.createPeer m.nextPc streamId, false⟩]⟩ := by
  have hp : m.pcs.lookup streamId = none := by
    cases hp : m.pcs.lookup streamId <;> simp_all [blocked]
  have ht : e.throws .createPeer = true := by simp_all [blocked]
  simp [handleRemoteSDP, createPeerIfNotExist_of_none _ hp, ht]

/-- With its connection there, `handleRemoteSDP` reads the description, then applies it. -/
theorem handleRemoteSDP_eq (type sdp : String) (h : blocked e m streamId = false) :
    ∃ o, (∀ c ∈ o, c.call.builds) ∧ handleRemoteSDP streamId type sdp e m =
      ((do readRemoteSDP type (m.pcOf streamId)
           applyRemoteSDP streamId type sdp (m.pcOf streamId) : Act Unit) e
        (m.ensured streamId)).after o := by
  obtain ⟨o, hcreate, ho⟩ := createPeerIfNotExist_of_not_blocked h
  refine ⟨o, ho, ?_⟩
  simp only [handleRemoteSDP, Act.bind_apply, Act.gets_apply, Outcome.andThen_some, hcreate,
    Outcome.after_nil]

/-- The state and the calls of `handleRemoteSDP` on a connection it has or makes. -/
theorem handleRemoteSDP_spec (type sdp : String) (h : blocked e m streamId = false) :
    Negotiated streamId (m.ensured streamId) (handleRemoteSDP streamId type sdp e m).state ∧
    ∃ pre rest, (handleRemoteSDP streamId type sdp e m).calls = pre ++ rest ∧
      (∀ c ∈ pre, c.call.builds) ∧
      if reaches e type then
        ∃ ok rest', rest =
          ⟨.setRemoteDescription (m.pcOf streamId) (sdpType type) sdp, ok⟩ :: rest' ∧
          ∀ c ∈ rest', c.call.follows (m.pcOf streamId)
      else rest = [] ∧
        MidsOnly (m.ensured streamId) (handleRemoteSDP streamId type sdp e m).state := by
  obtain ⟨o, ho, heq⟩ := handleRemoteSDP_eq type sdp h
  have hv := readRemoteSDP_value type (m.pcOf streamId) e (m.ensured streamId)
  obtain ⟨hs, hc⟩ := readRemoteSDP_within type (m.pcOf streamId) e (m.ensured streamId)
  rw [heq]
  rcases Act.bind_cases (readRemoteSDP type (m.pcOf streamId))
    (fun _ => applyRemoteSDP streamId type sdp (m.pcOf streamId)) e (m.ensured streamId) with
    ⟨hn, hb⟩ | ⟨_, hsome, hb⟩ <;> rw [hb]
  · have hr : reaches e type = false := by
      by_contra hr
      simp [hn, hr] at hv
    refine ⟨hs.negotiated streamId,
      o ++ (readRemoteSDP type (m.pcOf streamId) e (m.ensured streamId)).calls, [],
      by simp, ?_, by simpa [hr] using hs⟩
    intro c hm
    exact (List.mem_append.mp hm).elim (ho c) (hc c)
  · have hr : reaches e type = true := by
      by_contra hr
      simp [hsome, hr] at hv
    obtain ⟨hs', hc'⟩ := applyRemoteSDP_spec streamId type sdp (m.pcOf streamId) e
      (readRemoteSDP type (m.pcOf streamId) e (m.ensured streamId)).state
    refine ⟨(hs.negotiated streamId).trans _ _ _ _ hs',
      o ++ (readRemoteSDP type (m.pcOf streamId) e (m.ensured streamId)).calls, _,
      (List.append_assoc _ _ _).symm, ?_, by rwa [if_pos hr]⟩
    intro c hm
    exact (List.mem_append.mp hm).elim (ho c) (hc c)

/-- `handleRemoteSDP` builds, or negotiates on the connection of its stream. -/
theorem handleRemoteSDP_calls {type sdp : String} {c : Invocation}
    (hc : c ∈ (handleRemoteSDP streamId type sdp e m).calls) :
    c.call.builds ∨ c.call.negotiates = some (m.pcOf streamId) ∧ reaches e type := by
  cases hb : blocked e m streamId with
  | true =>
    rw [handleRemoteSDP_of_blocked type sdp hb, List.mem_singleton] at hc
    subst hc
    exact .inl rfl
  | false =>
    obtain ⟨-, pre, rest, hcalls, hpre, hrest⟩ := handleRemoteSDP_spec type sdp hb
    rw [hcalls, List.mem_append] at hc
    rcases hc with hc | hc
    · exact .inl (hpre c hc)
    · split_ifs at hrest with hr
      · obtain ⟨ok, rest', rfl, hrest'⟩ := hrest
        rcases List.mem_cons.mp hc with rfl | hc
        · exact .inr ⟨rfl, hr⟩
        · exact .inr ⟨Call.follows_negotiates (hrest' c hc), hr⟩
      · simp [hrest.1] at hc

/-- A description that gets through is applied to the connection of the stream. -/
theorem handleRemoteSDP_applies (type sdp : String) (hb : blocked e m streamId = false)
    (hr : reaches e type) : ∃ ok, ⟨.setRemoteDescription (m.pcOf streamId) (sdpType type) sdp, ok⟩ ∈
      (handleRemoteSDP streamId type sdp e m).calls := by
  obtain ⟨-, pre, rest, hcalls, -, hrest⟩ := handleRemoteSDP_spec type sdp hb
  rw [if_pos hr] at hrest
  obtain ⟨ok, rest', rfl, -⟩ := hrest
  exact ⟨ok, by simp [hcalls]⟩

theorem handleRemoteSDP_lookup (type sdp : String) (hb : blocked e m streamId = false) :
    (handleRemoteSDP streamId type sdp e m).state.pcs.lookup streamId =
      some (m.pcOf streamId) := by
  obtain ⟨⟨mids, pending, hs, -⟩, -⟩ := handleRemoteSDP_spec type sdp hb
  rw [hs]
  exact m.ensured_lookup streamId

end ConferenceCall

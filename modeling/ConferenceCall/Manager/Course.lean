import ConferenceCall.Manager.Description
import ConferenceCall.Manager.Publish

/-! What is done with the connection of a stream, call by call. A deed is a call on a connection
without the number of the connection; the environment determines the deeds of a received
description. -/

namespace ConferenceCall

open Library

/-- A call on the connection of a stream. -/
inductive Deed where
  | create
  | addTrack (mid type : String)
  | setRemoteDescription (type : SdpType) (sdp : String)
  | addRemoteCandidate (c : Candidate)
  | setLocalDescription (type : SdpType)
  | close
  deriving DecidableEq

/-- A deed on a connection of a stream. -/
def Deed.call (streamId : String) (pc : ℕ) : Deed → Call
  | .create => .createPeer pc streamId
  | .addTrack mid type => .addTrack pc mid type
  | .setRemoteDescription type sdp => .setRemoteDescription pc type sdp
  | .addRemoteCandidate c => .addRemoteCandidate pc c
  | .setLocalDescription type => .setLocalDescription pc type
  | .close => .closePeer pc

/-- A deed as it is logged. -/
def Deed.log (streamId : String) (pc : ℕ) (d : Deed × Bool) : Invocation :=
  ⟨d.1.call streamId pc, d.2⟩

/-- The tracks that are tried, up to the first exception. -/
def triedTracks (e : Env) : ℕ → List Json → List (Deed × Bool)
  | _, [] => []
  | i, media :: rest => match recvTrack media with
    | none => []
    | some none => triedTracks e (i + 1) rest
    | some (some (mid, type)) =>
      if e.throws (.addTrack i) then [(.addTrack mid type, false)]
      else (.addTrack mid type, true) :: triedTracks e (i + 1) rest

/-- The candidates that are handed over, up to the first exception. -/
def triedCandidates (e : Env) : ℕ → List Candidate → List (Deed × Bool)
  | _, [] => []
  | i, c :: cs =>
    if e.throws (.addRemoteCandidate i) then [(.addRemoteCandidate c, false)]
    else (.addRemoteCandidate c, true) :: triedCandidates e (i + 1) cs

/-- What `prepareRecvTracksFromSDP` does. -/
def offerDeeds (e : Env) : List (Deed × Bool) :=
  if e.throws .sdpParse then [] else
    match e.parsed.find? "media" with
    | some media => triedTracks e 0 media.items
    | none => []

/-- All buffered candidates are taken. -/
def takesAll (e : Env) (pending : Option (List Candidate)) : Bool :=
  Act.allFrom (fun i _ => !e.throws (.addRemoteCandidate i)) 0 (pending.getD [])

/-- What is done once `setRemoteDescription` has returned. -/
def acceptedDeeds (e : Env) (type : String) (pending : Option (List Candidate)) :
    List (Deed × Bool) :=
  triedCandidates e 0 (pending.getD []) ++
    if takesAll e pending && type == "offer" then
      [(.setLocalDescription .answer, !e.throws .setLocalDescription)] else []

/-- What `handleRemoteSDP` does once its connection is there. -/
def descriptionDeeds (e : Env) (type sdp : String) (pending : Option (List Candidate)) :
    List (Deed × Bool) :=
  (if type = "offer" then offerDeeds e else []) ++
    if reaches e type then
      (.setRemoteDescription (sdpType type) sdp, !e.throws .setRemoteDescription) ::
        if e.throws .setRemoteDescription then [] else acceptedDeeds e type pending
    else []

variable {e : Env} {m : Manager} {streamId : String}

theorem addRecvTracks_deeds (streamId : String) (pc i : ℕ) (items : List Json) (e : Env)
    (m : Manager) : (Act.each (addRecvTrack pc) i items e m).calls =
      (triedTracks e i items).map (Deed.log streamId pc) := by
  induction items generalizing i m with
  | nil => rfl
  | cons media rest ih =>
    rw [Act.each_cons, triedTracks]
    rcases h : recvTrack media with _ | _ | ⟨mid, type⟩
    · simp [addRecvTrack, h]
    · simp [addRecvTrack, h, ih]
    · cases ht : e.throws (.addTrack i) with
      | true => simp [addRecvTrack, h, call_apply, ht, Deed.log, Deed.call]
      | false => simp [addRecvTrack, h, call_apply, ht, Deed.log, Deed.call, ih, Outcome.after]

theorem prepareRecvTracksFromSDP_deeds (streamId : String) (pc : ℕ) (e : Env) (m : Manager) :
    (prepareRecvTracksFromSDP pc e m).calls = (offerDeeds e).map (Deed.log streamId pc) := by
  cases ht : e.throws .sdpParse with
  | true => simp [prepareRecvTracksFromSDP, check_apply, ht, offerDeeds]
  | false =>
    cases hm : e.parsed.find? "media" with
    | none => simp [prepareRecvTracksFromSDP, check_apply, ht, offerDeeds, hm]
    | some media =>
      simp [prepareRecvTracksFromSDP, check_apply, ht, offerDeeds, hm,
        addRecvTracks_deeds streamId]

theorem readRemoteSDP_deeds (streamId type : String) (pc : ℕ) (e : Env) (m : Manager) :
    (readRemoteSDP type pc e m).calls =
      (if type = "offer" then offerDeeds e else []).map (Deed.log streamId pc) := by
  by_cases ht : type = "offer"
  · have hcalls := prepareRecvTracksFromSDP_deeds streamId pc e m
    simp only [readRemoteSDP, ht, beq_self_eq_true, if_true]
    rcases Act.bind_cases (prepareRecvTracksFromSDP pc) (fun _ => check .description) e m with
      ⟨-, hb⟩ | ⟨_, -, hb⟩ <;> rw [hb]
    · exact hcalls
    · rw [check_apply]
      split <;> simpa using hcalls
  · simp only [readRemoteSDP, beq_iff_eq, ht, if_false, check_apply]
    split <;> rfl

theorem addCandidates_deeds (streamId : String) (pc i : ℕ) (cs : List Candidate) (e : Env)
    (m : Manager) :
    (Act.each (fun i c => call (.addRemoteCandidate i) (.addRemoteCandidate pc c)) i cs e m).calls =
      (triedCandidates e i cs).map (Deed.log streamId pc) := by
  induction cs generalizing i m with
  | nil => rfl
  | cons c cs ih =>
    rw [Act.each_cons, triedCandidates]
    cases ht : e.throws (.addRemoteCandidate i) with
    | true => simp [call_apply, ht, Deed.log, Deed.call]
    | false => simp [call_apply, ht, Deed.log, Deed.call, ih, Outcome.after]

theorem accepted_eq (m : Manager) (e : Env) (streamId : String) :
    m.accepted e streamId = takesAll e (m.pendingCandidates.lookup streamId) := by
  unfold Manager.accepted takesAll
  cases m.pendingCandidates.lookup streamId <;> rfl

theorem flushCandidates_deeds (streamId : String) (pc : ℕ) (e : Env) (m : Manager) :
    (flushCandidates streamId pc e m).calls =
      (triedCandidates e 0 ((m.pendingCandidates.lookup streamId).getD [])).map
        (Deed.log streamId pc) := by
  cases h : m.pendingCandidates.lookup streamId with
  | none => simp [flushCandidates, h, triedCandidates]
  | some cs =>
    have hcalls := addCandidates_deeds streamId pc 0 cs e m
    simp only [flushCandidates, Act.gets_bind, h, Option.getD_some]
    rcases Act.bind_cases
      (Act.each (fun i c => call (.addRemoteCandidate i) (.addRemoteCandidate pc c)) 0 cs)
      (fun _ => Act.modify fun m : Manager =>
        { m with pendingCandidates := m.pendingCandidates.erase streamId }) e m with
      ⟨-, hb⟩ | ⟨_, -, hb⟩ <;> rw [hb]
    · exact hcalls
    · simpa using hcalls

theorem applyRemoteSDP_deeds (streamId type sdp : String) (pc : ℕ) (e : Env) (m : Manager) :
    (applyRemoteSDP streamId type sdp pc e m).calls =
      ((.setRemoteDescription (sdpType type) sdp, !e.throws .setRemoteDescription) ::
        if e.throws .setRemoteDescription then []
        else acceptedDeeds e type (m.pendingCandidates.lookup streamId)).map
          (Deed.log streamId pc) := by
  cases ht : e.throws .setRemoteDescription with
  | true => simp [applyRemoteSDP, call_apply, ht, Deed.log, Deed.call]
  | false =>
    obtain ⟨hv, -⟩ := flushCandidates_apply streamId pc e m
    have hcalls := flushCandidates_deeds streamId pc e m
    rw [accepted_eq] at hv
    simp only [applyRemoteSDP, Act.bind_apply, call_apply, ht, Bool.false_eq_true, if_false,
      Bool.not_false, Outcome.andThen_some, Outcome.after_calls, acceptedDeeds]
    rcases hf : flushCandidates streamId pc e m with ⟨_ | _, t, o⟩ <;> rw [hf] at hv hcalls <;>
      cases hall : takesAll e (m.pendingCandidates.lookup streamId) <;> simp [hall] at hv
    · simp [hcalls, Deed.log, Deed.call]
    · replace hcalls : o = _ := hcalls
      by_cases hoffer : type = "offer"
      · simp [hoffer, call_apply, ← hcalls, Deed.log, Deed.call]
      · simp [hoffer, ← hcalls, Deed.log, Deed.call]

/-- The calls of `handleRemoteSDP` in order. -/
theorem handleRemoteSDP_deeds (type sdp : String) (h : blocked e m streamId = false) :
    (handleRemoteSDP streamId type sdp e m).calls =
      ((if (m.pcs.lookup streamId).isSome then [] else [(Deed.create, true)]) ++
        descriptionDeeds e type sdp (m.pendingCandidates.lookup streamId)).map
          (Deed.log streamId (m.pcOf streamId)) := by
  have hcreate : createPeerIfNotExist streamId (streamId == m.roomId) e m =
      ⟨some (m.pcOf streamId), m.ensured streamId,
        (if (m.pcs.lookup streamId).isSome then [] else [(Deed.create, true)]).map
          (Deed.log streamId (m.pcOf streamId))⟩ := by
    cases hp : m.pcs.lookup streamId with
    | some pc => simp [createPeerIfNotExist_of_some _ hp, Manager.pcOf, Manager.ensured, hp]
    | none =>
      have ht : e.throws .createPeer = false := by simpa [blocked, hp] using h
      simp [createPeerIfNotExist_of_none _ hp, ht, Manager.pcOf, Manager.ensured, hp, Deed.log, Deed.call]
  have hread := readRemoteSDP_deeds streamId type (m.pcOf streamId) e (m.ensured streamId)
  have hvalue := readRemoteSDP_value type (m.pcOf streamId) e (m.ensured streamId)
  have hstate := readRemoteSDP_state type (m.pcOf streamId) e (m.ensured streamId)
  have hpending : ((readRemoteSDP type (m.pcOf streamId) e
      (m.ensured streamId)).state.pendingCandidates) = m.pendingCandidates := by
    rw [hstate, ← m.ensured_pendingCandidates streamId]
    split_ifs <;> rfl
  simp only [handleRemoteSDP, Act.bind_apply, Act.gets_apply, Outcome.andThen_some, hcreate,
    Outcome.after_nil, Outcome.after_calls, descriptionDeeds, List.map_append]
  refine congrArg _ ?_
  rcases hr : readRemoteSDP type (m.pcOf streamId) e (m.ensured streamId) with ⟨_ | _, t, o⟩ <;>
    rw [hr] at hread hvalue hpending <;> cases hreach : reaches e type <;> simp [hreach] at hvalue
  · simpa using hread
  · have happly := applyRemoteSDP_deeds streamId type sdp (m.pcOf streamId) e t
    rw [hpending] at happly
    simp only [Outcome.andThen_some, Outcome.after_calls, happly, if_true]
    exact congrArg (· ++ _) hread

/-- A deed that a description asks for: tracks are those of its media sections. -/
def Deed.described : Deed → Prop
  | .create | .close => False
  | .addTrack mid type => ∃ media, recvTrack media = some (some (mid, type))
  | .setRemoteDescription _ _ | .addRemoteCandidate _ | .setLocalDescription _ => True

theorem triedTracks_described (i : ℕ) (items : List Json) :
    ∀ d ∈ triedTracks e i items, d.1.described := by
  induction items generalizing i with
  | nil => simp [triedTracks]
  | cons media rest ih =>
    rw [triedTracks]
    rcases h : recvTrack media with _ | _ | ⟨mid, type⟩
    · simp
    · exact ih (i + 1)
    · have hd : (Deed.addTrack mid type).described := ⟨media, h⟩
      cases e.throws (.addTrack i) with
      | true => simpa using hd
      | false => simpa [hd] using ih (i + 1)

theorem triedCandidates_described (i : ℕ) (cs : List Candidate) :
    ∀ d ∈ triedCandidates e i cs, d.1.described := by
  induction cs generalizing i with
  | nil => simp [triedCandidates]
  | cons c cs ih =>
    have hd : (Deed.addRemoteCandidate c).described := trivial
    rw [triedCandidates]
    cases e.throws (.addRemoteCandidate i) with
    | true => simpa using hd
    | false => simpa [hd] using ih (i + 1)

/-- What is done for a description neither creates nor closes. -/
theorem descriptionDeeds_described (type sdp : String) (pending : Option (List Candidate)) :
    ∀ d ∈ descriptionDeeds e type sdp pending, d.1.described := by
  intro d hd
  rcases List.mem_append.mp hd with hd | hd
  · split_ifs at hd
    · unfold offerDeeds at hd
      split_ifs at hd
      · cases hd
      · cases hm : e.parsed.find? "media" with
        | none => simp [hm] at hd
        | some media => exact triedTracks_described 0 media.items d (by simpa [hm] using hd)
    · cases hd
  · split_ifs at hd
    · rw [List.mem_singleton.mp hd]
      trivial
    · rcases List.mem_cons.mp hd with rfl | hd
      · trivial
      · rcases List.mem_append.mp hd with hd | hd
        · exact triedCandidates_described 0 _ d hd
        · split_ifs at hd
          · rw [List.mem_singleton.mp hd]
            trivial
          · cases hd
    · cases hd

/-- The call equips a new connection. -/
def Call.furnishes (pc : ℕ) : Call → Prop
  | .addTrack pc' _ _ | .createDataChannel pc' _ => pc' = pc
  | _ => False

/-- A publish peer is created and equipped, up to the first exception. -/
theorem setupPublishPeer_furnishes (hp : m.pcs.lookup streamId = none)
    (ht : e.throws .createPeer = false) :
    ∃ l, (setupPublishPeer streamId e m).calls = ⟨.createPeer m.nextPc streamId, true⟩ :: l ∧
      ∀ c ∈ l, c.call.furnishes m.nextPc := by
  have htracks (m' : Manager) :
      ∀ c ∈ (setupLocalTracks m.nextPc e m').calls, c.call.furnishes m.nextPc := by
    cases h : e.throws (.addTrack 0) <;> simp [setupLocalTracks, call_apply, h, Call.furnishes]
  have hchannel (m' : Manager) :
      ∀ c ∈ (createLocalChannel streamId m.nextPc e m').calls, c.call.furnishes m.nextPc := by
    cases h : m'.localDataChannels.lookup streamId <;> cases ht : e.throws .createDataChannel <;>
      simp [createLocalChannel, h, call_apply, ht, Call.furnishes]
  rw [setupPublishPeer_of_none hp ht]
  refine ⟨((do
    if !m.isOnlyPlayer then setupLocalTracks m.nextPc
    createLocalChannel streamId m.nextPc : Act Unit) e (m.withPublisher streamId)).calls, rfl,
    fun c hc => ?_⟩
  cases hplayer : m.isOnlyPlayer with
  | true =>
    simp only [hplayer, Bool.not_true, Bool.false_eq_true, if_false] at hc
    exact hchannel _ c hc
  | false =>
    simp only [hplayer, Bool.not_false, if_true] at hc
    rcases Act.bind_cases (setupLocalTracks m.nextPc)
      (fun _ => createLocalChannel streamId m.nextPc) e (m.withPublisher streamId) with
      ⟨-, hb⟩ | ⟨a, -, hb⟩ <;> rw [hb] at hc
    · exact htracks _ c hc
    · rcases List.mem_append.mp hc with hc | hc
      · exact htracks _ c hc
      · exact hchannel _ c hc

end ConferenceCall

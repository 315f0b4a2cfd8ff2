import ConferenceCall.Manager.Negotiation

/-! The exact course of a description: the tracks an offer adds before something throws,
the candidates handed over, and the state `handleRemoteSDP` leaves in each case. -/

namespace ConferenceCall

open Library

/-- The tracks added before the first exception. -/
def addedTracks (e : Env) : ℕ → List Json → List (String × String)
  | _, [] => []
  | i, media :: rest => match recvTrack media with
    | none => []
    | some none => addedTracks e (i + 1) rest
    | some (some track) =>
      if e.throws (.addTrack i) then [] else track :: addedTracks e (i + 1) rest

/-- The tracks a received offer adds. -/
def offeredTracks (e : Env) : List (String × String) :=
  if e.throws .sdpParse then [] else
    match e.parsed.find? "media" with
    | some media => addedTracks e 0 media.items
    | none => []

namespace Manager

/-- The state after some receive tracks were added. -/
def withTracks (m : Manager) (tracks : List (String × String)) : Manager :=
  { m with midTypeMap := Dict.insertAll m.midTypeMap tracks }

/-- The state after the buffered candidates were handed over. -/
def flushed (m : Manager) (streamId : String) : Manager :=
  { m with pendingCandidates := m.pendingCandidates.erase streamId }

/-- The buffered candidates are all accepted. -/
def accepted (m : Manager) (e : Env) (streamId : String) : Bool :=
  match m.pendingCandidates.lookup streamId with
  | some cs => Act.allFrom (fun i _ => !e.throws (.addRemoteCandidate i)) 0 cs
  | none => true

end Manager

variable {e : Env} {m : Manager} {streamId : String}

theorem addRecvTracks_state (pc i : ℕ) (items : List Json) (e : Env) (m : Manager) :
    (Act.each (addRecvTrack pc) i items e m).state = m.withTracks (addedTracks e i items) := by
  induction items generalizing i m with
  | nil => rfl
  | cons media rest ih =>
    rcases h : recvTrack media with _ | _ | ⟨mid, type⟩
    · simp [addRecvTrack, h, addedTracks, Manager.withTracks, Dict.insertAll]
    · simp [addRecvTrack, h, addedTracks, ih]
    · cases ht : e.throws (.addTrack i) with
      | true =>
        simp [addRecvTrack, h, addedTracks, call_apply, ht, Manager.withTracks, Dict.insertAll]
      | false =>
        have hadd : addRecvTrack pc i media e m =
            ⟨some (), m.withTracks [(mid, type)], [⟨.addTrack pc mid type, true⟩]⟩ := by
          simp [addRecvTrack, h, call_apply, ht, Manager.withTracks, Dict.insertAll, Outcome.after]
        simp only [Act.each_cons, Act.bind_apply, hadd, Outcome.andThen_some, Outcome.after_state,
          ih, addedTracks, h, ht, Bool.false_eq_true, if_false]
        rfl

theorem prepareRecvTracksFromSDP_state (pc : ℕ) (e : Env) (m : Manager) :
    (prepareRecvTracksFromSDP pc e m).state = m.withTracks (offeredTracks e) := by
  cases ht : e.throws .sdpParse with
  | true => simp [prepareRecvTracksFromSDP, check_apply, ht, offeredTracks, Manager.withTracks,
      Dict.insertAll]
  | false =>
    cases hm : e.parsed.find? "media" with
    | none => simp [prepareRecvTracksFromSDP, check_apply, ht, offeredTracks, hm,
        Manager.withTracks, Dict.insertAll]
    | some media =>
      simp [prepareRecvTracksFromSDP, check_apply, ht, offeredTracks, hm, addRecvTracks_state]

theorem readRemoteSDP_state (type : String) (pc : ℕ) (e : Env) (m : Manager) :
    (readRemoteSDP type pc e m).state =
      if type = "offer" then m.withTracks (offeredTracks e) else m := by
  by_cases ht : type = "offer"
  · have hs := prepareRecvTracksFromSDP_state pc e m
    simp only [readRemoteSDP, ht, beq_self_eq_true, if_true]
    rcases Act.bind_cases (prepareRecvTracksFromSDP pc) (fun _ => check .description) e m with
      ⟨-, hb⟩ | ⟨_, -, hb⟩ <;> rw [hb]
    · exact hs
    · rw [check_apply]
      split <;> exact hs
  · simp only [readRemoteSDP, beq_iff_eq, ht, if_false, check_apply]
    split <;> rfl

theorem addCandidates_state (pc i : ℕ) (cs : List Candidate) (e : Env) (m : Manager) :
    (Act.each (fun i c => call (.addRemoteCandidate i) (.addRemoteCandidate pc c)) i cs e m).state =
      m :=
  ((Act.Within.each (R := Eq) (P := fun _ => True) (fun _ => rfl)
    (fun _ _ _ h h' => h.trans h') cs
    (fun _ _ _ => call_within (fun _ => rfl) _ _ fun _ => trivial) i) e m).1.symm

/-- The candidates are forgotten only when all were accepted. -/
theorem flushCandidates_apply (streamId : String) (pc : ℕ) (e : Env) (m : Manager) :
    (flushCandidates streamId pc e m).value = (if m.accepted e streamId then some () else none) ∧
    (flushCandidates streamId pc e m).state =
      if m.accepted e streamId then m.flushed streamId else m := by
  cases h : m.pendingCandidates.lookup streamId with
  | none =>
    have hf : m.flushed streamId = m := by
      rw [Manager.flushed, Dict.erase_of_lookup_none _ _ h]
    simp [flushCandidates, h, Manager.accepted, hf]
  | some cs =>
    have hv := Act.each_value (f := fun i c => call (.addRemoteCandidate i) (.addRemoteCandidate pc c))
      (e := e) (fun i _ => !e.throws (.addRemoteCandidate i))
      (fun i c m => by rw [call_apply]; cases e.throws (.addRemoteCandidate i) <;> rfl) cs 0 m
    have hs := addCandidates_state pc 0 cs e m
    have hacc : m.accepted e streamId =
        Act.allFrom (fun i _ => !e.throws (.addRemoteCandidate i)) 0 cs := by
      simp [Manager.accepted, h]
    simp only [flushCandidates, Act.gets_bind, h]
    rcases Act.bind_cases
      (Act.each (fun i c => call (.addRemoteCandidate i) (.addRemoteCandidate pc c)) 0 cs)
      (fun _ => Act.modify fun m : Manager =>
        { m with pendingCandidates := m.pendingCandidates.erase streamId }) e m with
      ⟨hn, hb⟩ | ⟨_, hsome, hb⟩ <;> rw [hb, hacc]
    · have hfail : Act.allFrom (fun i _ => !e.throws (.addRemoteCandidate i)) 0 cs = false := by
        by_contra hacc'
        simp [hn, hacc'] at hv
      simp [hfail, hs]
    · have hok : Act.allFrom (fun i _ => !e.throws (.addRemoteCandidate i)) 0 cs = true := by
        by_contra hacc'
        simp [hsome, hacc'] at hv
      simp [hok, hs, Manager.flushed]

/-- The description is accepted and so are the buffered candidates. -/
def Manager.applies (m : Manager) (e : Env) (streamId : String) : Bool :=
  !e.throws .setRemoteDescription && m.accepted e streamId

/-- An offer gets its answer. -/
def answered (e : Env) (type : String) : Bool :=
  type != "offer" || !e.throws .setLocalDescription

theorem applyRemoteSDP_apply (streamId type sdp : String) (pc : ℕ) (e : Env) (m : Manager) :
    (applyRemoteSDP streamId type sdp pc e m).value =
      (if m.applies e streamId && answered e type then some () else none) ∧
    (applyRemoteSDP streamId type sdp pc e m).state =
      if m.applies e streamId then m.flushed streamId else m := by
  obtain ⟨hv, hs⟩ := flushCandidates_apply streamId pc e m
  cases ht : e.throws .setRemoteDescription with
  | true => simp [applyRemoteSDP, call_apply, ht, Manager.applies]
  | false =>
    have happ : m.applies e streamId = m.accepted e streamId := by simp [Manager.applies, ht]
    simp only [applyRemoteSDP, Act.bind_apply, call_apply, ht, Bool.false_eq_true, if_false,
      Outcome.andThen_some, Outcome.after_value, Outcome.after_state, happ]
    rcases hf : flushCandidates streamId pc e m with ⟨_ | _, t, o⟩ <;> rw [hf] at hv hs <;>
      cases hacc : m.accepted e streamId <;> simp [hacc] at hv
    · simpa [hacc] using hs
    · have hflush : t = m.flushed streamId := by simpa [hacc] using hs
      subst hflush
      by_cases hoffer : type = "offer"
      · cases hl : e.throws .setLocalDescription <;>
          simp [hoffer, call_apply, hl, answered]
      · simp [hoffer, answered]

namespace Manager

/-- Nothing throws while the description is processed. -/
def completes (m : Manager) (e : Env) (streamId type : String) : Bool :=
  reaches e type && m.applies e streamId && answered e type

/-- The state in which the description is applied. -/
def prepared (m : Manager) (e : Env) (streamId type : String) : Manager :=
  if type = "offer" then (m.ensured streamId).withTracks (offeredTracks e)
  else m.ensured streamId

theorem prepared_applies (m : Manager) (e : Env) (streamId type : String) :
    (m.prepared e streamId type).applies e streamId = m.applies e streamId := by
  have hp : (m.prepared e streamId type).pendingCandidates = m.pendingCandidates := by
    unfold prepared
    split_ifs <;> cases h : m.pcs.lookup streamId <;>
      simp [withTracks, ensured, h, withPeer]
  simp [applies, accepted, hp]

end Manager

theorem handleRemoteSDP_apply (type sdp : String) (h : blocked e m streamId = false) :
    (handleRemoteSDP streamId type sdp e m).value =
      (if m.completes e streamId type then some () else none) ∧
    (handleRemoteSDP streamId type sdp e m).state =
      if reaches e type && m.applies e streamId then (m.prepared e streamId type).flushed streamId
      else m.prepared e streamId type := by
  obtain ⟨o, -, heq⟩ := handleRemoteSDP_eq type sdp h
  have hv := readRemoteSDP_value type (m.pcOf streamId) e (m.ensured streamId)
  have hs : (readRemoteSDP type (m.pcOf streamId) e (m.ensured streamId)).state =
      m.prepared e streamId type := readRemoteSDP_state type (m.pcOf streamId) e (m.ensured streamId)
  rw [heq, Outcome.after_value, Outcome.after_state, Act.bind_apply]
  rcases hr : readRemoteSDP type (m.pcOf streamId) e (m.ensured streamId) with ⟨_ | _, t, o'⟩ <;>
    rw [hr] at hv hs <;> cases hreach : reaches e type <;> simp [hreach] at hv
  · simpa [Manager.completes, hreach] using hs
  · have ht : t = m.prepared e streamId type := hs
    obtain ⟨hv', hs'⟩ := applyRemoteSDP_apply streamId type sdp (m.pcOf streamId) e t
    rw [ht, m.prepared_applies] at hv' hs'
    rw [ht]
    simp only [Outcome.andThen_some, Outcome.after_value, Outcome.after_state, Manager.completes,
      hreach, Bool.true_and]
    exact ⟨hv', hs'⟩

/-! ### The tracks of an offer -/

theorem recvTrack_some {media : Json} {mid type : String}
    (h : recvTrack media = some (some (mid, type))) :
    (type = "audio" ∨ type = "video") ∧ ∃ n, mid = "remote-" ++ type ++ "-" ++ n := by
  unfold recvTrack at h
  simp only [Option.bind_eq_bind, Option.bind_eq_some_iff, Option.pure_def] at h
  obtain ⟨t, -, dir, -, h⟩ := h
  split_ifs at h with hskip
  · cases h
  have htype : t = "audio" ∨ t = "video" := by
    by_contra hne
    rw [not_or] at hne
    simp [hne.1, hne.2] at hskip
  have hout {pt : ℤ} (hpt : (if pt < 0 then some none
      else some (some ("remote-" ++ t ++ "-" ++ toString pt, t))) = some (some (mid, type))) :
      (type = "audio" ∨ type = "video") ∧ ∃ n, mid = "remote-" ++ type ++ "-" ++ n := by
    split_ifs at hpt
    · cases hpt
    · cases hpt
      exact ⟨htype, toString pt, rfl⟩
  split at h
  · obtain ⟨pt, -, h⟩ := Option.bind_eq_some_iff.mp h
    exact hout h
  · rw [Option.bind_some] at h
    exact hout h

theorem mem_addedTracks {i : ℕ} {items : List Json} {track : String × String}
    (h : track ∈ addedTracks e i items) : ∃ media, recvTrack media = some (some track) := by
  induction items generalizing i with
  | nil => simp [addedTracks] at h
  | cons media rest ih =>
    unfold addedTracks at h
    split at h
    · simp at h
    · exact ih h
    · rename_i track' hr
      split_ifs at h
      · simp at h
      · rcases List.mem_cons.mp h with rfl | h
        · exact ⟨media, hr⟩
        · exact ih h

theorem mem_offeredTracks {track : String × String} (h : track ∈ offeredTracks e) :
    ∃ media, recvTrack media = some (some track) := by
  unfold offeredTracks at h
  split_ifs at h
  · simp at h
  · split at h
    · exact mem_addedTracks h
    · simp at h

/-- The mid of a receive track determines its type. -/
theorem offeredTracks_consistent (e : Env) :
    ∀ p ∈ offeredTracks e, ∀ q ∈ offeredTracks e, p.1 = q.1 → p.2 = q.2 := by
  rintro ⟨mid, type⟩ hp ⟨mid', type'⟩ hq (rfl : mid = mid')
  obtain ⟨_, hp⟩ := mem_offeredTracks hp
  obtain ⟨_, hq⟩ := mem_offeredTracks hq
  obtain ⟨htype, n, hn⟩ := recvTrack_some hp
  obtain ⟨htype', n', hn'⟩ := recvTrack_some hq
  have heq := congrArg String.toList (hn.symm.trans hn')
  rcases htype with rfl | rfl <;> rcases htype' with rfl | rfl
  · rfl
  · simp at heq
  · simp at heq
  · rfl

end ConferenceCall

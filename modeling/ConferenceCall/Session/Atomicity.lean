import ConferenceCall.Manager.Description
import ConferenceCall.Manager.Run

/-! Messages that fail half-way. The catch-all of the socket handler stands above
code that changes the trackers and calls the libraries in turn, so an exception
keeps whatever was written before it. For every signal the module says which state
and which failing calls leave a trace in the trackers. -/

namespace ConferenceCall

open Library

/-- All ten trackers agree. -/
structure SameTrackers (m m' : Manager) : Prop where
  pcs : m'.pcs = m.pcs
  isPublisher : m'.isPublisher = m.isPublisher
  sendPlay : m'.sendPlay = m.sendPlay
  played : m'.played = m.played
  remoteTracks : m'.remoteTracks = m.remoteTracks
  pendingCandidates : m'.pendingCandidates = m.pendingCandidates
  midTypeMap : m'.midTypeMap = m.midTypeMap
  localDataChannels : m'.localDataChannels = m.localDataChannels
  remoteDataChannels : m'.remoteDataChannels = m.remoteDataChannels
  isStreamTalking : m'.isStreamTalking = m.isStreamTalking

theorem SameTrackers.refl (m : Manager) : SameTrackers m m := by constructor <;> rfl

variable {e : Env} {m : Manager} {streamId : String}

/-- The offer adds a track whose type is not recorded yet. -/
def Manager.recordsTrack (m : Manager) (e : Env) (type : String) : Bool :=
  type == "offer" &&
    (offeredTracks e).any fun track => m.midTypeMap.lookup track.1 != some track.2

/-- Some tracker has an entry for the stream that its removal drops or restores. -/
def Manager.registered (m : Manager) (streamId : String) : Bool :=
  (m.pcs.lookup streamId).isSome || (m.localDataChannels.lookup streamId).isSome ||
    (m.remoteDataChannels.lookup streamId).isSome || (m.played.lookup streamId).isSome ||
    m.sendPlay.lookup streamId != some true

/-- Processing the signal throws after a tracker was changed. -/
def Manager.torn (m : Manager) (e : Env) : Signal → Bool
  | .onRemoteSDP streamId type _ =>
    !blocked e m streamId && !m.completes e streamId type &&
      ((m.pcs.lookup streamId).isNone || m.recordsTrack e type ||
        reaches e type && m.applies e streamId && (m.pendingCandidates.lookup streamId).isSome)
  | .onRemoteCandidate streamId cand _ =>
    !cand.isEmpty && e.throws .candidate && (m.pcs.lookup streamId).isNone &&
      (m.pendingCandidates.lookup streamId).isNone
  | .onPublishStartedNotification =>
    (m.sendPlay.lookup m.roomId).isNone && m.sendFails e .sendPlayRoom
  | .onPlayFinishedNotification streamId =>
    !streamId.isEmpty && streamId == m.roomId && m.sendFails e .sendPlayRoom &&
      m.registered streamId
  | .onSubtrackAddedNotification trackId => m.plays trackId && m.sendFails e .sendPlayStream
  | _ => false

/-- If the outcome is an exception, the trackers are as before. -/
def Atomic (m : Manager) (r : Library.Outcome Manager Invocation Unit) : Prop :=
  r.value = none → SameTrackers m r.state

theorem recordsTrack_eq_false (m : Manager) (e : Env) (type : String) :
    m.recordsTrack e type = false ↔
      (type = "offer" → Dict.insertAll m.midTypeMap (offeredTracks e) = m.midTypeMap) := by
  rw [Dict.insertAll_eq_self_iff _ _ (offeredTracks_consistent e)]
  by_cases ht : type = "offer" <;> simp [Manager.recordsTrack, ht]

theorem atomic_of_no_change {r : Library.Outcome Manager Invocation Unit} (h : r.state = m) :
    Atomic m r := by
  intro _
  rw [h]
  exact SameTrackers.refl m

/-- A description of a stored connection touches two trackers only. -/
theorem sameTrackers_stored {pc : ℕ} (h : m.pcs.lookup streamId = some pc) (e : Env)
    (type : String) (flush : Bool) :
    SameTrackers m (if flush then (m.prepared e streamId type).flushed streamId
        else m.prepared e streamId type) ↔
      m.recordsTrack e type = false ∧
        (flush = true → m.pendingCandidates.lookup streamId = none) := by
  have hprep : m.prepared e streamId type =
      { m with midTypeMap := if type = "offer" then
          Dict.insertAll m.midTypeMap (offeredTracks e) else m.midTypeMap } := by
    unfold Manager.prepared
    rw [Manager.ensured_of_some h]
    split_ifs <;> rfl
  rw [recordsTrack_eq_false, hprep]
  constructor
  · intro hsame
    constructor
    · intro ht
      have hmid := hsame.midTypeMap
      cases flush <;> simpa [ht, Manager.flushed] using hmid
    · rintro rfl
      exact Dict.lookup_none_of_erase_eq _ _ hsame.pendingCandidates
  · rintro ⟨hmid, hpend⟩
    have hif : (if type = "offer" then Dict.insertAll m.midTypeMap (offeredTracks e)
        else m.midTypeMap) = m.midTypeMap := by
      split_ifs with ht
      · exact hmid ht
      · rfl
    rw [hif]
    cases flush with
    | false => exact SameTrackers.refl m
    | true =>
      have herase := Dict.erase_of_lookup_none _ _ (hpend rfl)
      simp only [if_true, Manager.flushed, herase]
      exact SameTrackers.refl m

theorem atomic_handleRemoteSDP (streamId type sdp : String) (e : Env) (m : Manager) :
    Atomic m (handleRemoteSDP streamId type sdp e m) ↔
      m.torn e (.onRemoteSDP streamId type sdp) = false := by
  cases hblk : blocked e m streamId with
  | true =>
    refine iff_of_true (atomic_of_no_change ?_) (by simp [Manager.torn, hblk])
    rw [handleRemoteSDP_of_blocked type sdp hblk]
  | false =>
    obtain ⟨hv, hs⟩ := handleRemoteSDP_apply type sdp hblk
    cases hcomp : m.completes e streamId type with
    | true =>
      refine iff_of_true (fun hraise => ?_) (by simp [Manager.torn, hcomp])
      simp [hv, hcomp] at hraise
    | false =>
      have hraise : (handleRemoteSDP streamId type sdp e m).value = none := by simp [hv, hcomp]
      have hatomic : Atomic m (handleRemoteSDP streamId type sdp e m) ↔
          SameTrackers m (handleRemoteSDP streamId type sdp e m).state := by
        simp [Atomic, hraise]
      rw [hatomic]
      cases hp : m.pcs.lookup streamId with
      | none =>
        refine iff_of_false (fun hsame => ?_) (by simp [Manager.torn, hblk, hcomp, hp])
        have hlook := handleRemoteSDP_lookup type sdp hblk
        rw [hsame.pcs, hp] at hlook
        cases hlook
      | some pc =>
        rw [hs, sameTrackers_stored hp e type (reaches e type && m.applies e streamId)]
        cases hr : reaches e type && m.applies e streamId <;>
          simp [Manager.torn, hblk, hcomp, hp, hr]

theorem atomic_addRemoteCandidate (streamId cand mid : String) (e : Env) (m : Manager) :
    Atomic m (addRemoteCandidate streamId cand mid e m) ↔
      m.torn e (.onRemoteCandidate streamId cand mid) = false := by
  cases hc : cand.isEmpty with
  | true =>
    refine iff_of_true (atomic_of_no_change ?_) (by simp [Manager.torn, hc])
    rw [addRemoteCandidate_of_empty hc]
  | false =>
    cases hp : m.pcs.lookup streamId with
    | some pc =>
      refine iff_of_true (atomic_of_no_change ?_) (by simp [Manager.torn, hp])
      rw [addRemoteCandidate_of_some hc hp]
      split_ifs <;> rfl
    | none =>
      rw [addRemoteCandidate_of_none hc hp]
      cases ht : e.throws .candidate with
      | false => simp [Atomic, Manager.torn, ht]
      | true =>
        cases hpend : m.pendingCandidates.lookup streamId with
        | none =>
          refine iff_of_false (fun hatomic => ?_) (by simp [Manager.torn, hc, ht, hp, hpend])
          have hsame := congrArg (fun d => d.lookup streamId) (hatomic rfl).pendingCandidates
          simp [Manager.buffer, hpend] at hsame
        | some cs =>
          have hsame : m.buffer streamId [] = m := by
            simp [Manager.buffer, hpend, Dict.insert_of_lookup_some]
          refine iff_of_true (atomic_of_no_change hsame) (by simp [Manager.torn, hpend])

theorem atomic_onPublishStartedNotification (e : Env) (m : Manager) :
    Atomic m (onPublishStartedNotification e m) ↔
      m.torn e .onPublishStartedNotification = false := by
  cases hp : m.sendPlay.lookup m.roomId with
  | some b =>
    refine iff_of_true (atomic_of_no_change ?_) (by simp [Manager.torn, hp])
    rw [onPublishStartedNotification_of_some hp]
  | none =>
    rw [onPublishStartedNotification_of_none hp]
    cases hf : m.sendFails e .sendPlayRoom with
    | false => simp [Atomic, Manager.torn, hf]
    | true =>
      refine iff_of_false (fun hatomic => ?_) (by simp [Manager.torn, hp, hf])
      have hsame := congrArg (fun d => d.lookup m.roomId) (hatomic rfl).sendPlay
      simp [Manager.markRoom, hp] at hsame

theorem atomic_onSubtrackAddedNotification (trackId : String) (e : Env) (m : Manager) :
    Atomic m (onSubtrackAddedNotification trackId e m) ↔
      m.torn e (.onSubtrackAddedNotification trackId) = false := by
  cases hp : m.plays trackId with
  | false =>
    refine iff_of_true (atomic_of_no_change ?_) (by simp [Manager.torn, hp])
    rw [onSubtrackAddedNotification_of_not_plays hp]
  | true =>
    rw [onSubtrackAddedNotification_of_plays hp]
    cases hf : m.sendFails e .sendPlayStream with
    | false => simp [Atomic, Manager.torn, hf]
    | true =>
      refine iff_of_false (fun hatomic => ?_) (by simp [Manager.torn, hp, hf])
      have hsame := congrArg (fun d => d.lookup trackId) (hatomic rfl).sendPlay
      have hsent : m.playSent trackId = false := by
        simp only [Manager.plays, Bool.and_eq_true, Bool.not_eq_true'] at hp
        exact hp.2
      simp only [Manager.markPlay, Finmap.lookup_insert] at hsame
      simp [Manager.playSent, ← hsame] at hsent

/-- Removing the room and marking it again restores the trackers exactly when
nothing but the mark was there. -/
theorem sameTrackers_room (m : Manager) :
    SameTrackers m (m.withoutPeer m.roomId).markRoom ↔ m.registered m.roomId = false := by
  simp only [Manager.registered, Bool.or_eq_false_iff, Option.isSome_eq_false_iff,
    Option.isNone_iff_eq_none, bne_eq_false_iff_eq]
  constructor
  · intro hsame
    have hplay := congrArg (fun d => d.lookup m.roomId) hsame.sendPlay
    refine ⟨⟨⟨⟨?_, ?_⟩, ?_⟩, ?_⟩, ?_⟩
    · exact Dict.lookup_none_of_erase_eq _ _ hsame.pcs
    · exact Dict.lookup_none_of_erase_eq _ _ hsame.localDataChannels
    · exact Dict.lookup_none_of_erase_eq _ _ hsame.remoteDataChannels
    · exact Dict.lookup_none_of_erase_eq _ _ hsame.played
    · simpa [Manager.markRoom, Manager.withoutPeer] using hplay.symm
  · rintro ⟨⟨⟨⟨hpcs, hlocal⟩, hremote⟩, hplayed⟩, hplay⟩
    have hmark : (m.sendPlay.erase m.roomId).insert m.roomId true = m.sendPlay := by
      refine Finmap.ext_lookup fun k => ?_
      rw [Dict.lookup_insert_eq, Dict.lookup_erase_eq]
      split_ifs with hk
      · rw [hk, hplay]
      · rfl
    refine ⟨Dict.erase_of_lookup_none _ _ hpcs, rfl, hmark, Dict.erase_of_lookup_none _ _ hplayed,
      rfl, rfl, rfl, Dict.erase_of_lookup_none _ _ hlocal, Dict.erase_of_lookup_none _ _ hremote, rfl⟩

theorem atomic_onPlayFinishedNotification (streamId : String) (e : Env) (m : Manager) :
    Atomic m (onPlayFinishedNotification streamId e m) ↔
      m.torn e (.onPlayFinishedNotification streamId) = false := by
  cases hs : streamId.isEmpty with
  | true =>
    refine iff_of_true (atomic_of_no_change ?_) (by simp [Manager.torn, hs])
    rw [onPlayFinishedNotification_of_empty hs]
  | false =>
    by_cases hr : streamId = m.roomId
    · rw [onPlayFinishedNotification_of_room hs hr]
      subst hr
      cases hf : m.sendFails e .sendPlayRoom with
      | false => simp [Atomic, Manager.torn, hf]
      | true => simp [Atomic, Manager.torn, hs, hf, sameTrackers_room]
    · rw [onPlayFinishedNotification_of_other hs hr]
      simp [Atomic, Manager.torn, hr]

theorem atomic_onSignal (sig : Signal) (e : Env) (m : Manager) :
    Atomic m (onSignal sig e m) ↔ m.torn e sig = false := by
  cases sig with
  | onStartOfferer streamId =>
    exact iff_of_true (atomic_of_no_change (startOffer_state streamId e m)) rfl
  | onRemoteSDP streamId type sdp => exact atomic_handleRemoteSDP streamId type sdp e m
  | onRemoteCandidate streamId cand mid => exact atomic_addRemoteCandidate streamId cand mid e m
  | onJoinedRoomNotification =>
    refine iff_of_true (atomic_of_no_change ?_) rfl
    rw [onSignal, onJoinedRoomNotification_apply]
  | onPublishStartedNotification => exact atomic_onPublishStartedNotification e m
  | onPlayStartedNotification streamId =>
    rw [onSignal, onPlayStartedNotification_apply]
    simp [Atomic, Manager.torn]
  | onPlayFinishedNotification streamId => exact atomic_onPlayFinishedNotification streamId e m
  | onSubtrackAddedNotification trackId => exact atomic_onSubtrackAddedNotification trackId e m
  | onSubtrackRemovedNotification trackId =>
    rw [onSignal, onSubtrackRemovedNotification_apply]
    simp [Atomic, Manager.torn]

/-- A message whose processing raises leaves the trackers as they were exactly when it is not
one of the signals torn in that state. -/
theorem message_atomic_iff (text : Option Json) (e : Env) (m : Manager) :
    ((processMessage text e m).value = none → SameTrackers m (onMessage text e m).state) ↔
      ∀ sig, receive text = some (some sig) → m.torn e sig = false := by
  have hstate : (onMessage text e m).state = (processMessage text e m).state := rfl
  rw [hstate]
  rcases hr : receive text with _ | _ | sig
  · have hp : processMessage text e m = ⟨none, m, []⟩ := by simp [processMessage, hr]
    simpa [hp] using SameTrackers.refl m
  · have hp : processMessage text e m = ⟨some (), m, []⟩ := by simp [processMessage, hr]
    simp [hp]
  · have hp : processMessage text e m = onSignal sig e m := by
      rw [processMessage, Act.bind_apply, Act.ofOption_apply, hr]
      rfl
    rw [hp]
    exact (atomic_onSignal sig e m).trans (by simp)

/-- An offer that does not parse leaves a connection for its stream. -/
theorem rejected_offer_registers : ¬ ∀ (text : Option Json) (e : Env) (m : Manager),
    (processMessage text e m).value = none → SameTrackers m (onMessage text e m).state := by
  intro h
  have hsame := h (some (Signal.onRemoteSDP "bob" "offer" "").text)
    { Env.calm with throws := fun site => site = .sdpParse } Opening.plain.state (by decide)
  have hpcs := congrArg (fun d => d.lookup "bob") hsame.pcs
  exact absurd hpcs (by decide)

end ConferenceCall

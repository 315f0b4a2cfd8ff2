import ConferenceCall.Session.Remote

/-! A session is the product of its remote streams in its connections and its signalling. What it
does there about one of them is what the stream by itself would do with the messages and reports
that concern it, however these are mixed with those of other streams, with failures, and with what
happens to the own stream and the room. -/

namespace ConferenceCall

open Library

/-- What a connection reports. -/
inductive Report where
  | track (track : Track)
  | localCandidate (cand mid : String)
  | localDescription (type : SdpType) (sdp : String)
  | dataChannel (id : ℕ) (label : String)
  | closed

namespace Report

def callback (pc : ℕ) : Report → Callback
  | .track t => .track pc t
  | .localCandidate cand mid => .localCandidate pc cand mid
  | .localDescription type sdp => .localDescription pc type sdp
  | .dataChannel id label => .dataChannel pc id label
  | .closed => .peerClosed pc

/-- Tracks and data channels change nothing of what is kept for the stream. -/
def event (k : ℕ) : Report → Option RemoteEvent
  | .track _ | .dataChannel _ _ => none
  | .localCandidate cand mid => some (.localCandidate k cand mid)
  | .localDescription type sdp => some (.localDescription k type sdp)
  | .closed => some (.closed k)

end Report

/-- The connection that reports by a callback. -/
def Callback.reporter : Callback → Option ℕ
  | .track pc _ | .localCandidate pc _ _ | .localDescription pc _ _ | .dataChannel pc _ _
  | .peerClosed pc => some pc
  | _ => none

/-- A callback whose connection is named by its stream and by how many connections were made for
the stream before it. -/
inductive Incident where
  | report (streamId : String) (k : ℕ) (r : Report)
  | other (cb : Callback) (h : cb.reporter = none)

/-- The callback of an incident. -/
def Manager.realise (m : Manager) : Incident → Option Callback
  | .report streamId k r => ((m.positions streamId)[k]?).map r.callback
  | .other cb _ => some cb

def incidentStep : Step (Timed Incident) Manager Invocation := fun i m =>
  match m.realise i.what with
  | some cb => step ⟨cb, i.env⟩ m
  | none => (m, [])

/-- What a signal is to a stream. -/
def Signal.notice (streamId : String) : Signal → Option RemoteEvent
  | .onStartOfferer s => if s = streamId then some .start else none
  | .onRemoteSDP s type sdp => if s = streamId then some (.description type sdp) else none
  | .onRemoteCandidate s cand mid => if s = streamId then some (.candidate cand mid) else none
  | .onJoinedRoomNotification | .onPublishStartedNotification => none
  | .onPlayStartedNotification s => if s = streamId then some .playStarted else none
  | .onPlayFinishedNotification s => if s = streamId then some .playFinished else none
  | .onSubtrackAddedNotification s => if s = streamId then some .subtrackAdded else none
  | .onSubtrackRemovedNotification s => if s = streamId then some .subtrackRemoved else none

/-- What an incident is to a stream. -/
def Incident.concerns (streamId : String) : Incident → Option RemoteEvent
  | .report s k r => if s = streamId then r.event k else none
  | .other cb _ => cb.signal.bind (Signal.notice streamId)

/-- What a stream does with what may not concern it. -/
def Remote.react (streamId : String) (e : Env) (ev : Option RemoteEvent) (r : Remote) :
    Remote × List (Dealing × Bool) :=
  (ev.map fun ev => Remote.step streamId ⟨ev, e⟩ r).getD (r, [])

/-- What is seen of an outcome. -/
def observed {α : Type} (streamId : String) (o : Outcome Manager Invocation α) :
    Remote × List (Dealing × Bool) :=
  (o.state.remote streamId, o.calls.filterMap (o.state.seen streamId))

variable {m m' : Manager} {own room s t : String} {pc : ℕ} {e : Env}

/-! ### What is seen of calls -/

section Seen

theorem seen_log (h : m.streamOf pc = some t) (d : Deed × Bool) :
    m.seen s (Deed.log t pc d) = if t = s then some (.deed d.1, d.2) else none := by
  obtain ⟨d, ok⟩ := d
  cases d <;> simp [Deed.log, Deed.call, Manager.seen, h]

theorem seen_logs (h : m.streamOf pc = some t) (l : List (Deed × Bool)) :
    (l.map (Deed.log t pc)).filterMap (m.seen s) =
      if t = s then l.map fun d => (.deed d.1, d.2) else [] := by
  rw [List.filterMap_map]
  split_ifs with hts
  · rw [← List.filterMap_eq_map]
    exact List.filterMap_congr fun d _ => by simp only [Function.comp_apply, seen_log h, if_pos hts]
  · exact List.filterMap_eq_nil_iff.mpr fun d _ => by simp [seen_log h, hts]

/-- A play command of the client. -/
theorem seen_sent_play (hm : InSession own room m) {site : Site}
    {build : SignalingCommand → Command} (hbuild : ∀ c, c.roomId = room → build c = .play room t) :
    (m.sent e site build).filterMap (m'.seen s) =
      if t = s then [(.play, !e.throws site)] else [] := by
  obtain ⟨c, hc, -, hroom⟩ := hm.signaling
  by_cases hts : t = s <;> simp [Manager.sent, hc, hbuild c hroom, Manager.seen, hts]

theorem seen_closing (ch : Option Channel) : (closingCalls e ch).filterMap (m.seen s) = [] := by
  cases ch with
  | none => rfl
  | some ch => cases h : e.isOpen ch <;> simp [closingCalls, h, Manager.seen]

end Seen

/-! ### Signals -/

section Signals

theorem remote_ensured (hr : s ≠ m.roomId) (t : String) :
    (m.ensured t).remote s = if t = s then (m.remote s).connected s else m.remote s := by
  cases hp : m.pcs.lookup t with
  | some pc =>
    rw [Manager.ensured_of_some hp]
    split_ifs with hts
    · subst hts
      simp [Remote.connected, Manager.remote, hp]
    · rfl
  | none =>
    rw [Manager.ensured_of_none hp]
    split_ifs with hts
    · subst hts
      simp [Remote.connected, Manager.remote, hp, Manager.withPeer, Manager.madeFor, Peer.fresh, hr]
    · have hne : s ≠ t := fun h => hts h.symm
      simp [Manager.remote, Manager.withPeer, Manager.madeFor, Peer.fresh, hts, hne]

theorem streamOf_modify (pc' : ℕ) {f : Peer → Peer} (hf : ∀ p, (f p).streamId = p.streamId) :
    ((m.peers.modify pc' f)[pc]?).map Peer.streamId = m.streamOf pc := by
  rw [Manager.streamOf, List.getElem?_modify]
  cases m.peers[pc]? with
  | none => rfl
  | some p =>
    by_cases h : pc' = pc <;> simp [h, hf]

theorem streamOf_withoutPeer (t : String) : (m.withoutPeer t).streamOf pc = m.streamOf pc := by
  cases hp : m.pcs.lookup t with
  | none => simp [Manager.streamOf, Manager.withoutPeer, Manager.peersWithout, hp]
  | some pc' =>
    rw [Manager.streamOf, Manager.withoutPeer, Manager.peersWithout, hp]
    exact streamOf_modify pc' fun _ => rfl

theorem remote_withoutPeer (hl : m.Latest) (t : String) :
    (m.withoutPeer t).remote s = if t = s then (m.remote s).finished else m.remote s := by
  have hf (p : Peer) : p.close.streamId = p.streamId := rfl
  split_ifs with hts
  · subst hts
    cases hp : m.pcs.lookup t with
    | none => simp [Remote.finished, Manager.remote, Manager.withoutPeer, Manager.peersWithout, hp]
    | some pc =>
      have h := congrArg Remote.connections (connections_updatePeer (hl.position hp) hf)
      simp only [Manager.remote, Manager.updatePeer] at h
      simp [Remote.finished, Manager.remote, Manager.withoutPeer, Manager.peersWithout, hp, h]
  · have hne : s ≠ t := fun h => hts h.symm
    cases hp : m.pcs.lookup t with
    | none => simp [Manager.remote, Manager.withoutPeer, Manager.peersWithout, hp, hne]
    | some pc =>
      have hstream : m.streamOf pc ≠ some s := by
        rw [hl.streamOf hp]
        simpa using hts
      have h := congrArg Remote.connections (connections_updatePeer_of_ne hstream hf)
      simp only [Manager.remote, Manager.updatePeer] at h
      simp [Manager.remote, Manager.withoutPeer, Manager.peersWithout, hp, h, hne]

theorem startOffer_observed (hl : m.Latest) (t : String) : observed s (startOffer t e m) =
    Remote.react s e (Signal.notice s (.onStartOfferer t)) (m.remote s) := by
  cases hp : m.pcs.lookup t with
  | none =>
    rw [startOffer_of_none hp]
    by_cases hts : t = s
    · subst hts
      simp [observed, Remote.react, Signal.notice, Remote.step, Manager.remote, hp]
    · simp [observed, Remote.react, Signal.notice, hts]
  | some pc =>
    have hseen := seen_logs (s := s) (hl.streamOf hp)
      [(.setLocalDescription .offer, !e.throws .setLocalDescription)]
    rw [startOffer_of_some hp]
    have hcalls : ([(.setLocalDescription .offer, !e.throws .setLocalDescription)] :
        List (Deed × Bool)).map (Deed.log t pc) =
        [⟨.setLocalDescription pc .offer, !e.throws .setLocalDescription⟩] := rfl
    rw [observed, ← hcalls, hseen]
    by_cases hts : t = s
    · subst hts
      simp [Remote.react, Signal.notice, Remote.step, Manager.remote, hp]
    · simp [Remote.react, Signal.notice, hts]

theorem remote_flushed (t : String) : (m.flushed t).remote s =
    if t = s then { m.remote s with pending := none } else m.remote s := by
  split_ifs with hts
  · subst hts
    simp [Manager.remote, Manager.flushed]
  · have hne : s ≠ t := fun h => hts h.symm
    simp [Manager.remote, Manager.flushed, hne]

/-- What a description leaves of a stream. -/
theorem handleRemoteSDP_remote (hr : s ≠ m.roomId) (t type sdp : String)
    (hb : blocked e m t = false) : (handleRemoteSDP t type sdp e m).state.remote s =
      if t = s then
        { (m.remote s).connected s with
          pending := Remote.pendingAfter e type (m.remote s).pending }
      else m.remote s := by
  have hprepared : (m.prepared e t type).remote s = (m.ensured t).remote s := by
    unfold Manager.prepared
    split_ifs <;> rfl
  have happlies : (reaches e type && m.applies e t) = (reaches e type &&
      !e.throws .setRemoteDescription && takesAll e (m.pendingCandidates.lookup t)) := by
    rw [Manager.applies, accepted_eq, Bool.and_assoc]
  rw [(handleRemoteSDP_apply type sdp hb).2, happlies]
  by_cases hts : t = s
  · subst hts
    rw [if_pos rfl, apply_ite (fun x : Manager => x.remote t), remote_flushed, hprepared,
      remote_ensured hr t, if_pos rfl, if_pos rfl, Remote.pendingAfter]
    have hpending : ((m.remote t).connected t).pending = m.pendingCandidates.lookup t := by
      rw [Remote.connected]
      split_ifs <;> rfl
    change _ = { (m.remote t).connected t with
      pending := if (reaches e type && !e.throws .setRemoteDescription &&
        takesAll e (m.pendingCandidates.lookup t)) = true then none
        else m.pendingCandidates.lookup t }
    split_ifs
    · rfl
    · rw [← hpending]
  · rw [if_neg hts, apply_ite (fun x : Manager => x.remote s), remote_flushed, hprepared,
      remote_ensured hr t, if_neg hts, if_neg hts, ite_self]

theorem handleRemoteSDP_observed (hl : m.Latest) (hr : s ≠ m.roomId) (t type sdp : String) :
    observed s (handleRemoteSDP t type sdp e m) =
      Remote.react s e (Signal.notice s (.onRemoteSDP t type sdp)) (m.remote s) := by
  cases hb : blocked e m t with
  | true =>
    rw [handleRemoteSDP_of_blocked type sdp hb]
    by_cases hts : t = s
    · subst hts
      have hnone : m.pcs.lookup t = none := by
        cases hp : m.pcs.lookup t <;> simp_all [blocked]
      have ht : e.throws .createPeer = true := by simp_all [blocked]
      simp [observed, Remote.react, Signal.notice, Remote.step, Manager.seen, ht, Manager.remote,
        hnone]
    · simp [observed, Remote.react, Signal.notice, Manager.seen, hts]
  | false =>
    obtain ⟨-, hstate⟩ := handleRemoteSDP_apply type sdp hb
    have hcalls := handleRemoteSDP_deeds type sdp hb
    have hlatest : (m.ensured t).Latest := by
      cases hp : m.pcs.lookup t with
      | some pc => rwa [Manager.ensured_of_some hp]
      | none =>
        rw [Manager.ensured_of_none hp]
        exact hl.effect (.peer _ hp)
    have hpeers : (handleRemoteSDP t type sdp e m).state.peers = (m.ensured t).peers := by
      rw [hstate, Manager.prepared]
      split_ifs <;> rfl
    have hstream : (handleRemoteSDP t type sdp e m).state.streamOf (m.pcOf t) = some t := by
      rw [Manager.streamOf, hpeers]
      exact hlatest.streamOf (m.ensured_lookup t)
    rw [observed, handleRemoteSDP_remote hr t type sdp hb, hcalls, seen_logs hstream]
    by_cases hts : t = s
    · subst hts
      have hstored : (!(m.remote t).stored && e.throws .createPeer) = false := by
        cases hp : m.pcs.lookup t <;> simp_all [blocked, Manager.remote]
      simp only [if_true, Remote.react, Signal.notice, Option.map_some, Option.getD_some,
        Remote.step, hstored]
      rfl
    · simp [Remote.react, Signal.notice, hts]

theorem addRemoteCandidate_observed (hl : m.Latest) (t cand mid : String) :
    observed s (addRemoteCandidate t cand mid e m) =
      Remote.react s e (Signal.notice s (.onRemoteCandidate t cand mid)) (m.remote s) := by
  cases hc : cand.isEmpty with
  | true =>
    rw [addRemoteCandidate_of_empty hc]
    by_cases hts : t = s
    · simp [observed, Remote.react, Signal.notice, Remote.step, hts, String.isEmpty_iff.mp hc]
    · simp [observed, Remote.react, Signal.notice, hts]
  | false =>
    have hne : cand ≠ "" := by
      rintro rfl
      cases hc
    cases hp : m.pcs.lookup t with
    | none =>
      rw [addRemoteCandidate_of_none hc hp]
      by_cases hts : t = s
      · subst hts
        cases ht : e.throws .candidate <;>
          simp [observed, Remote.react, Signal.notice, Remote.step, hne, ht, Manager.remote, hp,
            Manager.buffer]
      · have hst : s ≠ t := fun h => hts h.symm
        cases ht : e.throws .candidate <;>
          simp [observed, Remote.react, Signal.notice, hts, Manager.remote, Manager.buffer, hst]
    | some pc =>
      have hseen := seen_logs (s := s) (hl.streamOf hp)
        [(.addRemoteCandidate ⟨cand, mid⟩, !e.throws (.addRemoteCandidate 0))]
      have hcalls : ([(.addRemoteCandidate ⟨cand, mid⟩, !e.throws (.addRemoteCandidate 0))] :
          List (Deed × Bool)).map (Deed.log t pc) =
          [⟨.addRemoteCandidate pc ⟨cand, mid⟩, !e.throws (.addRemoteCandidate 0)⟩] := rfl
      rw [addRemoteCandidate_of_some hc hp]
      by_cases hts : t = s
      · subst hts
        cases ht : e.throws .candidate with
        | true =>
          simp [observed, Remote.react, Signal.notice, Remote.step, ht, Manager.remote, hp]
        | false =>
          simp only [Bool.false_eq_true, if_false, observed]
          rw [← hcalls, hseen]
          simp [Remote.react, Signal.notice, Remote.step, hne, ht, Manager.remote, hp]
      · cases ht : e.throws .candidate with
        | true => simp [observed, Remote.react, Signal.notice, hts]
        | false =>
          simp only [Bool.false_eq_true, if_false, observed]
          rw [← hcalls, hseen]
          simp [Remote.react, Signal.notice, hts]

theorem onPlayFinishedNotification_observed (hm : InSession own room m) (hl : m.Latest)
    (hr : s ≠ room) (t : String) : observed s (onPlayFinishedNotification t e m) =
      Remote.react s e (Signal.notice s (.onPlayFinishedNotification t)) (m.remote s) := by
  cases hn : t.isEmpty with
  | true =>
    rw [onPlayFinishedNotification_of_empty hn]
    by_cases hts : t = s
    · subst hts
      simp [observed, Remote.react, Signal.notice, Remote.step, hn]
    · simp [observed, Remote.react, Signal.notice, hts]
  | false =>
    have hremoval : (removalCalls e m t).filterMap ((m.withoutPeer t).seen s) =
        if t = s then if (m.remote t).stored then [(.deed .close, true)] else [] else [] := by
      rw [removalCalls, List.filterMap_append, List.filterMap_append, seen_closing, seen_closing,
        List.nil_append, List.nil_append]
      cases hp : m.pcs.lookup t with
      | none => simp [Manager.remote, hp]
      | some pc =>
        have hstream : (m.withoutPeer t).streamOf pc = some t := by
          rw [streamOf_withoutPeer, hl.streamOf hp]
        have hseen := seen_logs (s := s) hstream [(.close, true)]
        have hstored : (m.remote t).stored = true := by simp [Manager.remote, hp]
        rw [hstored]
        exact hseen
    by_cases hroom : t = m.roomId
    · have hts : t ≠ s := by
        rintro rfl
        exact hr (hroom.trans hm.roomId)
      have hmark : ((m.withoutPeer t).markRoom).remote s = (m.withoutPeer t).remote s := by
        have hne : s ≠ (m.withoutPeer t).roomId := fun h => hts (hroom.trans h.symm)
        simp [Manager.remote, Manager.markRoom, hne]
      have hsent : (m.sent e .sendPlayRoom (·.sendPlayRoom)).filterMap
          ((m.withoutPeer t).markRoom.seen s) = [] := by
        rw [seen_sent_play hm fun c hc => by rw [SignalingCommand.sendPlayRoom, hc],
          if_neg hr.symm]
      have hseen : (removalCalls e m t).filterMap ((m.withoutPeer t).markRoom.seen s) = [] :=
        hremoval.trans (if_neg hts)
      rw [onPlayFinishedNotification_of_room hn hroom, observed, hmark, remote_withoutPeer hl,
        List.filterMap_append, hseen, hsent]
      simp [Remote.react, Signal.notice, hts]
    · rw [onPlayFinishedNotification_of_other hn hroom, observed, hremoval, remote_withoutPeer hl]
      by_cases hts : t = s
      · subst hts
        simp [Remote.react, Signal.notice, Remote.step, hn]
      · simp [Remote.react, Signal.notice, hts]

theorem onSubtrackAddedNotification_observed (hm : InSession own room m) (hl : m.Latest)
    (ho : s ≠ own) (t : String) : observed s (onSubtrackAddedNotification t e m) =
      Remote.react s e (Signal.notice s (.onSubtrackAddedNotification t)) (m.remote s) := by
  have hplays : t = s → m.plays t =
      !(t.isEmpty || (m.remote t).live || (m.remote t).playSent.getD false) := by
    rintro rfl
    have hown : (t != m.publishStreamId) = true := by simpa [hm.publishStreamId] using ho
    rw [Manager.plays, hown, hl.hasLivePeer t, Bool.and_true, Bool.not_or, Bool.not_or]
    rfl
  cases hp : m.plays t with
  | true =>
    obtain ⟨c, hc, -, hroom⟩ := hm.signaling
    rw [onSubtrackAddedNotification_of_plays hp, observed]
    by_cases hts : t = s
    · subst hts
      have hidle : (t.isEmpty || (m.remote t).live || (m.remote t).playSent.getD false) = false := by
        rw [← Bool.not_eq_true', ← hplays rfl, hp]
      simp only [Remote.react, Signal.notice, if_true, Option.map_some, Option.getD_some,
        Remote.step, hidle, Bool.false_eq_true, if_false]
      simp [Manager.sent, hc, Manager.seen, Manager.remote, Manager.markPlay,
        SignalingCommand.sendPlayStream]
    · have hst : s ≠ t := fun h => hts h.symm
      simp [Remote.react, Signal.notice, hts, Manager.sent, hc, Manager.seen, Manager.remote,
        Manager.markPlay, SignalingCommand.sendPlayStream, hst]
  | false =>
    rw [onSubtrackAddedNotification_of_not_plays hp]
    by_cases hts : t = s
    · subst hts
      have hbusy : (t.isEmpty || (m.remote t).live || (m.remote t).playSent.getD false) = true := by
        rw [← Bool.not_eq_false', ← hplays rfl, hp]
      simp only [observed, Remote.react, Signal.notice, if_true, Option.map_some, Option.getD_some,
        Remote.step, hbusy, List.filterMap_nil]
    · simp [observed, Remote.react, Signal.notice, hts]

/-- Every signal is to a stream what its notice says. -/
theorem onSignal_observed (hm : InSession own room m) (hl : m.Latest) (ho : s ≠ own)
    (hr : s ≠ room) (sig : Signal) :
    observed s (onSignal sig e m) = Remote.react s e (sig.notice s) (m.remote s) := by
  have hroom : s ≠ m.roomId := by rwa [hm.roomId]
  cases sig with
  | onStartOfferer t => exact startOffer_observed hl t
  | onRemoteSDP t type sdp => exact handleRemoteSDP_observed hl hroom t type sdp
  | onRemoteCandidate t cand mid => exact addRemoteCandidate_observed hl t cand mid
  | onJoinedRoomNotification =>
    obtain ⟨c, hc, -⟩ := hm.signaling
    rw [onSignal, onJoinedRoomNotification_apply]
    simp [observed, Remote.react, Signal.notice, Manager.sent, hc, Manager.seen,
      SignalingCommand.sendPublish]
  | onPublishStartedNotification =>
    cases hp : m.sendPlay.lookup m.roomId with
    | some b =>
      rw [onSignal, onPublishStartedNotification_of_some hp]
      rfl
    | none =>
      have hmark : m.markRoom.remote s = m.remote s := by
        simp [Manager.remote, Manager.markRoom, hroom]
      rw [onSignal, onPublishStartedNotification_of_none hp, observed, hmark,
        seen_sent_play hm fun c hc => by rw [SignalingCommand.sendPlayRoom, hc], if_neg hr.symm]
      rfl
  | onPlayStartedNotification t =>
    have hsame : (if t.isEmpty then m else { m with played := m.played.insert t true }).remote s =
        m.remote s := by split <;> rfl
    rw [onSignal, onPlayStartedNotification_apply, observed, hsame]
    by_cases hts : t = s <;> simp [Remote.react, Signal.notice, Remote.step, hts]
  | onPlayFinishedNotification t => exact onPlayFinishedNotification_observed hm hl hr t
  | onSubtrackAddedNotification t => exact onSubtrackAddedNotification_observed hm hl ho t
  | onSubtrackRemovedNotification t =>
    rw [onSignal, onSubtrackRemovedNotification_apply, observed]
    by_cases hts : t = s
    · subst hts
      cases hn : t.isEmpty <;>
        simp [Remote.react, Signal.notice, Remote.step, Manager.remote, hn]
    · have hst : s ≠ t := fun h => hts h.symm
      cases hn : t.isEmpty <;>
        simp [Remote.react, Signal.notice, hts, Manager.remote, hst]

end Signals

/-! ### Callbacks -/

section Callbacks

/-- Setting up another stream is not seen. -/
theorem setupPublishPeer_unseen (hts : t ≠ s) :
    (setupPublishPeer t e m).calls.filterMap ((setupPublishPeer t e m).state.seen s) = [] := by
  cases hp : m.pcs.lookup t with
  | some pc => simp [setupPublishPeer_of_some hp]
  | none =>
    cases ht : e.throws .createPeer with
    | true => simp [setupPublishPeer_of_throws hp ht, Manager.seen, hts]
    | false =>
      have hstream : (setupPublishPeer t e m).state.streamOf m.nextPc = some t := by
        rcases (setupPublishPeer_spec hp ht).1 with hs | ⟨-, hs⟩ <;> rw [hs] <;>
          simp [Manager.streamOf, Manager.withLocalChannel, Manager.withPublisher,
            Manager.withPeer, Manager.nextPc, Peer.fresh]
      obtain ⟨l, hl, hall⟩ := setupPublishPeer_furnishes hp ht
      rw [hl, List.filterMap_cons_none (by simp [Manager.seen, hts])]
      refine List.filterMap_eq_nil_iff.mpr fun c hc => ?_
      have hfurnishes := hall c hc
      obtain ⟨call, ok⟩ := c
      cases call with
      | addTrack pc mid type =>
        obtain rfl : pc = m.nextPc := hfurnishes
        simp [Manager.seen, hstream, hts]
      | createDataChannel pc u => rfl
      | _ => cases hfurnishes

theorem onOpen_unseen (hs : s ≠ m.publishStreamId) :
    (onOpen e m).calls.filterMap ((onOpen e m).state.seen s) = [] := by
  have hsetup := setupPublishPeer_unseen (m := m.setWsOpen true) (e := e) fun h => hs h.symm
  rw [onOpen_eq]
  rcases hq : setupPublishPeer m.publishStreamId e (m.setWsOpen true) with ⟨_ | _, m', calls⟩ <;>
    rw [hq] at hsetup
  · exact hsetup
  · rw [Outcome.andThen_some, send_apply, Outcome.after_calls, List.filterMap_append]
    have hjoin : (m'.sent e .sendJoinRoom (·.sendJoinRoom)).filterMap (m'.seen s) = [] := by
      cases hc : m'.signaling <;> simp [Manager.sent, hc, Manager.seen, SignalingCommand.sendJoinRoom]
    exact (congrArg₂ (· ++ ·) hsetup hjoin).trans (List.append_nil _)

theorem Change.remote {cb : Callback} (h : Change e m cb m') (hsig : cb.signal = none)
    (hrep : cb.reporter = none) (hs : s ≠ m.publishStreamId) : m'.remote s = m.remote s := by
  have hne : m.publishStreamId ≠ s := fun h => hs h.symm
  have hpublisher :
      ((m.setWsOpen true).withPublisher m.publishStreamId).remote s = m.remote s := by
    simp [Manager.remote, Manager.withPublisher, Manager.withPeer, Manager.madeFor, Peer.fresh,
      Manager.setWsOpen, hs, hne]
  cases h with
  | signal h => simp [Callback.signal, h] at hsig
  | context _ _ _ => rfl
  | publisher _ _ => exact hpublisher
  | publisherWithChannel _ _ _ => exact hpublisher
  | track _ => cases hrep
  | channel _ _ => cases hrep
  | talk _ => rfl
  | closed _ => cases hrep

/-- A callback that no connection reports. -/
theorem other_observed (hm : InSession own room m) (hl : m.Latest) (ho : s ≠ own) (hr : s ≠ room)
    {cb : Callback} (hcb : cb.reporter = none) : observed s (deliver cb e m) =
      Remote.react s e (cb.signal.bind (Signal.notice s)) (m.remote s) := by
  have hs : s ≠ m.publishStreamId := by rwa [hm.publishStreamId]
  cases hsig : cb.signal with
  | some sig =>
    have hstep : step ⟨cb, e⟩ m = _ := step_signal hm.connected hsig
    rw [Option.bind_some, ← onSignal_observed hm hl ho hr sig, observed, observed,
      show (deliver cb e m).state = _ from congrArg Prod.fst hstep,
      show (deliver cb e m).calls = _ from congrArg Prod.snd hstep]
  | none =>
    have hremote := (step_change ⟨cb, e⟩ hm.connected).remote hsig hcb hs
    have hcalls : (deliver cb e m).calls.filterMap ((deliver cb e m).state.seen s) = [] := by
      cases cb with
      | wsOpened =>
        rw [deliver_wsOpened hm.connected]
        exact onOpen_unseen hs
      | wsClosed => simp [deliver_wsClosed hm.connected, onClosed]
      | wsMessage text =>
        rw [deliver_wsMessage hm.connected, onMessage, Act.attempt_apply, processMessage,
          Act.bind_apply, Act.ofOption_apply]
        rcases hrec : receive text with _ | _ | sig
        · simp
        · simp
        · simp [Callback.signal, hrec] at hsig
      | trackData track data =>
        cases ht : m.trackHandlers.lookup track with
        | none => simp [deliver_trackData_of_none ht]
        | some handler =>
          rw [deliver_trackData_of_some ht, onTrackMessage_apply]
          split_ifs <;> simp [Manager.seen]
      | channelText ch text =>
        cases hh : m.channelHandlers.lookup ch with
        | none => simp [deliver_channelText_of_none hh]
        | some label => simp [deliver_channelText_of_some hh, handleDataChannelText_calls]
      | _ => cases hcb
    exact Prod.ext hremote hcalls

theorem captured_of_position {k : ℕ} (h : (m.positions t)[k]? = some pc) :
    m.captured pc = if (m.remote t).reports k then some t else none := by
  have hstream := streamOf_position h
  have hpeer := connections_of_position h
  rw [Manager.captured, Remote.reports, ← hpeer]
  cases hp : m.peers[pc]? with
  | none => simp [Manager.streamOf, hp] at hstream
  | some p =>
    have hid : p.streamId = t := by simpa [Manager.streamOf, hp] using hstream
    simp [hid]

/-- What a connection reports concerns its stream. -/
theorem report_observed (hm : InSession own room m) {k : ℕ} (h : (m.positions t)[k]? = some pc)
    (r : Report) : observed s (deliver (r.callback pc) e m) =
      Remote.react s e (if t = s then r.event k else none) (m.remote s) := by
  have hcaptured := captured_of_position h
  have hstream := streamOf_position h
  cases r with
  | track track =>
    cases hc : m.captured pc <;>
      simp [observed, Report.callback, Report.event, Remote.react, deliver, hc, addRemoteTrack,
        Manager.remote]
  | localCandidate cand mid =>
    obtain ⟨c, hc, -⟩ := hm.signaling
    cases hreports : (m.remote t).reports k with
    | false =>
      rw [hreports] at hcaptured
      by_cases hts : t = s
      · subst hts
        simp [observed, Report.callback, Report.event, Remote.react, deliver, hcaptured,
          Remote.step, hreports]
      · simp [observed, Report.callback, Remote.react, deliver, hcaptured, hts]
    | true =>
      rw [hreports] at hcaptured
      have hsame : (m.setSignaling { c with candLabel := c.nextLabel }).remote s =
          m.remote s := rfl
      by_cases hts : t = s
      · subst hts
        simp [observed, Report.callback, Report.event, Remote.react, deliver, hcaptured,
          Remote.step, hreports, onLocalCandidate_of_some hc, hsame, Manager.seen,
          SignalingCommand.sendTakeCandidate]
      · simp [observed, Report.callback, Remote.react, deliver, hcaptured, hts,
          onLocalCandidate_of_some hc, hsame, Manager.seen, SignalingCommand.sendTakeCandidate]
  | localDescription type sdp =>
    obtain ⟨c, hc, -⟩ := hm.signaling
    cases hreports : (m.remote t).reports k with
    | false =>
      rw [hreports] at hcaptured
      by_cases hts : t = s
      · subst hts
        simp [observed, Report.callback, Report.event, Remote.react, deliver, hcaptured,
          Remote.step, hreports]
      · simp [observed, Report.callback, Remote.react, deliver, hcaptured, hts]
    | true =>
      rw [hreports] at hcaptured
      by_cases hts : t = s
      · subst hts
        cases type <;>
          simp [observed, Report.callback, Report.event, Remote.react, deliver, hcaptured,
            Remote.step, hreports, onLocalDescription, send_apply, Manager.sent, hc, Manager.seen,
            SignalingCommand.sendTakeConfiguration]
      · cases type <;>
          simp [observed, Report.callback, Remote.react, deliver, hcaptured, hts,
            onLocalDescription, send_apply, Manager.sent, hc, Manager.seen,
            SignalingCommand.sendTakeConfiguration]
  | dataChannel id label =>
    cases ha : m.announces pc <;> cases hl : m.remoteDataChannels.lookup label <;>
      simp [observed, Report.callback, Report.event, Remote.react, deliver, ha, onDataChannel, hl,
        Manager.remote]
  | closed =>
    have hf (p : Peer) : ({ p with closed := true } : Peer).streamId = p.streamId := rfl
    by_cases hts : t = s
    · subst hts
      have hsame := connections_updatePeer h hf
      simp [observed, Report.callback, Report.event, Remote.react, deliver, Remote.step, hsame]
    · have hne : m.streamOf pc ≠ some s := by
        rw [hstream]
        simpa using hts
      have hsame := connections_updatePeer_of_ne hne hf
      simp [observed, Report.callback, Remote.react, deliver, hts, hsame]

end Callbacks

/-! ### Runs -/

section Runs

/-- An incident with its environment, as it reaches a stream. -/
def Timed.toStream (streamId : String) (i : Timed Incident) : Option (Timed RemoteEvent) :=
  (i.what.concerns streamId).map fun ev => ⟨ev, i.env⟩

/-- A report of a connection that was not made concerns nobody. -/
theorem react_unrealised {k : ℕ} (h : (m.positions t)[k]? = none) (r : Report) :
    Remote.react s e (if t = s then r.event k else none) (m.remote s) = (m.remote s, []) := by
  by_cases hts : t = s
  · subst hts
    have hlength : (m.remote t).connections.length ≤ k := by
      rw [List.getElem?_eq_none_iff, Manager.positions, List.length_findIdxs,
        List.countP_eq_length_filter] at h
      exact h
    have hnone : (m.remote t).connections[k]? = none := List.getElem?_eq_none hlength
    cases r <;> simp [Report.event, Remote.react, Remote.step, Remote.reports, hnone,
      List.modify_eq_self hlength]
  · simp [hts, Remote.react]

theorem incidentStep_observed (hm : InSession own room m) (hl : m.Latest) (ho : s ≠ own)
    (hr : s ≠ room) (i : Timed Incident) :
    ((incidentStep.viewed (·.seen s) i m).1.remote s, (incidentStep.viewed (·.seen s) i m).2) =
      Remote.react s i.env (i.what.concerns s) (m.remote s) := by
  obtain ⟨what, e⟩ := i
  cases what with
  | report t k r =>
    cases hp : (m.positions t)[k]? with
    | none =>
      rw [Incident.concerns, react_unrealised hp]
      simp [Step.viewed, incidentStep, Manager.realise, hp]
    | some pc =>
      rw [Incident.concerns, ← report_observed hm hp]
      simp only [Step.viewed, incidentStep, Manager.realise, hp, Option.map_some]
      rfl
  | other cb hcb =>
    rw [Incident.concerns, ← other_observed hm hl ho hr hcb]
    rfl

theorem Manager.Latest.after_step (hm : InSession own room m) (hl : m.Latest) (ev : Event) :
    (step ev m).1.Latest :=
  hl.effects (Effects.change (step_change ev hm.connected))

/-- In a session a remote stream is a component of the manager. -/
theorem stream_component (ho : s ≠ own) (hr : s ≠ room) :
    Step.Component (incidentStep.viewed (·.seen s)) (Remote.step s) (·.remote s)
      (Timed.toStream s) fun m => InSession own room m ∧ m.Latest where
  keeps i m hI := by
    simp only [Step.viewed, incidentStep]
    cases hc : m.realise i.what with
    | none => exact hI
    | some cb => exact ⟨hI.1.after_step _, hI.2.after_step hI.1 _⟩
  acts i m ev hI hi := by
    obtain ⟨ev', hev, rfl⟩ := Option.map_eq_some_iff.mp hi
    have hobserved := incidentStep_observed hI.1 hI.2 ho hr i
    rw [hev] at hobserved
    exact hobserved.symm
  ignores i m hI hi := by
    have hobserved := incidentStep_observed hI.1 hI.2 ho hr i
    rw [Option.map_eq_none_iff.mp hi] at hobserved
    exact Prod.mk.inj hobserved

/-- A connection that was not made reports nothing that is heard. -/
theorem step_of_unmade (hpc : m.peers[pc]? = none) {cb : Callback} (hcb : cb.reporter = some pc) :
    step ⟨cb, e⟩ m = (m, []) := by
  have hlength : m.peers.length ≤ pc := List.getElem?_eq_none_iff.mp hpc
  cases cb with
  | track | localCandidate | localDescription | dataChannel | peerClosed =>
    cases hcb
    simp [step, stepOf, deliver, Manager.captured, Manager.announces, hpc, Manager.updatePeer,
      List.modify_eq_self hlength]
  | _ => cases hcb

/-- Every callback is an incident. -/
theorem incident_of_callback (hm : m.connected) (cb : Callback) (e : Env) :
    ∃ inc, incidentStep ⟨inc, e⟩ m = step ⟨cb, e⟩ m := by
  cases hcb : cb.reporter with
  | none => exact ⟨.other cb hcb, rfl⟩
  | some pc =>
    cases hp : m.peers[pc]? with
    | none =>
      refine ⟨.other (.wsMessage none) rfl, ?_⟩
      rw [step_of_unmade hp hcb]
      simp [incidentStep, Manager.realise, step, stepOf, deliver_wsMessage hm, onMessage,
        processMessage, receive]
    | some p =>
      obtain ⟨hlt, rfl⟩ := List.getElem?_eq_some_iff.mp hp
      have hmem : pc ∈ m.positions m.peers[pc].streamId :=
        List.mem_findIdxs_iff_exists_getElem_pos.mpr ⟨hlt, by simp [Manager.madeFor]⟩
      obtain ⟨k, hk⟩ := List.mem_iff_getElem?.mp hmem
      have hreport (r : Report) (hr : r.callback pc = cb) :
          incidentStep ⟨.report m.peers[pc].streamId k r, e⟩ m = step ⟨cb, e⟩ m := by
        simp [incidentStep, Manager.realise, hk, hr]
      cases cb with
      | track _ t => cases hcb; exact ⟨_, hreport (.track t) rfl⟩
      | localCandidate _ cand mid => cases hcb; exact ⟨_, hreport (.localCandidate cand mid) rfl⟩
      | localDescription _ type sdp =>
        cases hcb
        exact ⟨_, hreport (.localDescription type sdp) rfl⟩
      | dataChannel _ id label => cases hcb; exact ⟨_, hreport (.dataChannel id label) rfl⟩
      | peerClosed => cases hcb; exact ⟨_, hreport .closed rfl⟩
      | _ => cases hcb

theorem incidents_of_callbacks (hm : InSession own room m) (evs : List Event) :
    ∃ l, incidentStep.run l m = step.run evs m := by
  induction evs generalizing m with
  | nil => exact ⟨[], rfl⟩
  | cons ev evs ih =>
    obtain ⟨inc, hinc⟩ := incident_of_callback hm.connected ev.what ev.env
    obtain ⟨l, hl⟩ := ih (hm.after_step ev)
    refine ⟨⟨inc, ev.env⟩ :: l, ?_⟩
    rw [Step.run_cons, Step.run_cons, hinc, hl]

theorem Opening.latest (o : Opening) : o.state.Latest := by
  have hbefore : o.before.Latest := by
    intro s pc hs
    simp [o.idle.pcs] at hs
  exact hbefore.effects (Effects.start o.isPlayer o.env o.before).1

/-- A session starts with nothing but the closed connections of earlier ones. -/
theorem Opening.remote_eq (o : Opening) (ho : s ≠ o.own) : o.state.remote s =
    ⟨o.before.peers.filter (Manager.madeFor s), false, none, none⟩ := by
  have hne : o.own ≠ s := fun h => ho h.symm
  rw [o.outcome_eq.1]
  simp [Manager.remote, Opening.begun, Opening.prepared, Manager.withLocalChannel,
    Manager.withPublisher, Manager.withPeer, Manager.madeFor, Peer.fresh, ho, hne, o.idle.pcs,
    o.idle.pendingCandidates, o.idle.sendPlay]

/-- What a session keeps for a remote stream and does about its connections and by signals in a run
is what the stream by itself makes of the incidents that concern it, when it starts with the
connections of earlier sessions. The incidents cover every run of callbacks. -/
theorem streams_refine (o : Opening) {s : String} (ho : s ≠ o.own) (hr : s ≠ o.room) :
    (∀ l : List (Timed Incident), (Remote.step s).run (l.filterMap (Timed.toStream s))
      ⟨o.before.peers.filter (Manager.madeFor s), false, none, none⟩ =
      ((incidentStep.run l o.state).1.remote s,
        ((incidentStep.viewed (·.seen s)).run l o.state).2)) ∧
    ∀ evs : List Event, ∃ l, incidentStep.run l o.state = step.run evs o.state := by
  refine ⟨fun l => ?_, fun evs => incidents_of_callbacks o.inSession evs⟩
  have hrun := (stream_component ho hr).run l ⟨o.inSession, o.latest⟩
  rwa [o.remote_eq ho, Step.viewed_run_fst] at hrun

/-- A stream of a session with one other stream. -/
theorem streams_refine_plain :
    (∀ l : List (Timed Incident), (Remote.step "you").run (l.filterMap (Timed.toStream "you"))
      ⟨[], false, none, none⟩ =
      ((incidentStep.run l Opening.plain.state).1.remote "you",
        ((incidentStep.viewed (·.seen "you")).run l Opening.plain.state).2)) ∧
    ∀ evs : List Event,
      ∃ l, incidentStep.run l Opening.plain.state = step.run evs Opening.plain.state :=
  streams_refine Opening.plain (by decide) (by decide)

/-- Two sessions, of any rooms and with any other streams in any order, do the same about the
connections of a stream and by signals about it when the same reaches it, if the same connections
were made for it before. -/
theorem streams_apart (o o' : Opening) {s : String} (ho : s ≠ o.own) (hr : s ≠ o.room)
    (ho' : s ≠ o'.own) (hr' : s ≠ o'.room)
    (hbefore : o.before.peers.filter (Manager.madeFor s) = o'.before.peers.filter (Manager.madeFor s))
    {l l' : List (Timed Incident)}
    (hl : l.filterMap (Timed.toStream s) = l'.filterMap (Timed.toStream s)) :
    (incidentStep.run l o.state).1.remote s = (incidentStep.run l' o'.state).1.remote s ∧
      ((incidentStep.viewed (·.seen s)).run l o.state).2 =
        ((incidentStep.viewed (·.seen s)).run l' o'.state).2 := by
  have hrun := (stream_component ho hr).run l ⟨o.inSession, o.latest⟩
  have hrun' := (stream_component ho' hr').run l' ⟨o'.inSession, o'.latest⟩
  rw [o.remote_eq ho, hl, hbefore, Step.viewed_run_fst] at hrun
  rw [o'.remote_eq ho', hrun, Step.viewed_run_fst] at hrun'
  exact Prod.mk.inj hrun'

/-- An offer of another stream in between makes no difference. -/
theorem streams_apart_between :
    let offer (t : String) : Timed Incident :=
      ⟨.other (.wsMessage (some (Signal.onRemoteSDP t "offer" "").text)) rfl, .calm⟩
    (incidentStep.run [offer "them", offer "you"] Opening.plain.state).1.remote "you" =
        (incidentStep.run [offer "you"] Opening.plain.state).1.remote "you" ∧
      ((incidentStep.viewed (·.seen "you")).run [offer "them", offer "you"]
          Opening.plain.state).2 =
        ((incidentStep.viewed (·.seen "you")).run [offer "you"] Opening.plain.state).2 :=
  streams_apart Opening.plain Opening.plain (by decide) (by decide) (by decide) (by decide) rfl
    (by simp [Timed.toStream, Incident.concerns, Callback.signal, receive_text, Signal.notice])

end Runs

end ConferenceCall

import ConferenceCall.Library.Holdings
import ConferenceCall.Manager.Course
import ConferenceCall.Session.Ownership

/-! The life of a connection, call by call: it is created, used and closed, over all inputs and
whatever throws. -/

namespace ConferenceCall

open Library Handling

/-- The connection of a channel that was made here. -/
def Channel.peer : Channel → Option ℕ
  | .local pc => some pc
  | .remote _ => none

/-- What a call does with a connection, or with its channel. A creation that throws takes none. -/
def Invocation.handling (c : Invocation) : Option (Handling ℕ) :=
  match c.call with
  | .createPeer pc _ => if c.returned then some (.take pc) else none
  | .addTrack pc _ _ | .createDataChannel pc _ | .setRemoteDescription pc _ _
  | .addRemoteCandidate pc _ | .setLocalDescription pc _ => some (.use pc)
  | .closePeer pc => some (.give pc)
  | .closeChannel ch | .sendText ch _ | .sendBinary ch _ => ch.peer.map .use
  | .send _ | .pushAudioFrame _ | .openSocket _ | .closeSocket => none

/-- What calls do with connections. -/
def connectionCalls (l : List Invocation) : List (Handling ℕ) := l.filterMap Invocation.handling

/-- The connections that were made and not closed. -/
def Manager.openPeers (m : Manager) : Multiset ℕ :=
  (Multiset.range m.nextPc).filter fun pc => (m.peers[pc]?).any fun p => !p.closeCalled

variable {e : Env} {m m' : Manager} {s t : String} {pc : ℕ}

section OpenPeers

theorem mem_openPeers : pc ∈ m.openPeers ↔ (m.peers[pc]?).any fun p => !p.closeCalled := by
  rw [Manager.openPeers, Multiset.mem_filter, Multiset.mem_range, and_iff_right_iff_imp]
  intro h
  cases hp : m.peers[pc]? with
  | none => simp [hp] at h
  | some p => exact (List.getElem?_eq_some_iff.mp hp).1

theorem nodup_openPeers (m : Manager) : m.openPeers.Nodup :=
  (Multiset.nodup_range _).filter _

/-- Only whether connections are closed matters. -/
theorem openPeers_congr (h : m'.peers.map Peer.closeCalled = m.peers.map Peer.closeCalled) :
    m'.openPeers = m.openPeers := by
  refine (nodup_openPeers m').ext (nodup_openPeers m) |>.mpr fun pc => ?_
  have hpc := congrArg (·[pc]?) h
  simp only [List.getElem?_map] at hpc
  rw [mem_openPeers, mem_openPeers]
  cases hp : m.peers[pc]? <;> cases hp' : m'.peers[pc]? <;> simp_all

theorem Manager.Linked.mem_openPeers (h : m.Linked) (hp : m.pcs.lookup t = some pc) :
    pc ∈ m.openPeers := by
  rw [ConferenceCall.mem_openPeers]
  obtain ⟨p, hpeer, hid⟩ := Option.map_eq_some_iff.mp (h.owned t pc hp)
  have hopen := (h.stored pc p hpeer).mpr (by rw [hid, hp])
  simp [hpeer, hopen]

theorem openPeers_withPeer (t : String) (needDC : Bool) :
    (m.withPeer t needDC).openPeers = m.nextPc ::ₘ m.openPeers := by
  have hnew : m.nextPc ∉ m.openPeers := by
    simp [Manager.openPeers]
  refine (nodup_openPeers _).ext (Multiset.nodup_cons.mpr ⟨hnew, nodup_openPeers m⟩) |>.mpr
    fun pc => ?_
  rw [mem_openPeers, Multiset.mem_cons, mem_openPeers, Manager.withPeer, Manager.nextPc]
  rcases lt_trichotomy pc m.peers.length with hlt | rfl | hgt
  · rw [List.getElem?_append_left hlt]
    simp [hlt.ne]
  · simp [Peer.fresh]
  · rw [List.getElem?_eq_none (by rw [List.length_append]; exact hgt),
      List.getElem?_eq_none hgt.le]
    simp [hgt.ne']

theorem openPeers_withoutPeer (hp : m.pcs.lookup t = some pc) :
    (m.withoutPeer t).openPeers = m.openPeers.erase pc := by
  refine (nodup_openPeers _).ext ((nodup_openPeers m).erase pc) |>.mpr fun pc' => ?_
  rw [mem_openPeers, (nodup_openPeers m).mem_erase_iff, mem_openPeers, Manager.withoutPeer,
    Manager.peersWithout, hp]
  simp only [List.getElem?_modify]
  cases m.peers[pc']? with
  | none => simp
  | some p => by_cases h : pc = pc' <;> simp [h, Peer.close, Ne.symm]

theorem openPeers_cleared (h : m.Linked) : m.cleared.openPeers = 0 := by
  refine Multiset.eq_zero_iff_forall_notMem.mpr fun pc hpc => ?_
  rw [mem_openPeers] at hpc
  cases hp : m.cleared.peers[pc]? with
  | none => simp [hp] at hpc
  | some p =>
    have hstored := (h.cleared.stored pc p hp).mp (by simpa [hp] using hpc)
    simp [Manager.cleared] at hstored

end OpenPeers

/-! ### What each computation does -/

/-- The calls are proper for the open connections and lead to those that are open then. -/
def Conducts {α : Type} (m : Manager) (o : Outcome Manager Invocation α) : Prop :=
  Turns (connectionCalls o.calls) m.openPeers o.state.openPeers

section Conducts

theorem connectionCalls_append (l l' : List Invocation) :
    connectionCalls (l ++ l') = connectionCalls l ++ connectionCalls l' := List.filterMap_append

theorem connectionCalls_eq_nil {l : List Invocation} (h : ∀ c ∈ l, c.handling = none) :
    connectionCalls l = [] := List.filterMap_eq_nil_iff.mpr h

/-- No call on a connection, and none opened or closed. -/
theorem conducts_of_none {α : Type} {o : Outcome Manager Invocation α}
    (hcalls : ∀ c ∈ o.calls, c.handling = none) (hpeers : o.state.peers = m.peers) :
    Conducts m o := by
  have hsame : o.state.openPeers = m.openPeers := openPeers_congr (by rw [hpeers])
  rw [Conducts, connectionCalls_eq_nil hcalls, hsame]
  exact turns_nil

/-- Only uses of an open connection. -/
theorem conducts_of_uses {α : Type} {o : Outcome Manager Invocation α} (hpc : pc ∈ m.openPeers)
    (hcalls : ∀ c ∈ o.calls, c.handling = none ∨ c.handling = some (.use pc))
    (hpeers : o.state.peers = m.peers) : Conducts m o := by
  have hsame : o.state.openPeers = m.openPeers := openPeers_congr (by rw [hpeers])
  rw [Conducts, hsame]
  refine turns_of_uses fun h hh => ?_
  obtain ⟨c, hc, hch⟩ := List.mem_filterMap.mp hh
  rcases hcalls c hc with hnone | huse
  · rw [hnone] at hch
    cases hch
  · rw [huse] at hch
    exact ⟨pc, hpc, (Option.some.inj hch).symm⟩

theorem sent_handling (m : Manager) (e : Env) (site : Site) (build : SignalingCommand → Command) :
    ∀ c ∈ m.sent e site build, c.handling = none := by
  intro c hc
  obtain ⟨_, -, rfl⟩ := List.mem_map.mp hc
  rfl

theorem startOffer_conducts (h : m.Linked) : Conducts m (startOffer t e m) := by
  cases hp : m.pcs.lookup t with
  | none =>
    rw [startOffer_of_none hp]
    exact conducts_of_none (by simp) rfl
  | some pc =>
    rw [startOffer_of_some hp]
    exact conducts_of_uses (h.mem_openPeers hp) (by simp [Invocation.handling]) rfl

theorem addRemoteCandidate_conducts (h : m.Linked) (cand mid : String) :
    Conducts m (addRemoteCandidate t cand mid e m) := by
  cases hc : cand.isEmpty with
  | true =>
    rw [addRemoteCandidate_of_empty hc]
    exact conducts_of_none (by simp) rfl
  | false =>
    cases hp : m.pcs.lookup t with
    | none =>
      rw [addRemoteCandidate_of_none hc hp]
      split_ifs <;> exact conducts_of_none (by simp) rfl
    | some pc =>
      rw [addRemoteCandidate_of_some hc hp]
      split_ifs
      · exact conducts_of_none (by simp) rfl
      all_goals exact conducts_of_uses (h.mem_openPeers hp) (by simp [Invocation.handling]) rfl

/-- What is done for a description uses its connection. -/
theorem descriptionDeeds_uses (e : Env) (type sdp : String) (pending : Option (List Candidate))
    (pc : ℕ) : ∀ d ∈ descriptionDeeds e type sdp pending,
      (Deed.log t pc d).handling = some (.use pc) := by
  rintro ⟨d, b⟩ hd
  have hdescribed : d.described := descriptionDeeds_described type sdp pending (d, b) hd
  cases d <;> first | exact hdescribed.elim | rfl

/-- A connection is taken if there is none, and used. -/
theorem handleRemoteSDP_conducts (h : m.Linked) (type sdp : String) :
    Conducts m (handleRemoteSDP t type sdp e m) := by
  cases hb : blocked e m t with
  | true =>
    rw [handleRemoteSDP_of_blocked type sdp hb]
    exact conducts_of_none (by simp [Invocation.handling]) rfl
  | false =>
    have hpeers : (handleRemoteSDP t type sdp e m).state.peers = (m.ensured t).peers := by
      rw [(handleRemoteSDP_apply type sdp hb).2, Manager.prepared]
      split_ifs <;> rfl
    have hopen : (handleRemoteSDP t type sdp e m).state.openPeers = (m.ensured t).openPeers :=
      openPeers_congr (by rw [hpeers])
    have huses (A : Multiset ℕ) (hpc : m.pcOf t ∈ A) :
        Turns (connectionCalls ((descriptionDeeds e type sdp (m.pendingCandidates.lookup t)).map
          (Deed.log t (m.pcOf t)))) A A := by
      refine turns_of_uses fun i hi => ⟨m.pcOf t, hpc, ?_⟩
      obtain ⟨c, hc, hch⟩ := List.mem_filterMap.mp hi
      obtain ⟨d, hd, rfl⟩ := List.mem_map.mp hc
      rw [descriptionDeeds_uses e type sdp _ _ d hd] at hch
      exact (Option.some.inj hch).symm
    rw [Conducts, hopen, handleRemoteSDP_deeds type sdp hb, List.map_append,
      connectionCalls_append]
    cases hp : m.pcs.lookup t with
    | some pc =>
      have hpc : m.pcOf t = pc := by simp [Manager.pcOf, hp]
      rw [Manager.ensured_of_some hp]
      exact huses _ (hpc ▸ h.mem_openPeers hp)
    | none =>
      have hpc : m.pcOf t = m.nextPc := by simp [Manager.pcOf, hp]
      rw [Manager.ensured_of_none hp, openPeers_withPeer]
      exact turns_take.mpr (hpc ▸ huses _ (by simp [hpc]))

/-- The channels announced by the other side are not made here. -/
def Manager.Announced (m : Manager) : Prop :=
  ∀ t ch, m.remoteDataChannels.lookup t = some ch → ch.peer = none

theorem Manager.Announced.effect (h : m.Announced) (heffect : Effect m m') : m'.Announced := by
  intro t ch hch
  cases heffect with
  | announced id label =>
    rw [Dict.lookup_insert_eq] at hch
    split_ifs at hch
    · cases hch
      rfl
    · exact h t ch hch
  | removed s =>
    simp only [Manager.withoutPeer, Dict.lookup_erase_eq] at hch
    split_ifs at hch
    exact h t ch hch
  | cleared => simp [Manager.cleared] at hch
  | _ => exact h t ch hch

/-- A channel made here is closed with its connection. -/
theorem localClosing_handling (h : m.Linked) :
    ∀ c ∈ closingCalls e (m.localDataChannels.lookup t),
      c.handling = (m.pcs.lookup t).map .use := by
  cases hl : m.localDataChannels.lookup t with
  | none => simp [closingCalls]
  | some ch =>
    obtain ⟨pc, hp, rfl⟩ := h.channel t ch hl
    rw [hp, closingCalls]
    split_ifs <;> simp [Invocation.handling, Channel.peer]

theorem remoteClosing_handling (h : m.Announced) :
    ∀ c ∈ closingCalls e (m.remoteDataChannels.lookup t), c.handling = none := by
  cases hr : m.remoteDataChannels.lookup t with
  | none => simp [closingCalls]
  | some ch =>
    rw [closingCalls]
    split_ifs <;> simp [Invocation.handling, h t ch hr]

/-- A stream that is removed has its connection closed. -/
theorem removal_turns (h : m.Linked) (ha : m.Announced) :
    Turns (connectionCalls (removalCalls e m t)) m.openPeers (m.withoutPeer t).openPeers := by
  have hremote := connectionCalls_eq_nil (remoteClosing_handling (e := e) (t := t) ha)
  rw [removalCalls, connectionCalls_append, connectionCalls_append, hremote, List.nil_append]
  cases hp : m.pcs.lookup t with
  | none =>
    have hlocal := connectionCalls_eq_nil (l := closingCalls e (m.localDataChannels.lookup t))
      fun c hc => by rw [localClosing_handling h c hc, hp]; rfl
    have hsame : (m.withoutPeer t).openPeers = m.openPeers :=
      openPeers_congr (by simp [Manager.withoutPeer, Manager.peersWithout, hp])
    rw [hlocal, hsame]
    exact turns_nil
  | some pc =>
    have hopen := h.mem_openPeers hp
    have huses : Turns (connectionCalls (closingCalls e (m.localDataChannels.lookup t)))
        m.openPeers m.openPeers := by
      refine turns_of_uses fun i hi => ⟨pc, hopen, ?_⟩
      obtain ⟨c, hc, hch⟩ := List.mem_filterMap.mp hi
      rw [localClosing_handling h c hc, hp] at hch
      exact (Option.some.inj hch).symm
    rw [openPeers_withoutPeer hp]
    exact huses.append ((turns_give hopen).mpr turns_nil)

theorem onPlayFinishedNotification_conducts (h : m.Linked) (ha : m.Announced) :
    Conducts m (onPlayFinishedNotification t e m) := by
  cases ht : t.isEmpty with
  | true =>
    rw [onPlayFinishedNotification_of_empty ht]
    exact conducts_of_none (by simp) rfl
  | false =>
    by_cases hr : t = m.roomId
    · have hsent := connectionCalls_eq_nil (sent_handling m e .sendPlayRoom (·.sendPlayRoom))
      rw [onPlayFinishedNotification_of_room ht hr, Conducts, connectionCalls_append, hsent,
        List.append_nil]
      exact removal_turns h ha
    · rw [onPlayFinishedNotification_of_other ht hr]
      exact removal_turns h ha

theorem onSignal_conducts (h : m.Linked) (ha : m.Announced) (sig : Signal) :
    Conducts m (onSignal sig e m) := by
  cases sig with
  | onStartOfferer t => exact startOffer_conducts h
  | onRemoteSDP t type sdp => exact handleRemoteSDP_conducts h type sdp
  | onRemoteCandidate t cand mid => exact addRemoteCandidate_conducts h cand mid
  | onJoinedRoomNotification =>
    rw [onSignal, onJoinedRoomNotification_apply]
    exact conducts_of_none (sent_handling m e _ _) rfl
  | onPublishStartedNotification =>
    cases hs : m.sendPlay.lookup m.roomId with
    | none =>
      rw [onSignal, onPublishStartedNotification_of_none hs]
      exact conducts_of_none (sent_handling m e _ _) rfl
    | some b =>
      rw [onSignal, onPublishStartedNotification_of_some hs]
      exact conducts_of_none (by simp) rfl
  | onPlayStartedNotification t =>
    rw [onSignal, onPlayStartedNotification_apply]
    exact conducts_of_none (by simp) (by dsimp only; split_ifs <;> rfl)
  | onPlayFinishedNotification t => exact onPlayFinishedNotification_conducts h ha
  | onSubtrackAddedNotification t =>
    cases hp : m.plays t with
    | true =>
      rw [onSignal, onSubtrackAddedNotification_of_plays hp]
      exact conducts_of_none (sent_handling m e _ _) rfl
    | false =>
      rw [onSignal, onSubtrackAddedNotification_of_not_plays hp]
      exact conducts_of_none (by simp) rfl
  | onSubtrackRemovedNotification t =>
    rw [onSignal, onSubtrackRemovedNotification_apply]
    exact conducts_of_none (by simp) (by dsimp only; split_ifs <;> rfl)

theorem handling_of_furnishes {c : Invocation} (h : c.call.furnishes pc) :
    c.handling = some (.use pc) := by
  obtain ⟨call, returned⟩ := c
  cases call <;> simp_all [Call.furnishes, Invocation.handling]

/-- A publish peer is made and equipped, or there is one. -/
theorem setupPublishPeer_conducts : Conducts m (setupPublishPeer t e m) := by
  cases hp : m.pcs.lookup t with
  | some pc =>
    rw [setupPublishPeer_of_some hp]
    exact conducts_of_none (by simp) rfl
  | none =>
    cases ht : e.throws .createPeer with
    | true =>
      rw [setupPublishPeer_of_throws hp ht]
      exact conducts_of_none (by simp [Invocation.handling]) rfl
    | false =>
      have hpeers : (setupPublishPeer t e m).state.peers = (m.withPeer t true).peers := by
        rcases (setupPublishPeer_spec hp ht).1 with hs | ⟨-, hs⟩ <;> rw [hs] <;> rfl
      have hopen : (setupPublishPeer t e m).state.openPeers = m.nextPc ::ₘ m.openPeers := by
        rw [← openPeers_withPeer t true]
        exact openPeers_congr (by rw [hpeers])
      obtain ⟨l, hl, hfurnishes⟩ := setupPublishPeer_furnishes hp ht
      rw [Conducts, hopen, hl]
      refine turns_take.mpr (turns_of_uses fun i hi => ⟨m.nextPc, Multiset.mem_cons_self _ _, ?_⟩)
      obtain ⟨c, hc, hch⟩ := List.mem_filterMap.mp hi
      rw [handling_of_furnishes (hfurnishes c hc)] at hch
      exact (Option.some.inj hch).symm

theorem onOpen_conducts : Conducts m (onOpen e m) := by
  have hsetup : Conducts (m.setWsOpen true) (setupPublishPeer m.publishStreamId e (m.setWsOpen true)) :=
    setupPublishPeer_conducts
  rw [onOpen_eq]
  rcases hs : setupPublishPeer m.publishStreamId e (m.setWsOpen true) with ⟨_ | _, t, o⟩ <;>
    rw [hs] at hsetup
  · exact hsetup
  · have hsent := connectionCalls_eq_nil (sent_handling t e .sendJoinRoom (·.sendJoinRoom))
    simp only [Outcome.andThen_some, send_apply, Conducts, Outcome.after_calls,
      Outcome.after_state, connectionCalls_append, hsent, List.append_nil]
    exact hsetup

/-- No callback uses a connection that is not open. -/
theorem deliver_conducts (h : m.Linked) (ha : m.Announced) (cb : Callback) :
    Conducts m (deliver cb e m) := by
  cases cb with
  | wsOpened =>
    cases hc : m.connected with
    | true =>
      rw [deliver_wsOpened hc]
      exact onOpen_conducts
    | false => exact conducts_of_none (by simp [deliver, hc]) (by simp [deliver, hc])
  | wsClosed =>
    cases hc : m.connected <;>
      exact conducts_of_none (by simp [deliver, hc, onClosed])
        (by simp [deliver, hc, onClosed, Manager.setWsOpen])
  | wsMessage text =>
    cases hc : m.connected with
    | true =>
      have hs := onSignal_conducts (e := e) h ha
      rw [deliver_wsMessage hc, onMessage, Act.attempt_apply, processMessage, Act.bind_apply,
        Act.ofOption_apply]
      rcases receive text with _ | _ | sig
      · exact conducts_of_none (by simp) rfl
      · exact conducts_of_none (by simp) rfl
      · exact hs sig
    | false => exact conducts_of_none (by simp [deliver, hc]) (by simp [deliver, hc])
  | track pc track =>
    cases hc : m.captured pc <;> exact conducts_of_none (by simp [deliver, hc, addRemoteTrack])
      (by simp [deliver, hc, addRemoteTrack])
  | trackData track data =>
    cases ht : m.trackHandlers.lookup track with
    | none =>
      rw [deliver_trackData_of_none ht]
      exact conducts_of_none (by simp) rfl
    | some handler =>
      rw [deliver_trackData_of_some ht, onTrackMessage_apply]
      exact conducts_of_none (by dsimp only; split_ifs <;> simp [Invocation.handling]) rfl
  | localCandidate pc cand mid =>
    cases hc : m.captured pc with
    | none => exact conducts_of_none (by simp [deliver, hc]) (by simp [deliver, hc])
    | some streamId =>
      simp only [deliver, Act.gets_bind, hc]
      cases hs : m.signaling with
      | none =>
        exact conducts_of_none (by simp [onLocalCandidate, hs]) (by simp [onLocalCandidate, hs])
      | some c =>
        rw [onLocalCandidate_of_some hs]
        exact conducts_of_none (by simp [Invocation.handling]) rfl
  | localDescription pc type sdp =>
    cases hc : m.captured pc with
    | none => exact conducts_of_none (by simp [deliver, hc]) (by simp [deliver, hc])
    | some streamId =>
      simp only [deliver, Act.gets_bind, hc, onLocalDescription, send_apply]
      exact conducts_of_none (sent_handling m e _ _) rfl
  | dataChannel pc id label =>
    cases hann : m.announces pc <;> cases hl : m.remoteDataChannels.lookup label <;>
      exact conducts_of_none (by simp [deliver, hann, onDataChannel, hl])
        (by simp [deliver, hann, onDataChannel, hl])
  | channelText ch text =>
    cases hh : m.channelHandlers.lookup ch with
    | none =>
      rw [deliver_channelText_of_none hh]
      exact conducts_of_none (by simp) rfl
    | some label =>
      rw [deliver_channelText_of_some hh]
      refine conducts_of_none (by simp [handleDataChannelText_calls]) ?_
      have hsome : (m.channelHandlers.lookup ch).isSome := by rw [hh, Option.isSome_some]
      have hchange := handleDataChannelText_change (e := e) text hsome
      generalize (handleDataChannelText text e m).state = m' at hchange
      cases hchange <;> rfl
  | peerClosed pc =>
    have hsame : (m.updatePeer pc fun p => { p with closed := true }).openPeers = m.openPeers := by
      refine openPeers_congr (List.ext_getElem? fun i => ?_)
      simp only [Manager.updatePeer, List.getElem?_map, List.getElem?_modify]
      cases m.peers[i]? with
      | none => rfl
      | some p => by_cases hi : pc = i <;> simp [hi]
    rw [Conducts]
    change Turns [] m.openPeers (m.updatePeer pc fun p => { p with closed := true }).openPeers
    rw [hsame]
    exact turns_nil

/-- A message goes to an open connection, through the channel made for it. -/
theorem onChannel_handling (h : m.Linked) {ch : Channel}
    (hl : m.localDataChannels.lookup t = some ch) :
    ∃ pc ∈ m.openPeers, ch.peer = some pc := by
  obtain ⟨pc, hp, rfl⟩ := h.channel t ch hl
  exact ⟨pc, h.mem_openPeers hp, rfl⟩

theorem sendBinaryMessage_conducts (h : m.Linked) (data : List UInt8) :
    Conducts m (sendBinaryMessage data t e m) := by
  cases hl : m.localDataChannels.lookup t with
  | none =>
    exact conducts_of_none (by simp [sendBinaryMessage, hl]) (by simp [sendBinaryMessage, hl])
  | some ch =>
    obtain ⟨pc, hpc, hpeer⟩ := onChannel_handling h hl
    refine conducts_of_uses hpc ?_ ?_ <;>
      cases ho : e.isOpen ch <;>
      simp [sendBinaryMessage, hl, ho, call_apply, Invocation.handling, hpeer]

theorem sendChat_conducts (h : m.Linked) (text date : String) :
    Conducts m (sendChat text t date e m) := by
  cases hd : e.throws .chatDump with
  | true =>
    exact conducts_of_none (by simp [sendChat, check_apply, hd])
      (by simp [sendChat, check_apply, hd])
  | false =>
    cases hl : m.localDataChannels.lookup t with
    | none =>
      exact conducts_of_none (by simp [sendChat, check_apply, hd, hl])
        (by simp [sendChat, check_apply, hd, hl])
    | some ch =>
      obtain ⟨pc, hpc, hpeer⟩ := onChannel_handling h hl
      refine conducts_of_uses hpc ?_ ?_ <;>
        cases ho : e.isOpen ch <;>
        simp [sendChat, check_apply, hd, hl, ho, call_apply, Invocation.handling, hpeer]

theorem sendChatMessage_conducts (h : m.Linked) (text date : String) :
    Conducts m (sendChatMessage text date e m) := by
  cases hc : m.isCommunicating && m.wsOpen with
  | false =>
    exact conducts_of_none (by simp [sendChatMessage, hc]) (by simp [sendChatMessage, hc])
  | true =>
    simp only [sendChatMessage, Act.gets_bind, hc, if_true]
    exact sendChat_conducts h text date

end Conducts

/-! ### Sessions -/

/-- A connection that was closed. -/
def Manager.Shut (m : Manager) (pc : ℕ) : Prop :=
  ∃ p, m.peers[pc]? = some p ∧ p.closeCalled = true

/-- The calls are proper for the open connections. What is open after them, and what the end of a
session closed meanwhile, is what they leave open. -/
def Managed (m m' : Manager) (calls : List Invocation) : Prop :=
  ∃ swept : Multiset ℕ, Turns (connectionCalls calls) m.openPeers (m'.openPeers + swept) ∧
    swept.Nodup ∧ ∀ pc ∈ swept, m'.Shut pc ∧ ¬ m.Shut pc

section Managed

variable {m'' : Manager} {l l' : List Invocation}

theorem not_shut_of_open (h : pc ∈ m.openPeers) : ¬ m.Shut pc := by
  rintro ⟨p, hp, hshut⟩
  rw [mem_openPeers, hp] at h
  simp [hshut] at h

theorem Conducts.managed {α : Type} {o : Outcome Manager Invocation α} (h : Conducts m o) :
    Managed m o.state o.calls :=
  ⟨0, by rwa [add_zero], Multiset.nodup_zero, by simp⟩

/-- What was closed stays closed. -/
theorem Manager.Shut.effect (h : m.Shut pc) (heffect : Effect m m') : m'.Shut pc := by
  obtain ⟨p, hp, hshut⟩ := h
  have hmodify (pc' : ℕ) {f : Peer → Peer} (hf : (f p).closeCalled = true) :
      ∃ q, (m.peers.modify pc' f)[pc]? = some q ∧ q.closeCalled = true := by
    rw [List.getElem?_modify, hp]
    refine ⟨_, rfl, ?_⟩
    split_ifs
    · exact hf
    · exact hshut
  cases heffect with
  | peer needDC _ =>
    refine ⟨p, ?_, hshut⟩
    rw [Manager.withPeer, List.getElem?_append_left (List.getElem?_eq_some_iff.mp hp).1, hp]
  | removed streamId =>
    rw [Manager.Shut, Manager.withoutPeer, Manager.peersWithout]
    cases m.pcs.lookup streamId with
    | none => exact ⟨p, hp, hshut⟩
    | some pc' => exact hmodify pc' rfl
  | closed pc' => exact hmodify pc' hshut
  | cleared =>
    simp only [Manager.Shut, Manager.cleared, Manager.closeAll, List.getElem?_mapIdx, hp,
      Option.map_some]
    refine ⟨_, rfl, ?_⟩
    split_ifs
    · rfl
    · exact hshut
  | _ => exact ⟨p, hp, hshut⟩

theorem Manager.Shut.effects (h : m.Shut pc) (heffects : Effects m m') : m'.Shut pc :=
  heffects.invariant (fun _ _ he hs => Manager.Shut.effect hs he) h

theorem Managed.trans (h : Managed m m' l) (h' : Managed m' m'' l') (hfirst : Effects m m')
    (hlast : Effects m' m'') : Managed m m'' (l ++ l') := by
  obtain ⟨swept, hl, hnodup, hswept⟩ := h
  obtain ⟨swept', hl', hnodup', hswept'⟩ := h'
  refine ⟨swept' + swept, ?_, ?_, fun pc hpc => ?_⟩
  · rw [connectionCalls_append, ← add_assoc]
    exact hl.continue hl'
  · refine Multiset.nodup_add.mpr ⟨hnodup', hnodup, Multiset.disjoint_left.mpr fun hpc hpc' => ?_⟩
    exact (hswept' _ hpc).2 (hswept _ hpc').1
  · rcases Multiset.mem_add.mp hpc with hpc | hpc
    · obtain ⟨hshut, hnot⟩ := hswept' pc hpc
      exact ⟨hshut, fun hm => hnot (hm.effects hfirst)⟩
    · obtain ⟨hshut, hnot⟩ := hswept pc hpc
      exact ⟨hshut.effects hlast, hnot⟩

/-- The end of a session closes what is open. -/
theorem cleared_managed (h : m.Linked) (hcalls : ∀ c ∈ l, c.handling = none)
    (hpeers : m'.peers = m.cleared.peers) : Managed m m' l := by
  have hnone : m'.openPeers = 0 := by
    rw [← openPeers_cleared h]
    exact openPeers_congr (by rw [hpeers])
  refine ⟨m.openPeers, ?_, nodup_openPeers m, fun pc hpc => ⟨?_, not_shut_of_open hpc⟩⟩
  · rw [connectionCalls_eq_nil hcalls, hnone, zero_add]
    exact turns_nil
  · rw [mem_openPeers] at hpc
    rw [Manager.Shut, hpeers]
    cases hp : m.peers[pc]? with
    | none => simp [hp] at hpc
    | some p =>
      have hstored := (h.stored pc p hp).mp (by simpa [hp] using hpc)
      have hmem : pc ∈ m.pcs.values := Dict.mem_values.mpr ⟨_, hstored⟩
      simp [Manager.cleared, Manager.closeAll, List.getElem?_mapIdx, hp, hmem, Peer.close]

theorem sendLeave_handling : ∀ c ∈ (sendLeave e m).calls, c.handling = none := by
  have hsend (site : Site) (build : SignalingCommand → Command) :
      Act.Within Eq (fun c => c.handling = none) (send site build) := fun e m => by
    rw [send_apply]
    exact ⟨rfl, sent_handling m e site build⟩
  have hT (m₁ m₂ m₃ : Manager) (h : m₁ = m₂) (h' : m₂ = m₃) : m₁ = m₃ := h.trans h'
  have hstop : Act.Within Eq (fun c => c.handling = none) sendStopAndLeave :=
    .bind hT (hsend _ _) fun _ => .bind hT (hsend _ _) fun _ => hsend _ _
  cases h : m.leaves with
  | false => simp [sendLeave_of_not_leaves h]
  | true =>
    intro c hc
    simp only [sendLeave, Act.bind_apply, Act.gets_apply, h, Outcome.andThen_some, if_true,
      Act.attempt_apply, Outcome.after_nil] at hc
    exact (hstop e m).2 c hc

theorem ending_handling : ∀ c ∈ (sendLeave e m).calls ++
    (if m.wsOpen then [⟨.closeSocket, true⟩] else []), c.handling = none := by
  intro c hc
  rcases List.mem_append.mp hc with hc | hc
  · exact sendLeave_handling c hc
  · split_ifs at hc
    · rw [List.mem_singleton.mp hc]
      rfl
    · cases hc

theorem stop2WayCommunication_managed (h : m.Linked) :
    Managed m (stop2WayCommunication e m).state (stop2WayCommunication e m).calls := by
  cases hc : m.isCommunicating with
  | false =>
    exact (conducts_of_none (by simp [stop2WayCommunication, hc])
      (by simp [stop2WayCommunication, hc])).managed
  | true =>
    rw [stop2WayCommunication_apply hc]
    exact cleared_managed h ending_handling rfl

theorem abandon_apply (e : Env) (m : Manager) : abandon e m =
    ⟨some false, { m.cleared with isCommunicating := false },
      (sendLeave e m).calls ++ if m.wsOpen then [⟨.closeSocket, true⟩] else []⟩ := by
  simp [abandon, cleanupResources_apply, Outcome.after]

/-- The socket is opened, or the session ends. -/
theorem connecting_managed (h : m.Linked) (url streamId : String) :
    let o := (do if ← connect url streamId then return true else abandon : Act Bool) e m
    Managed m o.state o.calls ∧ Effects m o.state := by
  have hfields (m : Manager) (url room streamId : String) (p c g : Bool)
      (ctx : Option SignalingContext) :=
    Relation.ReflTransGen.single (Effect.fields (m := m) url room streamId p c g ctx)
  intro o
  rcases Act.bind_cases (connect url streamId)
    (fun opened => if opened then pure true else abandon) e m with ⟨hv, -⟩ | ⟨opened, -, hb⟩
  · cases hv
  rw [show o = _ from hb]
  cases opened with
  | true =>
    exact ⟨(conducts_of_none (by simp [Opening.connect_apply, Invocation.handling]) rfl).managed,
      hfields m _ _ _ _ _ _ _⟩
  | false =>
    simp only [Bool.false_eq_true, if_false, abandon_apply]
    refine ⟨cleared_managed h (fun c hc => ?_) rfl, ?_⟩
    · rcases List.mem_append.mp hc with hc | hc
      · rw [Opening.connect_apply, List.mem_singleton] at hc
        rw [hc]
        rfl
      · exact ending_handling c hc
    · exact (hfields m _ _ _ _ _ _ _).trans ((Relation.ReflTransGen.single .cleared).trans
        (hfields _ _ _ _ _ _ _ _))

/-- A start equips the own connection; when the socket does not open, it is closed again. -/
theorem start2WayCommunication_managed (h : m.Linked) (isPlayer : Bool) :
    Managed m (start2WayCommunication isPlayer e m).state
      (start2WayCommunication isPlayer e m).calls := by
  cases hc : m.isCommunicating with
  | true =>
    rw [start2WayCommunication_of_running isPlayer e hc]
    exact (conducts_of_none (by simp) rfl).managed
  | false =>
    rw [start2WayCommunication_apply isPlayer e hc]
    split_ifs
    · exact (conducts_of_none (by simp) rfl).managed
    · change Managed (m.starting isPlayer) _ _
      have heffects := Effects.setup m.publishStreamId e (m.starting isPlayer)
      have hsetup : Managed (m.starting isPlayer) _ _ :=
        (setupPublishPeer_conducts (t := m.publishStreamId) (e := e)).managed
      rcases Act.bind_cases (setupPublishPeer m.publishStreamId) (fun _ => do
        if ← connect m.signalingServerUrl m.publishStreamId then return true else abandon) e
        (m.starting isPlayer) with ⟨-, hb⟩ | ⟨_, -, hb⟩ <;> rw [hb]
      · exact hsetup
      · have hlinked : (setupPublishPeer m.publishStreamId e (m.starting isPlayer)).state.Linked :=
          heffects.invariant (fun _ _ he hm => Manager.Linked.effect hm he) (h.congr rfl rfl rfl)
        obtain ⟨hconnect, hrest⟩ :=
          connecting_managed (e := e) hlinked m.signalingServerUrl m.publishStreamId
        exact hsetup.trans hconnect heffects hrest

/-- Every input manages the connections. -/
theorem inputStep_managed (h : m.Linked) (ha : m.Announced) (i : Timed Input) :
    Managed m (inputStep i m).1 (inputStep i m).2 := by
  obtain ⟨what, e⟩ := i
  cases what with
  | callback cb => exact (deliver_conducts h ha cb).managed
  | api call =>
    cases call with
    | start isPlayer =>
      obtain ⟨hs, hc⟩ := invoke_start isPlayer e m
      change Managed m (invoke (.start isPlayer) e m).state (invoke (.start isPlayer) e m).calls
      rw [hs, hc]
      exact start2WayCommunication_managed h isPlayer
    | stop => exact stop2WayCommunication_managed h
    | sendChatMessage text date => exact (sendChatMessage_conducts h text date).managed
    | sendBinaryMessage data label => exact (sendBinaryMessage_conducts h data).managed
    | setSignalingServerURL url | setRoomId url | setStreamId url =>
      exact (conducts_of_none (o := invoke _ e m) (by simp [invoke, setSignalingServerURL,
        ConferenceCall.setRoomId, ConferenceCall.setStreamId]) rfl).managed

theorem run_managed (inputs : List (Timed Input)) (h : m.Linked) (ha : m.Announced) :
    Managed m (inputStep.run inputs m).1 (inputStep.run inputs m).2 := by
  induction inputs generalizing m with
  | nil => exact (conducts_of_none (o := ⟨some (), m, []⟩) (by simp) rfl).managed
  | cons i inputs ih =>
    have heffects := inputStep_effects i m
    have hl := heffects.invariant (fun _ _ he hm => Manager.Linked.effect hm he) h
    have hann := heffects.invariant (fun _ _ he hm => Manager.Announced.effect hm he) ha
    have heffects' : Effects (inputStep i m).1 (inputStep.run inputs (inputStep i m).1).1 :=
      Step.run_invariant (I := Effects (inputStep i m).1)
        (fun j m' hm => hm.trans (inputStep_effects j m')) inputs _ .refl
    rw [Step.run_cons]
    exact (inputStep_managed h ha i).trans (ih hl hann) heffects heffects'

end Managed

/-- From any state that any inputs lead to, over any further inputs and whatever throws: the open
connections are those stored for a stream; a call on a connection, or on its channel, finds it open;
and each one that is open or made meanwhile is in the end open, was closed by one call, or was
closed once when a session ended. -/
theorem connections_managed (before after : List (Timed Input)) :
    let m := (inputStep.run before {}).1
    let r := inputStep.run after m
    (∀ pc, pc ∈ m.openPeers ↔ pc ∈ m.pcs.values) ∧
    ∃ swept : Multiset ℕ, Turns (connectionCalls r.2) m.openPeers (r.1.openPeers + swept) ∧
      swept.Nodup ∧ ∀ pc ∈ swept, r.1.Shut pc ∧ ¬ m.Shut pc := by
  intro m r
  have hl : m.Linked := run_effects (fun _ _ he hm => Manager.Linked.effect hm he) before .new
  have ha : m.Announced :=
    run_effects (fun _ _ he hm => Manager.Announced.effect hm he) before fun t ch h => by simp at h
  refine ⟨fun pc => ⟨fun hpc => ?_, fun hpc => ?_⟩, run_managed after hl ha⟩
  · rw [mem_openPeers] at hpc
    cases hp : m.peers[pc]? with
    | none => simp [hp] at hpc
    | some p => exact Dict.mem_values.mpr ⟨_, (hl.stored pc p hp).mp (by simpa [hp] using hpc)⟩
  · obtain ⟨t, ht⟩ := Dict.mem_values.mp hpc
    exact hl.mem_openPeers ht

end ConferenceCall

import ConferenceCall.Manager.Description
import ConferenceCall.Manager.Inputs

/-! Delivery of remote candidates when no library call fails. A stream with a connection
has no buffered candidates, so what was received is what was handed over followed by what
is buffered. The opening of the socket, which can make a connection without looking at the
buffer, comes before the first message. -/

namespace ConferenceCall

open Library

/-- Nothing throws, and the offer's sections can be read. -/
def Env.Normal (e : Env) : Prop := (∀ site, e.throws site = false) ∧ tracksPrepared e

/-- The candidate a call hands over, with its connection. -/
def Call.candidate : Call → Option (ℕ × Candidate)
  | .addRemoteCandidate pc c => some (pc, c)
  | _ => none

namespace Manager

/-- The streams the connections were created for. -/
def streams (m : Manager) : List String := m.peers.map Peer.streamId

/-- The candidates calls hand over to connections of a stream. -/
def handedOver (m : Manager) (streamId : String) (calls : List Invocation) : List Candidate :=
  calls.filterMap fun c => (c.call.candidate).bind fun p =>
    if m.streams[p.1]? = some streamId then some p.2 else none

/-- `pendingCandidates[streamId]`. -/
def pending (m : Manager) (streamId : String) : List Candidate :=
  (m.pendingCandidates.lookup streamId).getD []

end Manager

/-- The non-empty candidate of a stream a signal brings. -/
def Signal.received (streamId : String) : Signal → List Candidate
  | .onRemoteCandidate t cand mid =>
    if t = streamId ∧ cand.isEmpty = false then [⟨cand, mid⟩] else []
  | _ => []

def Input.received (streamId : String) : Input → List Candidate
  | .callback cb => (cb.signal.map (Signal.received streamId)).getD []
  | .api _ => []

/-- The socket does not open after a message. -/
def OpensFirst (l : List (Timed Input)) : Prop :=
  ∀ l₁ i l₂, l = l₁ ++ i :: l₂ → i.what = .callback .wsOpened →
    ∀ j ∈ l₁, ∀ text, j.what ≠ .callback (.wsMessage text)

variable {streamId t : String} {e : Env} {m m' : Manager} {tr out : List Invocation}
  {recv : List Candidate}

/-! ### Streams of connections -/

theorem Manager.Owned.streams (h : m.Owned) {pc : ℕ} (hpc : m.pcs.lookup t = some pc) :
    m.streams[pc]? = some t := by
  rw [Manager.streams, List.getElem?_map]
  exact h t pc hpc

private theorem map_modify_same {α β : Type} (l : List α) (i : ℕ) {f : α → α} {g : α → β}
    (h : ∀ a, g (f a) = g a) : (l.modify i f).map g = l.map g := by
  refine List.ext_getElem? fun j => ?_
  rw [List.getElem?_map, List.getElem?_modify, List.getElem?_map]
  cases l[j]? with
  | none => rfl
  | some a => by_cases hij : i = j <;> simp [hij, h]

theorem streams_updatePeer (m : Manager) (pc : ℕ) {f : Peer → Peer}
    (hf : ∀ p, (f p).streamId = p.streamId) : (m.updatePeer pc f).streams = m.streams :=
  map_modify_same m.peers pc hf

theorem streams_withPeer (m : Manager) (t : String) (needDC : Bool) :
    (m.withPeer t needDC).streams = m.streams ++ [t] := by
  simp [Manager.streams, Manager.withPeer, Peer.fresh]

theorem streams_relinked (sig : Signal) (e : Env) (m : Manager) :
    m.streams <+: (m.relinked e sig).streams := by
  cases sig with
  | onRemoteSDP t type sdp =>
    simp only [Manager.relinked]
    split_ifs
    · exact List.prefix_rfl
    · cases h : m.pcs.lookup t with
      | some pc => rw [Manager.ensured_of_some h]
      | none =>
        rw [Manager.ensured_of_none h, streams_withPeer]
        exact List.prefix_append _ _
  | onPlayFinishedNotification t =>
    simp only [Manager.relinked]
    split_ifs
    · exact List.prefix_rfl
    · cases h : m.pcs.lookup t with
      | none => simp [Manager.streams, Manager.withoutPeer, Manager.peersWithout, h]
      | some pc =>
        have hs : (m.withoutPeer t).streams = (m.updatePeer pc Peer.close).streams := by
          simp [Manager.streams, Manager.withoutPeer, Manager.peersWithout, h, Manager.updatePeer]
        rw [hs, streams_updatePeer m pc (f := Peer.close) fun _ => rfl]
  | _ => exact List.prefix_rfl

/-- A connection never changes its stream. -/
theorem streams_step (ev : Event) (h : m.connected) : m.streams <+: (step ev m).1.streams := by
  have hchange := step_change ev h
  obtain ⟨cb, e⟩ := ev
  generalize (step ⟨cb, e⟩ m).1 = m' at hchange ⊢
  cases hchange with
  | signal hsig =>
    rename_i sig
    obtain ⟨_, _, hs⟩ := onSignal_state sig e m
    rw [hs]
    exact streams_relinked sig e m
  | publisher _ _ =>
    have hs := streams_withPeer m m.publishStreamId true
    exact ⟨[m.publishStreamId], hs.symm⟩
  | publisherWithChannel _ _ _ =>
    have hs := streams_withPeer m m.publishStreamId true
    exact ⟨[m.publishStreamId], hs.symm⟩
  | closed pc =>
    rw [streams_updatePeer m pc (f := fun p => { p with closed := true }) fun _ => rfl]
  | _ => exact List.prefix_rfl

/-! ### The candidates of a description -/

theorem candidate_of_quiet {c : Invocation} (h : Quiet c) : c.call.candidate = none := by
  obtain ⟨call, ok⟩ := c
  cases call with
  | addRemoteCandidate pc cand => cases h
  | _ => rfl

theorem handedOver_append (m : Manager) (streamId : String) (l l' : List Invocation) :
    m.handedOver streamId (l ++ l') = m.handedOver streamId l ++ m.handedOver streamId l' :=
  List.filterMap_append

theorem handedOver_nil_of (m : Manager) (streamId : String) {l : List Invocation}
    (h : ∀ c ∈ l, c.call.candidate = none) : m.handedOver streamId l = [] := by
  refine List.filterMap_eq_nil_iff.mpr fun c hc => ?_
  rw [h c hc, Option.bind_none]

theorem handedOver_candidates (m : Manager) {pc : ℕ} (hpc : m.streams[pc]? = some t)
    (streamId : String) (cs : List Candidate) :
    m.handedOver streamId (cs.map fun c => ⟨.addRemoteCandidate pc c, true⟩) =
      if t = streamId then cs else [] := by
  induction cs with
  | nil => simp [Manager.handedOver]
  | cons c cs ih =>
    simp only [Manager.handedOver] at ih
    by_cases ht : t = streamId
    · simp [Manager.handedOver, Call.candidate, hpc, ht]
    · simp [Manager.handedOver, Call.candidate, hpc, ht]

theorem addCandidates_calls (he : ∀ site, e.throws site = false) (pc i : ℕ) (cs : List Candidate)
    (m : Manager) :
    Act.each (fun i c => call (.addRemoteCandidate i) (.addRemoteCandidate pc c)) i cs e m =
      ⟨some (), m, cs.map fun c => ⟨.addRemoteCandidate pc c, true⟩⟩ := by
  induction cs generalizing i with
  | nil => rfl
  | cons c cs ih => simp [call_apply, he, ih, Outcome.after]

theorem flushCandidates_calls (he : ∀ site, e.throws site = false) (t : String) (pc : ℕ)
    (m : Manager) : flushCandidates t pc e m =
      ⟨some (), m.flushed t, (m.pending t).map fun c => ⟨.addRemoteCandidate pc c, true⟩⟩ := by
  cases h : m.pendingCandidates.lookup t with
  | none =>
    have hf : m.flushed t = m := by rw [Manager.flushed, Dict.erase_of_lookup_none _ _ h]
    simp [flushCandidates, h, hf, Manager.pending]
  | some cs =>
    simp [flushCandidates, h, addCandidates_calls he, Manager.pending, Manager.flushed,
      Outcome.after]

theorem applyRemoteSDP_calls (he : ∀ site, e.throws site = false) (t type sdp : String) (pc : ℕ)
    (m : Manager) : (applyRemoteSDP t type sdp pc e m).calls =
      ⟨.setRemoteDescription pc (sdpType type) sdp, true⟩ ::
        ((m.pending t).map fun c => ⟨.addRemoteCandidate pc c, true⟩) ++
          if type == "offer" then [⟨.setLocalDescription pc .answer, true⟩] else [] := by
  cases ho : type == "offer" <;>
    simp [applyRemoteSDP, call_apply, he, flushCandidates_calls he, ho]

/-- Without failures a description takes every buffered candidate of its stream along. -/
theorem handleRemoteSDP_normal (hn : e.Normal) (t type sdp : String) (m : Manager) :
    (∃ pre post, (∀ c ∈ pre ++ post, c.call.candidate = none) ∧
      (handleRemoteSDP t type sdp e m).calls =
        pre ++ ((m.pending t).map fun c => ⟨.addRemoteCandidate (m.pcOf t) c, true⟩) ++ post) ∧
    (handleRemoteSDP t type sdp e m).state = (m.prepared e t type).flushed t := by
  obtain ⟨he, htracks⟩ := hn
  have hb : blocked e m t = false := by simp [blocked, he]
  have hreach : reaches e type = true := by simp [reaches, htracks, he]
  have hacc : m.accepted e t = true := by
    have hall (cs : List Candidate) :
        Act.allFrom (fun i _ => !e.throws (.addRemoteCandidate i)) 0 cs = true :=
      Act.allFrom_of (fun i _ => by rw [he, Bool.not_false]) 0 cs
    cases h : m.pendingCandidates.lookup t <;> simp only [Manager.accepted, h, hall]
  obtain ⟨-, hs⟩ := handleRemoteSDP_apply type sdp hb
  refine ⟨?_, by simpa [hreach, Manager.applies, he, hacc] using hs⟩
  obtain ⟨o, ho, heq⟩ := handleRemoteSDP_eq type sdp hb
  have hv := readRemoteSDP_value type (m.pcOf t) e (m.ensured t)
  obtain ⟨⟨mids, hmids⟩, hbuild⟩ := readRemoteSDP_within type (m.pcOf t) e (m.ensured t)
  rw [heq]
  rcases Act.bind_cases (readRemoteSDP type (m.pcOf t))
    (fun _ => applyRemoteSDP t type sdp (m.pcOf t)) e (m.ensured t) with
    ⟨hnone, -⟩ | ⟨_, -, hbind⟩
  · rw [hnone, hreach] at hv
    cases hv
  · have hpend : (readRemoteSDP type (m.pcOf t) e (m.ensured t)).state.pending t = m.pending t := by
      rw [hmids, Manager.pending, Manager.pending, ← m.ensured_pendingCandidates t]
    rw [hbind, Outcome.after_calls, Outcome.after_calls, applyRemoteSDP_calls he, hpend]
    refine ⟨o ++ (readRemoteSDP type (m.pcOf t) e (m.ensured t)).calls ++
        [⟨.setRemoteDescription (m.pcOf t) (sdpType type) sdp, true⟩],
      if type == "offer" then [⟨.setLocalDescription (m.pcOf t) .answer, true⟩] else [], ?_,
      by simp only [List.append_assoc, List.cons_append, List.nil_append]⟩
    have hq {l : List Invocation} (hl : ∀ c ∈ l, c.call.builds) :
        ∀ c ∈ l, c.call.candidate = none :=
      fun c hc => candidate_of_quiet (Call.negotiates_of_builds (hl c hc))
    intro c hc
    simp only [List.mem_append, List.mem_singleton] at hc
    rcases hc with ((hc | hc) | rfl) | hc
    · exact hq ho c hc
    · exact hq hbuild c hc
    · rfl
    · split_ifs at hc
      · rw [List.mem_singleton.mp hc]
        rfl
      · cases hc

/-! ### The account -/

/-- What was received for a stream is what was handed over followed by what is buffered. -/
structure Accounted (streamId : String) (recv : List Candidate) (m : Manager)
    (tr : List Invocation) : Prop where
  connected : m.connected
  owned : m.Owned
  /-- Candidates went to connections that exist. -/
  known : ∀ c ∈ tr, ∀ pc cand, c.call.candidate = some (pc, cand) → pc < m.streams.length
  /-- Candidates wait only without a connection. -/
  waits : m.pending streamId ≠ [] → m.pcs.lookup streamId = none
  conserved : recv = m.handedOver streamId tr ++ m.pending streamId

/-- New connections do not change where earlier candidates went. -/
theorem handedOver_mono (hs : m.streams <+: m'.streams)
    (hk : ∀ c ∈ tr, ∀ pc cand, c.call.candidate = some (pc, cand) → pc < m.streams.length) :
    m'.handedOver streamId tr = m.handedOver streamId tr := by
  obtain ⟨more, hmore⟩ := hs
  refine List.filterMap_congr fun c hc => ?_
  cases hcand : c.call.candidate with
  | none => rfl
  | some p =>
    obtain ⟨pc, cand⟩ := p
    rw [Option.bind_some, Option.bind_some, ← hmore,
      List.getElem?_append_left (hk c hc pc cand hcand)]

/-- A step accounts for what it receives, hands over and buffers. -/
theorem Accounted.extend (h : Accounted streamId recv m tr) (hc : m'.connected) (ho : m'.Owned)
    (hs : m.streams <+: m'.streams)
    (hk : ∀ c ∈ out, ∀ pc cand, c.call.candidate = some (pc, cand) → pc < m'.streams.length)
    (hw : m'.pending streamId ≠ [] → m'.pcs.lookup streamId = none) (new : List Candidate)
    (hnew : m.pending streamId ++ new = m'.handedOver streamId out ++ m'.pending streamId) :
    Accounted streamId (recv ++ new) m' (tr ++ out) where
  connected := hc
  owned := ho
  known := by
    intro c hmem pc cand hcand
    rcases List.mem_append.mp hmem with hmem | hmem
    · exact (h.known c hmem pc cand hcand).trans_le hs.length_le
    · exact hk c hmem pc cand hcand
  waits := hw
  conserved := by
    rw [handedOver_append, handedOver_mono hs h.known, h.conserved, List.append_assoc, hnew,
      List.append_assoc]

/-- A step that neither hands over nor buffers. -/
theorem Accounted.quiet (h : Accounted streamId recv m tr) (hc : m'.connected) (ho : m'.Owned)
    (hs : m.streams <+: m'.streams) (hout : ∀ c ∈ out, c.call.candidate = none)
    (hp : m'.pendingCandidates = m.pendingCandidates)
    (hw : m.pending streamId = [] ∨
      (m.pcs.lookup streamId = none → m'.pcs.lookup streamId = none)) :
    Accounted streamId recv m' (tr ++ out) := by
  have hpend : m'.pending streamId = m.pending streamId := by
    rw [Manager.pending, hp, Manager.pending]
  have hstep := h.extend hc ho hs (fun c hm pc cand hcand => by
      rw [hout c hm] at hcand
      cases hcand)
    (fun hne => by
      rw [hpend] at hne
      rcases hw with hw | hw
      · exact absurd hw hne
      · exact hw (h.waits hne)) []
    (by rw [handedOver_nil_of m' streamId hout, hpend, List.append_nil, List.nil_append])
  rwa [List.append_nil] at hstep

theorem relinked_lookup_none {sig : Signal} (hsig : ∀ t type sdp, sig ≠ .onRemoteSDP t type sdp)
    (h : m.pcs.lookup streamId = none) : (m.relinked e sig).pcs.lookup streamId = none := by
  cases sig with
  | onRemoteSDP t type sdp => exact absurd rfl (hsig t type sdp)
  | onPlayFinishedNotification t =>
    simp only [Manager.relinked]
    split_ifs
    · exact h
    · simp only [Manager.withoutPeer, Dict.lookup_erase_eq, h, ite_self]
  | _ => exact h

theorem onSignal_candidate {sig : Signal} (hsdp : ∀ t type sdp, sig ≠ .onRemoteSDP t type sdp)
    (hcand : ∀ t cand mid, sig ≠ .onRemoteCandidate t cand mid) :
    ∀ c ∈ (onSignal sig e m).calls, c.call.candidate = none := by
  cases sig with
  | onStartOfferer t =>
    cases hp : m.pcs.lookup t with
    | none => simp [onSignal, startOffer_of_none hp]
    | some pc => simp [onSignal, startOffer_of_some hp, Call.candidate]
  | onRemoteSDP t type sdp => exact absurd rfl (hsdp t type sdp)
  | onRemoteCandidate t cand mid => exact absurd rfl (hcand t cand mid)
  | _ => exact fun c hc => candidate_of_quiet (onSignal_quiet rfl c hc)

theorem Accounted.description (h : Accounted streamId recv m tr) (hn : e.Normal)
    (t type sdp : String) (hc : (handleRemoteSDP t type sdp e m).state.connected)
    (ho : (handleRemoteSDP t type sdp e m).state.Owned)
    (hs : m.streams <+: (handleRemoteSDP t type sdp e m).state.streams) :
    Accounted streamId recv (handleRemoteSDP t type sdp e m).state
      (tr ++ (handleRemoteSDP t type sdp e m).calls) := by
  obtain ⟨⟨pre, post, hnone, hcalls⟩, hstate⟩ := handleRemoteSDP_normal hn t type sdp m
  have hlookup := handleRemoteSDP_lookup type sdp
    (by simp [blocked, hn.1] : blocked e m t = false)
  have hpc := ho.streams hlookup
  have hprep : (m.prepared e t type).pendingCandidates = m.pendingCandidates := by
    unfold Manager.prepared
    split_ifs <;> simp [Manager.withTracks, m.ensured_pendingCandidates]
  have hpend : (handleRemoteSDP t type sdp e m).state.pending streamId =
      if streamId = t then [] else m.pending streamId := by
    rw [hstate, Manager.pending, Manager.flushed, hprep, Dict.lookup_erase_eq]
    split_ifs <;> rfl
  have hother (hne : streamId ≠ t) : (handleRemoteSDP t type sdp e m).state.pcs.lookup streamId =
      m.pcs.lookup streamId := by
    have hpcs : (m.prepared e t type).pcs = (m.ensured t).pcs := by
      unfold Manager.prepared
      split_ifs <;> rfl
    rw [hstate, Manager.flushed, hpcs, m.ensured_lookup_ne hne]
  suffices hstep : Accounted streamId (recv ++ []) (handleRemoteSDP t type sdp e m).state
      (tr ++ (handleRemoteSDP t type sdp e m).calls) by
    rwa [List.append_nil] at hstep
  refine h.extend hc ho hs ?_ ?_ [] ?_
  · intro c hmem pc cand hcand
    rw [hcalls, List.mem_append, List.mem_append, List.mem_map] at hmem
    rcases hmem with (hmem | ⟨_, -, rfl⟩) | hmem
    · rw [hnone c (by simp [hmem])] at hcand
      cases hcand
    · cases hcand
      exact (List.getElem?_eq_some_iff.mp hpc).1
    · rw [hnone c (by simp [hmem])] at hcand
      cases hcand
  · intro hne
    rw [hpend] at hne
    split_ifs at hne with ht
    · exact absurd rfl hne
    · rw [hother ht]
      exact h.waits hne
  · rw [hcalls, handedOver_append, handedOver_append, handedOver_candidates _ hpc,
      handedOver_nil_of _ _ fun c hmem => hnone c (by simp [hmem]),
      handedOver_nil_of _ _ fun c hmem => hnone c (by simp [hmem]), hpend]
    by_cases ht : streamId = t
    · simp [ht]
    · simp [ht, Ne.symm ht]

theorem Accounted.candidate (h : Accounted streamId recv m tr) (hn : e.Normal)
    (t cand mid : String) (hc : (addRemoteCandidate t cand mid e m).state.connected)
    (ho : (addRemoteCandidate t cand mid e m).state.Owned) :
    Accounted streamId (recv ++ (Signal.onRemoteCandidate t cand mid).received streamId)
      (addRemoteCandidate t cand mid e m).state
      (tr ++ (addRemoteCandidate t cand mid e m).calls) := by
  cases hce : cand.isEmpty with
  | true =>
    rw [addRemoteCandidate_of_empty hce]
    simpa [Signal.received, hce] using h
  | false =>
    cases hp : m.pcs.lookup t with
    | none =>
      rw [addRemoteCandidate_of_none hce hp, hn.1, if_neg (by simp)] at hc ho ⊢
      have hpend : (m.buffer t [⟨cand, mid⟩]).pending streamId =
          m.pending streamId ++ (Signal.onRemoteCandidate t cand mid).received streamId := by
        rw [Manager.pending, Manager.buffer, Dict.lookup_insert_eq]
        by_cases ht : streamId = t
        · subst ht
          simp [Signal.received, hce, Manager.pending]
        · simp [Signal.received, ht, Ne.symm ht, Manager.pending]
      refine h.extend hc ho List.prefix_rfl (by simp) (fun hne => ?_) _
        (by simp [hpend, Manager.handedOver])
      by_cases ht : streamId = t
      · rw [ht]
        exact hp
      · refine h.waits ?_
        rw [hpend] at hne
        simpa [Signal.received, Ne.symm ht] using hne
    | some pc =>
      have hpc := h.owned.streams hp
      rw [addRemoteCandidate_of_some hce hp, hn.1, if_neg (by simp)] at hc ho ⊢
      refine h.extend hc ho List.prefix_rfl ?_ h.waits _ ?_
      · intro c hmem pc' cand' hcand
        rw [List.mem_singleton.mp hmem] at hcand
        cases hcand
        exact (List.getElem?_eq_some_iff.mp hpc).1
      · by_cases ht : t = streamId
        · subst ht
          have hempty : m.pending t = [] := by
            by_contra hne
            rw [h.waits hne] at hp
            cases hp
          simp [hempty, Signal.received, hce, Manager.handedOver, Call.candidate, hpc]
        · simp [Signal.received, ht, Manager.handedOver, Call.candidate, hpc]

theorem Accounted.signal (h : Accounted streamId recv m tr) (hn : e.Normal) (sig : Signal)
    (hc : (onSignal sig e m).state.connected) (ho : (onSignal sig e m).state.Owned)
    (hs : m.streams <+: (onSignal sig e m).state.streams) :
    Accounted streamId (recv ++ sig.received streamId) (onSignal sig e m).state
      (tr ++ (onSignal sig e m).calls) := by
  have hother (hsdp : ∀ t type sdp, sig ≠ .onRemoteSDP t type sdp)
      (hcand : ∀ t cand mid, sig ≠ .onRemoteCandidate t cand mid) :
      Accounted streamId recv (onSignal sig e m).state (tr ++ (onSignal sig e m).calls) := by
    obtain ⟨_, _, hstate⟩ := onSignal_state sig e m
    refine h.quiet hc ho hs (onSignal_candidate hsdp hcand) (onSignal_pending hsdp hcand)
      (.inr fun hnone => ?_)
    rw [hstate]
    exact relinked_lookup_none hsdp hnone
  cases sig with
  | onRemoteSDP t type sdp =>
    show Accounted streamId (recv ++ []) _ _
    rw [List.append_nil]
    exact h.description hn t type sdp hc ho hs
  | onRemoteCandidate t cand mid => exact h.candidate hn t cand mid hc ho
  | _ =>
    show Accounted streamId (recv ++ []) _ _
    rw [List.append_nil]
    exact hother (by simp) (by simp)

/-- A callback without a message hands nothing over and buffers nothing. -/
theorem Accounted.silent (h : Accounted streamId recv m tr) {ev : Event}
    (hsig : ev.what.signal = none) (hopen : ev.what = .wsOpened → recv = []) :
    Accounted streamId recv (step ev m).1 (tr ++ (step ev m).2) := by
  have hchange := step_change ev h.connected
  have hnone : ∀ c ∈ (step ev m).2, c.call.candidate = none :=
    fun c hc => candidate_of_quiet (step_routine h.connected hsig c hc).1
  refine h.quiet (connected_step ev h.connected) (h.owned.after_step h.connected ev)
    (streams_step ev h.connected) hnone ?_ ?_
  · obtain ⟨cb, e⟩ := ev
    generalize (step ⟨cb, e⟩ m).1 = m' at hchange ⊢
    cases hchange with
    | signal hs => simp [Callback.signal, hs] at hsig
    | _ => rfl
  · obtain ⟨cb, e⟩ := ev
    have hempty (hcb : cb = .wsOpened) : m.pending streamId = [] := by
      have hc := h.conserved
      rw [hopen hcb] at hc
      exact (List.append_eq_nil_iff.mp hc.symm).2
    generalize (step ⟨cb, e⟩ m).1 = m' at hchange ⊢
    cases hchange with
    | signal hs => simp [Callback.signal, hs] at hsig
    | publisher _ _ => exact .inl (hempty rfl)
    | publisherWithChannel _ _ _ => exact .inl (hempty rfl)
    | _ => exact .inr id

theorem Accounted.callback (h : Accounted streamId recv m tr) (ev : Event) (hn : ev.env.Normal)
    (hopen : ev.what = .wsOpened → recv = []) :
    Accounted streamId (recv ++ (Input.callback ev.what).received streamId) (step ev m).1
      (tr ++ (step ev m).2) := by
  cases hs : ev.what.signal with
  | none =>
    have hsilent := h.silent hs hopen
    simpa [Input.received, hs] using hsilent
  | some sig =>
    have hc := connected_step ev h.connected
    have ho := h.owned.after_step h.connected ev
    have hm := streams_step ev h.connected
    rw [step_signal h.connected hs] at hc ho hm ⊢
    simpa [Input.received, hs] using h.signal hn sig hc ho hm

/-- One input of a session. -/
theorem Accounted.input (h : Accounted streamId recv m tr) {i : Timed Input} (hd : i.what.during)
    (hn : i.env.Normal) (hopen : i.what = .callback .wsOpened → recv = []) :
    Accounted streamId (recv ++ i.what.received streamId) (inputStep i m).1
      (tr ++ (inputStep i m).2) := by
  obtain ⟨what, e⟩ := i
  cases what with
  | callback cb =>
    rw [inputStep_callback]
    exact h.callback ⟨cb, e⟩ hn fun hcb => hopen (congrArg Input.callback hcb)
  | api call =>
    obtain ⟨⟨url, roomId, ownId, hs⟩, hc⟩ := invoke_during hd e m
    have hnone : ∀ c ∈ (invoke call e m).calls, c.call.candidate = none :=
      fun c hmem => candidate_of_quiet (hc c hmem).1
    show Accounted streamId (recv ++ []) (invoke call e m).state (tr ++ (invoke call e m).calls)
    rw [List.append_nil, hs]
    exact h.quiet h.connected h.owned List.prefix_rfl hnone rfl (.inr id)

theorem received_eq_nil_of_no_message {l : List (Timed Input)}
    (h : ∀ i ∈ l, ∀ text, i.what ≠ .callback (.wsMessage text)) :
    l.flatMap (fun i => i.what.received streamId) = [] := by
  refine List.flatMap_eq_nil_iff.mpr fun i hi => ?_
  obtain ⟨what, e⟩ := i
  rcases what with (_ | _ | text | _ | _ | _ | _ | _ | _ | _) | _
  case callback.wsMessage => exact absurd rfl (h _ hi text)
  all_goals rfl

theorem Opening.accounted (o : Opening) (streamId : String) :
    Accounted streamId [] o.state o.calls := by
  obtain ⟨hs, hq⟩ := o.outcome_eq
  have hnone : ∀ c ∈ o.calls, c.call.candidate = none := fun c hc => candidate_of_quiet (hq c hc)
  have hp : o.state.pending streamId = [] := by
    have hempty : o.state.pendingCandidates = ∅ := by
      rw [hs]
      exact o.idle.pendingCandidates
    simp [Manager.pending, hempty]
  exact
    { connected := o.inSession.connected
      owned := o.inSession.owned
      known := fun c hc pc cand hcand => by
        rw [hnone c hc] at hcand
        cases hcand
      waits := fun hne => absurd hp hne
      conserved := by rw [handedOver_nil_of _ _ hnone, hp, List.append_nil] }

/-- A session in which every call returns normally and no opening of the socket follows a
message. What has been received for a stream is what has been handed over to its connections,
in this order, followed by what is buffered; only a stream without a connection buffers. -/
theorem candidates_conserved (o : Opening) (inputs : List (Timed Input))
    (hduring : ∀ i ∈ inputs, i.what.during) (hnormal : ∀ i ∈ inputs, i.env.Normal)
    (hopen : OpensFirst inputs) (streamId : String) :
    inputs.flatMap (fun i => i.what.received streamId) =
        (inputStep.run inputs o.state).1.handedOver streamId
            (o.calls ++ (inputStep.run inputs o.state).2) ++
          (inputStep.run inputs o.state).1.pending streamId ∧
      ((inputStep.run inputs o.state).1.pending streamId ≠ [] →
        (inputStep.run inputs o.state).1.pcs.lookup streamId = none) := by
  suffices h : Accounted streamId (inputs.flatMap fun i => i.what.received streamId)
      (inputStep.run inputs o.state).1 (o.calls ++ (inputStep.run inputs o.state).2) from
    ⟨h.conserved, h.waits⟩
  -- from the left: the last input meets the account of the inputs before it
  induction inputs using List.reverseRecOn with
  | nil => simpa using o.accounted streamId
  | append_singleton l i ih =>
    have hl := ih (fun j hj => hduring j (by simp [hj])) (fun j hj => hnormal j (by simp [hj]))
      fun l₁ j l₂ hsplit => hopen l₁ j (l₂ ++ [i]) (by simp [hsplit])
    have hi := hl.input (hduring i (by simp)) (hnormal i (by simp)) fun hw =>
      received_eq_nil_of_no_message (hopen l i [] rfl hw)
    simpa [Step.run_append] using hi

theorem opensFirst_cons {i : Timed Input} {l : List (Timed Input)}
    (h : ∀ j ∈ l, j.what ≠ .callback .wsOpened) : OpensFirst (i :: l) := by
  rintro (_ | ⟨_, l₁⟩) j l₂ hsplit hj
  · simp
  · rw [List.cons_append, List.cons.injEq] at hsplit
    exact absurd hj (h j (by simp [hsplit.2]))

/-- A candidate before the description of its stream is buffered and flushed. -/
theorem candidate_flushed :
    let inputs : List (Timed Input) :=
      [⟨.callback .wsOpened, .calm⟩,
        ⟨.callback (.wsMessage (Signal.onRemoteCandidate "you" "c" "0").text), .calm⟩,
        ⟨.callback (.wsMessage (Signal.onRemoteSDP "you" "answer" "v").text), .calm⟩]
    inputs.flatMap (fun i => i.what.received "you") =
      (inputStep.run inputs Opening.plain.state).1.handedOver "you"
          (Opening.plain.calls ++ (inputStep.run inputs Opening.plain.state).2) ++
        (inputStep.run inputs Opening.plain.state).1.pending "you" := by
  have hcalm : Env.calm.Normal := ⟨fun _ => rfl, by decide⟩
  refine (candidates_conserved .plain _ ?_ ?_ ?_ "you").1
  · simp [Input.during]
  · simp [hcalm]
  · exact opensFirst_cons (by simp)

end ConferenceCall

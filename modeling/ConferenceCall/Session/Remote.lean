import ConferenceCall.Library.Component
import ConferenceCall.Library.Positions
import ConferenceCall.Manager.Course
import ConferenceCall.Manager.Effects

/-! A remote stream by itself: what the session keeps for it and what it does about it, without
the other streams. The connections made for the stream are counted, the latest one is the one in
use. -/

namespace ConferenceCall

open Library

/-- What is done about a stream: with its connection, or to the server. -/
inductive Dealing where
  | deed (d : Deed)
  | play
  | takeConfiguration (type sdp : String)
  | takeCandidate (cand mid : String)
  deriving DecidableEq

/-- What concerns a remote stream. A connection is named by how many were made for the stream
before it. -/
inductive RemoteEvent where
  | start
  | description (type sdp : String)
  | candidate (cand mid : String)
  | playStarted
  | playFinished
  | subtrackAdded
  | subtrackRemoved
  | closed (k : ℕ)
  | localCandidate (k : ℕ) (cand mid : String)
  | localDescription (k : ℕ) (type : SdpType) (sdp : String)

/-- What a session keeps for a remote stream. -/
structure Remote where
  /-- The connections made for it, the latest last. -/
  connections : List Peer
  /-- The latest connection is in use. -/
  stored : Bool
  pending : Option (List Candidate)
  playSent : Option Bool

namespace Remote

/-- The connection in use is not `Closed`. -/
def live (r : Remote) : Bool := r.stored && r.connections.getLast?.any fun p => !p.closed

/-- With a connection for the stream. -/
def connected (r : Remote) (streamId : String) : Remote :=
  if r.stored then r
  else
    { r with
      connections := r.connections ++ [{ Peer.fresh streamId with callbacks := true }]
      stored := true }

/-- The stream is over. -/
def finished (r : Remote) : Remote :=
  { r with
    connections :=
      if r.stored then r.connections.modify (r.connections.length - 1) Peer.close
      else r.connections
    stored := false
    playSent := none }

/-- The k-th connection still reports. -/
def reports (r : Remote) (k : ℕ) : Bool := (r.connections[k]?).any Peer.callbacks

/-- The buffered candidates after a description was received. -/
def pendingAfter (e : Env) (type : String) (pending : Option (List Candidate)) :
    Option (List Candidate) :=
  if reaches e type && !e.throws .setRemoteDescription && takesAll e pending then none else pending

def step (streamId : String) : Step (Timed RemoteEvent) Remote (Dealing × Bool) := fun i r =>
  let e := i.env
  match i.what with
  | .start =>
    (r, if r.stored then
      [(.deed (.setLocalDescription .offer), !e.throws .setLocalDescription)] else [])
  | .description type sdp =>
    if !r.stored && e.throws .createPeer then (r, [(.deed .create, false)])
    else
      ({ r.connected streamId with pending := pendingAfter e type r.pending },
        ((if r.stored then [] else [(Deed.create, true)]) ++
          descriptionDeeds e type sdp r.pending).map fun d => (.deed d.1, d.2))
  | .candidate cand mid =>
    if cand.isEmpty then (r, [])
    else if r.stored then
      (r, if e.throws .candidate then []
        else [(.deed (.addRemoteCandidate ⟨cand, mid⟩), !e.throws (.addRemoteCandidate 0))])
    else
      ({ r with
        pending := some (r.pending.getD [] ++ if e.throws .candidate then [] else [⟨cand, mid⟩]) },
        [])
  | .playStarted => (r, [])
  | .playFinished =>
    if streamId.isEmpty then (r, [])
    else (r.finished, if r.stored then [(.deed .close, true)] else [])
  | .subtrackAdded =>
    if streamId.isEmpty || r.live || r.playSent.getD false then (r, [])
    else ({ r with playSent := some true }, [(.play, !e.throws .sendPlayStream)])
  | .subtrackRemoved => (if streamId.isEmpty then r else { r with playSent := none }, [])
  | .closed k =>
    ({ r with connections := r.connections.modify k fun p => { p with closed := true } }, [])
  | .localCandidate k cand mid =>
    (r, if r.reports k then [(.takeCandidate cand mid, !e.throws .sendTakeCandidate)] else [])
  | .localDescription k type sdp =>
    (r, if r.reports k then
      [(.takeConfiguration (match type with | .offer => "offer" | .answer => "answer") sdp,
        !e.throws .sendTakeConfiguration)] else [])

end Remote

/-! ### The stream in the manager -/

namespace Manager

/-- The connection was made for the stream. -/
def madeFor (streamId : String) (p : Peer) : Bool := p.streamId == streamId

/-- The numbers of the connections made for a stream. -/
def positions (m : Manager) (streamId : String) : List ℕ := m.peers.findIdxs (madeFor streamId)

/-- What the manager keeps for a stream. -/
def remote (m : Manager) (streamId : String) : Remote where
  connections := m.peers.filter (madeFor streamId)
  stored := (m.pcs.lookup streamId).isSome
  pending := m.pendingCandidates.lookup streamId
  playSent := m.sendPlay.lookup streamId

/-- The stream of a connection. -/
def streamOf (m : Manager) (pc : ℕ) : Option String := (m.peers[pc]?).map Peer.streamId

/-- What a call does about the connections of a stream and by signals about it. Other streams have
a part in the label of a candidate, which is one count for all, in the audio that is pushed and in
the data channels: these are not seen. -/
def seen (m : Manager) (streamId : String) (c : Invocation) : Option (Dealing × Bool) :=
  let deed (pc : ℕ) (d : Deed) : Option (Dealing × Bool) :=
    if m.streamOf pc = some streamId then some (.deed d, c.returned) else none
  let command (s : String) (d : Dealing) : Option (Dealing × Bool) :=
    if s = streamId then some (d, c.returned) else none
  match c.call with
  | .createPeer _ s => command s (.deed .create)
  | .addTrack pc mid type => deed pc (.addTrack mid type)
  | .setRemoteDescription pc type sdp => deed pc (.setRemoteDescription type sdp)
  | .addRemoteCandidate pc c => deed pc (.addRemoteCandidate c)
  | .setLocalDescription pc type => deed pc (.setLocalDescription type)
  | .closePeer pc => deed pc .close
  | .send (.play _ s) => command s .play
  | .send (.takeConfiguration s type sdp) => command s (.takeConfiguration type sdp)
  | .send (.takeCandidate s cand _ mid) => command s (.takeCandidate cand mid)
  | _ => none

/-- A connection in use is the latest of its stream. -/
def Latest (m : Manager) : Prop :=
  ∀ streamId pc, m.pcs.lookup streamId = some pc → (m.positions streamId).getLast? = some pc

end Manager

variable {m m' : Manager} {s t : String} {pc : ℕ}

section Connections

theorem madeFor_map {f : Peer → Peer} (hf : ∀ p, (f p).streamId = p.streamId) (s : String)
    (p : Peer) : Manager.madeFor s (f p) = Manager.madeFor s p := by
  rw [Manager.madeFor, Manager.madeFor, hf]

theorem positions_modify (m : Manager) (pc : ℕ) {f : Peer → Peer}
    (hf : ∀ p, (f p).streamId = p.streamId) (s : String) :
    (m.peers.modify pc f).findIdxs (Manager.madeFor s) = m.positions s :=
  findIdxs_modify (madeFor_map hf s) _ _ _

theorem positions_append (m : Manager) (p : Peer) (s : String) :
    (m.peers ++ [p]).findIdxs (Manager.madeFor s) =
      m.positions s ++ if Manager.madeFor s p then [m.nextPc] else [] := by
  rw [List.findIdxs_append, List.findIdxs_singleton, zero_add]
  rfl

theorem Manager.Latest.effect (h : m.Latest) (he : Effect m m') : m'.Latest := by
  cases he with
  | peer needDC hnone =>
    rename_i t
    intro s pc hs
    simp only [Manager.withPeer, Dict.lookup_insert_eq] at hs
    rw [Manager.positions, Manager.withPeer, positions_append]
    split_ifs at hs with hst
    · cases hs
      simp [Manager.madeFor, Peer.fresh, hst]
    · have hne : t ≠ s := fun h => hst h.symm
      simpa [Manager.madeFor, Peer.fresh, hne] using h s pc hs
  | removed t =>
    intro s pc hs
    simp only [Manager.withoutPeer, Dict.lookup_erase_eq] at hs
    split_ifs at hs with hst
    have hpositions : (m.withoutPeer t).positions s = m.positions s := by
      cases hp : m.pcs.lookup t with
      | none => simp [Manager.positions, Manager.withoutPeer, Manager.peersWithout, hp]
      | some pc' =>
        have hmodify := positions_modify m pc' (f := Peer.close) (fun _ => rfl) s
        simpa [Manager.positions, Manager.withoutPeer, Manager.peersWithout, hp] using hmodify
    rw [hpositions]
    exact h s pc hs
  | closed pc' =>
    intro s pc hs
    rw [Manager.positions, Manager.updatePeer,
      positions_modify m pc' (f := fun p => { p with closed := true }) (fun _ => rfl)]
    exact h s pc hs
  | cleared =>
    intro s pc hs
    cases hs
  | _ => exact h

theorem Manager.Latest.effects (h : m.Latest) (he : Effects m m') : m'.Latest :=
  he.invariant (fun _ _ heffect hm => hm.effect heffect) h

/-- A connection in use is the one counted last. -/
theorem Manager.Latest.position (h : m.Latest) (hs : m.pcs.lookup s = some pc) :
    (m.positions s)[(m.remote s).connections.length - 1]? = some pc := by
  have hlast := h s pc hs
  rw [List.getLast?_eq_getElem?] at hlast
  have hlength : (m.remote s).connections.length = (m.positions s).length := by
    rw [Manager.positions, List.length_findIdxs, List.countP_eq_length_filter]
    rfl
  rwa [hlength]

theorem connections_of_position {k : ℕ} (h : (m.positions s)[k]? = some pc) :
    m.peers[pc]? = (m.remote s).connections[k]? :=
  getElem?_of_findIdxs h

/-- What stands at a position was made for the stream. -/
theorem streamOf_position {k : ℕ} (h : (m.positions s)[k]? = some pc) :
    m.streamOf pc = some s := by
  have hmem : pc ∈ m.positions s := List.mem_of_getElem? h
  obtain ⟨hlt, hmade⟩ := List.mem_findIdxs_iff_exists_getElem_pos.mp hmem
  rw [Manager.streamOf, List.getElem?_eq_getElem hlt, Option.map_some]
  exact congrArg some (by simpa [Manager.madeFor] using hmade)

theorem Manager.Latest.streamOf (h : m.Latest) (hs : m.pcs.lookup s = some pc) :
    m.streamOf pc = some s :=
  streamOf_position (h.position hs)

theorem Manager.Latest.hasLivePeer (h : m.Latest) (s : String) :
    m.hasLivePeer s = (m.remote s).live := by
  cases hs : m.pcs.lookup s with
  | none => simp [Manager.hasLivePeer, Remote.live, Manager.remote, hs]
  | some pc =>
    have hlast := connections_of_position (h.position hs)
    rw [← List.getLast?_eq_getElem?] at hlast
    have hpeer : m.peers[pc]?.isSome := by
      have hstream := h.streamOf hs
      cases hp : m.peers[pc]? with
      | none => simp [Manager.streamOf, hp] at hstream
      | some p => rfl
    obtain ⟨p, hp⟩ := Option.isSome_iff_exists.mp hpeer
    have hstored : (m.remote s).stored = true := by simp [Manager.remote, hs]
    simp only [Manager.hasLivePeer, hs, Option.any_some, Manager.isClosed, hp, Remote.live,
      hstored, Bool.true_and, ← hlast]

/-- Changing a connection changes it among those of its stream. -/
theorem connections_updatePeer {k : ℕ} (h : (m.positions s)[k]? = some pc) {f : Peer → Peer}
    (hf : ∀ p, (f p).streamId = p.streamId) :
    (m.updatePeer pc f).remote s =
      { m.remote s with connections := (m.remote s).connections.modify k f } := by
  have hfilter := filter_modify (madeFor_map hf s) h
  simp only [Manager.remote, Manager.updatePeer, hfilter]

/-- The others keep theirs. -/
theorem connections_updatePeer_of_ne (h : m.streamOf pc ≠ some s) {f : Peer → Peer}
    (hf : ∀ p, (f p).streamId = p.streamId) : (m.updatePeer pc f).remote s = m.remote s := by
  have hfilter : (m.peers.modify pc f).filter (Manager.madeFor s) =
      m.peers.filter (Manager.madeFor s) := by
    cases hp : m.peers[pc]? with
    | none =>
      rw [List.modify_eq_self (by simpa using hp)]
    | some p =>
      have hne : p.streamId ≠ s := by simpa [Manager.streamOf, hp] using h
      refine filter_modify_of_not hp ?_ ?_
      · simpa [Manager.madeFor] using hne
      · simpa [Manager.madeFor, hf] using hne
  simp only [Manager.remote, Manager.updatePeer, hfilter]

end Connections

end ConferenceCall

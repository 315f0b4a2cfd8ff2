import ConferenceCall.Manager.Run

/-! The phase of a stream: whether it has a connection and whether that was described.
The phase follows from the events alone, and it says the same as the calls made so far
and the connections stored. -/

namespace ConferenceCall

open Library

/-- The connection a call describes. -/
def Call.describes : Call → Option ℕ
  | .setRemoteDescription pc _ _ => some pc
  | _ => none

/-- A trace with a remote description of the connection. -/
def describedIn (trace : List Invocation) (pc : ℕ) : Bool :=
  trace.any fun c => c.call.describes == some pc

inductive Phase where
  /-- No connection. -/
  | absent
  /-- A connection without a remote description. -/
  | bare
  | described
  deriving DecidableEq

/-- What a signal makes of the phase of a stream. -/
def Phase.signaled (e : Env) (streamId : String) (p : Phase) : Signal → Phase
  | .onRemoteSDP t type _ =>
    if t = streamId then
      if p = .absent ∧ e.throws .createPeer then .absent
      else if reaches e type then .described
      else if p = .absent then .bare
      else p
    else p
  | .onPlayFinishedNotification t => if t = streamId ∧ t.isEmpty = false then .absent else p
  | _ => p

/-- What an event makes of it; when the socket opens, a missing own connection is made. -/
def Phase.next (own streamId : String) (ev : Event) (p : Phase) : Phase :=
  match ev.what, ev.what.signal with
  | _, some sig => p.signaled ev.env streamId sig
  | .wsOpened, none =>
    if streamId = own ∧ p = .absent ∧ ev.env.throws .createPeer = false then .bare else p
  | _, none => p

/-- The phases of all streams as a machine without outputs. -/
def phases (own : String) : Step Event (String → Phase) Empty :=
  fun ev p => (fun streamId => Phase.next own streamId ev (p streamId), [])

/-- A session starts with its own connection, not yet described. -/
def startPhases (own : String) : String → Phase :=
  fun streamId => if streamId = own then .bare else .absent

/-! ### Traces -/

variable {own room streamId : String} {m : Manager} {tr out : List Invocation} {ev : Event}

@[simp] theorem describedIn_append (tr out : List Invocation) (pc : ℕ) :
    describedIn (tr ++ out) pc = (describedIn tr pc || describedIn out pc) :=
  List.any_append

theorem describedIn_of_none (h : ∀ c ∈ out, c.call.describes = none) (pc : ℕ) :
    describedIn out pc = false := by
  rw [describedIn, List.any_eq_false]
  intro c hc
  simp [h c hc]

theorem describes_of_quiet {c : Invocation} (h : Quiet c) : c.call.describes = none := by
  cases hc : c.call <;> simp_all [Quiet, Call.negotiates, Call.describes]

theorem describes_of_builds {c : Call} (h : c.builds) : c.describes = none := by
  cases c <;> simp_all [Call.builds, Call.describes]

theorem describes_of_follows {c : Call} {pc : ℕ} (h : c.follows pc) : c.describes = none := by
  rcases h with ⟨cand, rfl⟩ | rfl <;> rfl

/-! ### One step -/

/-- The phase of a stream with this connection after these calls. -/
def phaseOf (trace : List Invocation) : Option ℕ → Phase
  | none => .absent
  | some pc => if describedIn trace pc then .described else .bare

theorem phaseOf_eq_absent {pc : Option ℕ} : phaseOf tr pc = .absent ↔ pc = none := by
  cases pc with
  | none => simp [phaseOf]
  | some pc => cases h : describedIn tr pc <;> simp [phaseOf, h]

/-- Calls that describe nothing change no phase. -/
theorem phaseOf_append (hout : ∀ c ∈ out, c.call.describes = none) (pc : Option ℕ) :
    phaseOf (tr ++ out) pc = phaseOf tr pc := by
  cases pc with
  | none => rfl
  | some pc => simp [phaseOf, describedIn_of_none hout]

/-- Two streams are not described together. -/
theorem pcOf_ne (hm : InSession own room m) {s t : String} (hne : s ≠ t) {pc : ℕ}
    (hs : m.pcs.lookup s = some pc) : m.pcOf t ≠ pc := by
  have hlt := hm.owned.lt hs
  cases ht : m.pcs.lookup t with
  | none =>
    simp only [Manager.pcOf, ht, Option.getD_none]
    omega
  | some pc' =>
    simp only [Manager.pcOf, ht, Option.getD_some]
    rintro rfl
    exact hne (hm.owned.inj hs ht)

theorem describedIn_handleRemoteSDP {type sdp : String} {e : Env}
    (hb : blocked e m streamId = false) (pc : ℕ) :
    describedIn (handleRemoteSDP streamId type sdp e m).calls pc =
      (reaches e type && m.pcOf streamId == pc) := by
  obtain ⟨-, pre, rest, hcalls, hpre, hrest⟩ := handleRemoteSDP_spec type sdp hb
  have hp := describedIn_of_none (fun c hc => describes_of_builds (hpre c hc)) pc
  rw [hcalls, describedIn_append, hp, Bool.false_or]
  split_ifs at hrest with hr
  · obtain ⟨ok, rest', rfl, hrest'⟩ := hrest
    have hf := describedIn_of_none (fun c hc => describes_of_follows (hrest' c hc)) pc
    rw [describedIn] at hf ⊢
    rw [List.any_cons, hf, Bool.or_false, hr, Bool.true_and]
    rfl
  · rw [hrest.1]
    simp [describedIn, hr]

/-- A description moves its own stream to the next phase and no other stream. -/
theorem phase_handleRemoteSDP (hm : InSession own room m)
    (hb : ∀ pc, describedIn tr pc → pc < m.nextPc) (t type sdp : String) (e : Env) :
    phaseOf (tr ++ (handleRemoteSDP t type sdp e m).calls)
        ((handleRemoteSDP t type sdp e m).state.pcs.lookup streamId) =
      if t = streamId then
        if phaseOf tr (m.pcs.lookup streamId) = .absent ∧ e.throws .createPeer then .absent
        else if reaches e type then .described
        else if phaseOf tr (m.pcs.lookup streamId) = .absent then .bare
        else phaseOf tr (m.pcs.lookup streamId)
      else phaseOf tr (m.pcs.lookup streamId) := by
  cases hblk : blocked e m t with
  | true =>
    have hthrow : m.pcs.lookup t = none ∧ e.throws .createPeer := by
      cases hp : m.pcs.lookup t <;> simp_all [blocked]
    rw [handleRemoteSDP_of_blocked type sdp hblk, phaseOf_append (by simp [Call.describes])]
    by_cases ht : t = streamId
    · subst ht
      simp [hthrow.1, hthrow.2, phaseOf]
    · rw [if_neg ht]
  | false =>
    obtain ⟨⟨mids, pending, hs, -⟩, -⟩ := handleRemoteSDP_spec type sdp hblk
    have hpcs : (handleRemoteSDP t type sdp e m).state.pcs = (m.ensured t).pcs := by rw [hs]
    rw [hpcs]
    by_cases ht : t = streamId
    · subst ht
      have hnb : ¬(phaseOf tr (m.pcs.lookup t) = .absent ∧ e.throws .createPeer) := by
        rw [phaseOf_eq_absent]
        rintro ⟨hp, hc⟩
        simp [blocked, hp, hc] at hblk
      rw [if_pos rfl, if_neg hnb, Manager.ensured_lookup]
      simp only [phaseOf, describedIn_append, describedIn_handleRemoteSDP hblk, beq_self_eq_true,
        Bool.and_true, Bool.or_eq_true]
      by_cases hr : reaches e type
      · rw [if_pos (.inr hr), if_pos hr]
      · cases hp : m.pcs.lookup t with
        | none =>
          have hnew : ¬describedIn tr (m.pcOf t) := fun hd => by
            have hlt := hb _ hd
            simp [Manager.pcOf, hp] at hlt
          simp [hr, hnew]
        | some pc => cases hd : describedIn tr pc <;> simp [hr, Manager.pcOf, hp, hd]
    · rw [if_neg ht, Manager.ensured_lookup_ne m (Ne.symm ht)]
      cases hp : m.pcs.lookup streamId with
      | none => rfl
      | some pc =>
        have hne := pcOf_ne hm (Ne.symm ht) hp
        simp [phaseOf, describedIn_handleRemoteSDP hblk, hne]

theorem signal_describes_none {sig : Signal} {e : Env}
    (hsig : ∀ t type sdp, sig ≠ .onRemoteSDP t type sdp) :
    ∀ c ∈ (onSignal sig e m).calls, c.call.describes = none := by
  cases sig with
  | onStartOfferer t =>
    cases hp : m.pcs.lookup t with
    | none => simp [onSignal, startOffer_of_none hp]
    | some pc => simp [onSignal, startOffer_of_some hp, Call.describes]
  | onRemoteSDP t type sdp => exact absurd rfl (hsig t type sdp)
  | onRemoteCandidate t cand mid =>
    cases hc : cand.isEmpty with
    | true => simp [onSignal, addRemoteCandidate_of_empty hc]
    | false =>
      cases hp : m.pcs.lookup t <;> cases ht : e.throws .candidate <;>
        simp [onSignal, addRemoteCandidate_of_none hc, addRemoteCandidate_of_some hc, hp, ht,
          Call.describes]
  | _ => exact fun c hc => describes_of_quiet (onSignal_quiet rfl c hc)

theorem signal_phase (hm : InSession own room m)
    (hb : ∀ pc, describedIn tr pc → pc < m.nextPc) (sig : Signal) (e : Env) (streamId : String) :
    phaseOf (tr ++ (onSignal sig e m).calls) ((onSignal sig e m).state.pcs.lookup streamId) =
      (phaseOf tr (m.pcs.lookup streamId)).signaled e streamId sig := by
  by_cases hsdp : ∃ t type sdp, sig = .onRemoteSDP t type sdp
  · obtain ⟨t, type, sdp, rfl⟩ := hsdp
    exact phase_handleRemoteSDP hm hb t type sdp e
  · have hnone : ∀ t type sdp, sig ≠ .onRemoteSDP t type sdp :=
      fun t type sdp h => hsdp ⟨t, type, sdp, h⟩
    obtain ⟨_, _, hs⟩ := onSignal_state sig e m
    have hpcs : (onSignal sig e m).state.pcs = (m.relinked e sig).pcs := by rw [hs]
    rw [phaseOf_append (signal_describes_none hnone), hpcs]
    cases sig with
    | onRemoteSDP t type sdp => exact absurd rfl (hnone t type sdp)
    | onPlayFinishedNotification t =>
      cases he : t.isEmpty with
      | true => simp [Manager.relinked, Phase.signaled, he]
      | false =>
        by_cases ht : t = streamId
        · subst ht
          simp [Manager.relinked, Manager.withoutPeer, Phase.signaled, he, phaseOf]
        · simp [Manager.relinked, Manager.withoutPeer, Phase.signaled, he, ht, Ne.symm ht]
    | _ => rfl

/-- A new connection is bare. -/
theorem phase_insert (hb : ∀ pc, describedIn tr pc → pc < m.nextPc) (t : String) :
    phaseOf tr ((m.pcs.insert t m.nextPc).lookup streamId) =
      if streamId = t then .bare else phaseOf tr (m.pcs.lookup streamId) := by
  have hnew : describedIn tr m.nextPc = false := by
    by_contra hd
    have hlt := hb m.nextPc (by simpa using hd)
    omega
  rw [Dict.lookup_insert_eq]
  split_ifs
  · simp [phaseOf, hnew]
  · rfl

/-- The phases follow the manager. -/
theorem phase_step (hm : InSession own room m) (hb : ∀ pc, describedIn tr pc → pc < m.nextPc)
    (ev : Event) (streamId : String) :
    phaseOf (tr ++ (step ev m).2) ((step ev m).1.pcs.lookup streamId) =
      Phase.next own streamId ev (phaseOf tr (m.pcs.lookup streamId)) := by
  cases hs : ev.what.signal with
  | some sig =>
    rw [step_signal hm.connected hs, Phase.next, hs]
    exact signal_phase hm hb sig ev.env streamId
  | none =>
    have hout : ∀ c ∈ (step ev m).2, c.call.describes = none :=
      fun c hc => describes_of_quiet (step_routine hm.connected hs c hc).1
    have hchange := step_change ev hm.connected
    have hown := hm.publishStreamId
    rw [phaseOf_append hout, Phase.next, hs]
    obtain ⟨cb, e⟩ := ev
    generalize (step ⟨cb, e⟩ m).1 = m' at hchange ⊢
    have hopened (hp : m.pcs.lookup m.publishStreamId = none) (ht : e.throws .createPeer = false) :
        phaseOf tr ((m.pcs.insert m.publishStreamId m.nextPc).lookup streamId) =
          if streamId = own ∧ phaseOf tr (m.pcs.lookup streamId) = .absent ∧
            e.throws .createPeer = false then .bare else phaseOf tr (m.pcs.lookup streamId) := by
      rw [phase_insert hb]
      by_cases hk : streamId = m.publishStreamId
      · subst hk
        rw [if_pos rfl, if_pos ⟨hown, phaseOf_eq_absent.mpr hp, ht⟩]
      · rw [if_neg hk, if_neg fun h => hk (h.1.trans hown.symm)]
    cases hchange with
    | signal hsig => simp [Callback.signal, hsig] at hs
    | context ctx hign _ =>
      cases cb with
      | wsOpened =>
        refine (if_neg ?_).symm
        rintro ⟨rfl, hp, ht⟩
        rw [phaseOf_eq_absent] at hp
        rcases hign with hp' | ht'
        · rw [hown, hp] at hp'
          cases hp'
        · rw [ht] at ht'
          cases ht'
      | _ => rfl
    | publisher hp ht => exact hopened hp ht
    | publisherWithChannel hp ht _ => exact hopened hp ht
    | track _ => rfl
    | channel _ _ => rfl
    | talk _ => rfl
    | closed pc => rfl

/-! ### Runs -/

/-- The manager, the calls so far and the phases belong together. -/
structure Follows (own room : String) (m : Manager) (tr : List Invocation)
    (p : String → Phase) : Prop where
  inSession : InSession own room m
  phase : ∀ streamId, phaseOf tr (m.pcs.lookup streamId) = p streamId
  bound : ∀ pc, describedIn tr pc → pc < m.nextPc

/-- What is described in a step is stored after it. -/
theorem described_lt (hm : InSession own room m) {pc : ℕ} (h : describedIn (step ev m).2 pc) :
    pc < (step ev m).1.nextPc := by
  cases hs : ev.what.signal with
  | none =>
    rw [describedIn_of_none fun c hc => describes_of_quiet (step_routine hm.connected hs c hc).1] at h
    cases h
  | some sig =>
    have hm' := hm.after_step ev
    rw [step_signal hm.connected hs] at h hm' ⊢
    by_cases hsdp : ∃ t type sdp, sig = .onRemoteSDP t type sdp
    · obtain ⟨t, type, sdp, rfl⟩ := hsdp
      cases hblk : blocked ev.env m t with
      | true =>
        rw [onSignal, handleRemoteSDP_of_blocked type sdp hblk] at h
        simp [describedIn, Call.describes] at h
      | false =>
        simp only [onSignal, describedIn_handleRemoteSDP hblk, Bool.and_eq_true, beq_iff_eq] at h
        rw [← h.2]
        exact hm'.owned.lt (handleRemoteSDP_lookup type sdp hblk)
    · rw [describedIn_of_none (signal_describes_none
        fun t type sdp h' => hsdp ⟨t, type, sdp, h'⟩)] at h
      cases h

theorem Follows.next {p : String → Phase} (h : Follows own room m tr p) (ev : Event) :
    Follows own room (step ev m).1 (tr ++ (step ev m).2) (phases own ev p).1 := by
  refine ⟨h.inSession.after_step ev, fun streamId => ?_, fun pc hd => ?_⟩
  · rw [phase_step h.inSession h.bound ev streamId, h.phase streamId]
    rfl
  · rw [describedIn_append, Bool.or_eq_true] at hd
    rcases hd with hd | hd
    · exact (h.bound pc hd).trans_le (nextPc_step ev h.inSession.connected)
    · exact described_lt h.inSession hd

theorem start_follows (o : Opening) :
    Follows o.own o.room o.state o.calls (startPhases o.own) := by
  have hnone (pc : ℕ) : describedIn o.calls pc = false :=
    describedIn_of_none (fun c hc => describes_of_quiet (o.outcome_eq.2 c hc)) pc
  refine ⟨o.inSession, fun streamId => ?_, fun pc hd => by simp [hnone] at hd⟩
  have hpcs : o.state.pcs = (∅ : Tracker ℕ).insert o.own o.before.nextPc := by
    rw [o.outcome_eq.1, ← o.idle.pcs]
    rfl
  rw [hpcs, Dict.lookup_insert_eq, startPhases]
  split_ifs
  · simp [phaseOf, hnone]
  · rfl

theorem session_follows (o : Opening) (evs : List Event) :
    Follows o.own o.room (o.after evs) (o.calls ++ (step.run evs o.state).2)
      ((phases o.own).run evs (startPhases o.own)).1 :=
  Step.run_follows (R := Follows o.own o.room) (fun ev _ _ _ h => h.next ev) evs o.state o.calls _
    (start_follows o)

end ConferenceCall

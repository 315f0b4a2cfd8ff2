import ConferenceCall.Session.Phases

/-! Remote candidates and remote descriptions. A candidate is misplaced exactly in the
phase between the connection and its description, which every session starts in for
its own stream. -/

namespace ConferenceCall

open Library

/-- Every candidate is applied after a description of its connection. -/
def DescribedFirst (trace : List Invocation) : Prop :=
  ∀ pre pc cand ok post, trace = pre ++ ⟨.addRemoteCandidate pc cand, ok⟩ :: post →
    describedIn pre pc

/-- The step describes the connection stored for the stream. -/
def describesStream (streamId : String) (ev : Event) (m : Manager) : Prop :=
  ∃ c ∈ (step ev m).2, ∃ pc, c.call.describes = some pc ∧
    (step ev m).1.pcs.lookup streamId = some pc

/-- A well-formed candidate that arrives before its stream is described is buffered
until then. -/
def Kept (o : Opening) (evs : List Event) : Prop :=
  ∀ l₁ ev l₂ l₃ streamId cand mid, evs = l₁ ++ ev :: (l₂ ++ l₃) →
    ev.what.signal = some (.onRemoteCandidate streamId cand mid) → cand.isEmpty = false →
    ev.env.throws .candidate = false →
    (∀ pc, (o.after l₁).pcs.lookup streamId = some pc →
      describedIn (o.calls ++ (step.run l₁ o.state).2) pc = false) →
    step.Along (fun ev m => ¬ describesStream streamId ev m) l₂ (step ev (o.after l₁)).1 →
    ⟨cand, mid⟩ ∈ (((step.run l₂ (step ev (o.after l₁)).1).1.pendingCandidates.lookup
      streamId).getD [])

/-- A well-formed candidate does not arrive between the connection and its description. -/
def timely (ev : Event) (p : String → Phase) : Prop :=
  ∀ streamId cand mid, ev.what.signal = some (.onRemoteCandidate streamId cand mid) →
    cand.isEmpty = false → ev.env.throws .candidate = false → p streamId ≠ .bare

variable {own room streamId : String} {m : Manager} {tr out : List Invocation} {ev : Event}

/-! ### Descriptions first -/

theorem describedFirst_prefix (h : DescribedFirst (tr ++ out)) : DescribedFirst tr := by
  rintro pre pc cand ok post rfl
  exact h pre pc cand ok (post ++ out) (by simp)

/-- Appending calls asks for a description before each of their candidates. -/
theorem describedFirst_append (h : DescribedFirst tr) :
    DescribedFirst (tr ++ out) ↔
      ∀ pre pc cand ok post, out = pre ++ ⟨.addRemoteCandidate pc cand, ok⟩ :: post →
        describedIn (tr ++ pre) pc := by
  constructor
  · rintro hall pre pc cand ok post rfl
    exact hall (tr ++ pre) pc cand ok post (by simp)
  · intro hout pre pc cand ok post heq
    rcases List.append_eq_append_iff.mp heq with ⟨as, rfl, hs⟩ | ⟨bs, hs, ht⟩
    · exact hout as pc cand ok post hs
    · cases bs with
      | nil =>
        rw [List.append_nil] at hs
        have hd := hout [] pc cand ok post ht.symm
        rwa [List.append_nil, hs] at hd
      | cons b bs =>
        rw [List.cons_append, List.cons.injEq] at ht
        obtain ⟨rfl, -⟩ := ht
        exact h pre pc cand ok bs hs

/-- Candidates of described connections may follow. -/
theorem describedFirst_of_described (h : DescribedFirst tr)
    (hout : ∀ c ∈ out, ∀ pc cand, c.call = .addRemoteCandidate pc cand → describedIn tr pc) :
    DescribedFirst (tr ++ out) := by
  refine (describedFirst_append h).mpr ?_
  rintro pre pc cand ok post rfl
  have hd := hout ⟨.addRemoteCandidate pc cand, ok⟩ (by simp) pc cand rfl
  rw [describedIn_append, hd, Bool.true_or]

theorem describedFirst_of_quiet (h : DescribedFirst tr) (hout : ∀ c ∈ out, Quiet c) :
    DescribedFirst (tr ++ out) := by
  refine describedFirst_of_described h fun c hc pc cand heq => ?_
  have hq := hout c hc
  rw [Quiet, heq] at hq
  cases hq

theorem describedFirst_handleRemoteSDP (htr : DescribedFirst tr) (t type sdp : String) (e : Env) :
    DescribedFirst (tr ++ (handleRemoteSDP t type sdp e m).calls) := by
  have hbuild {out : List Invocation} (h : ∀ c ∈ out, c.call.builds) : ∀ c ∈ out, Quiet c :=
    fun c hc => Call.negotiates_of_builds (h c hc)
  cases hblk : blocked e m t with
  | true =>
    rw [handleRemoteSDP_of_blocked type sdp hblk]
    exact describedFirst_of_quiet htr (hbuild (by simp [Call.builds]))
  | false =>
    obtain ⟨-, pre, rest, hcalls, hpre, hrest⟩ := handleRemoteSDP_spec type sdp hblk
    have hfirst := describedFirst_of_quiet htr (hbuild hpre)
    rw [hcalls, ← List.append_assoc]
    split_ifs at hrest
    · obtain ⟨ok, rest', rfl, hrest'⟩ := hrest
      -- the description itself, then the candidates of its connection
      have hset : DescribedFirst (tr ++ pre ++
          [⟨.setRemoteDescription (m.pcOf t) (sdpType type) sdp, ok⟩]) :=
        describedFirst_of_described hfirst (by simp)
      have hcands (c : Invocation) (hc : c ∈ rest') (pc : ℕ) (cand : Candidate)
          (heq : c.call = .addRemoteCandidate pc cand) : describedIn (tr ++ pre ++
            [⟨.setRemoteDescription (m.pcOf t) (sdpType type) sdp, ok⟩]) pc := by
        have hpc := Call.follows_negotiates (hrest' c hc)
        rw [heq] at hpc
        cases hpc
        simp [describedIn, Call.describes]
      simpa using describedFirst_of_described hset hcands
    · rw [hrest.1, List.append_nil]
      exact hfirst

/-- A candidate call is in order exactly when the phase of its stream is not bare. -/
theorem describedFirst_candidate {p : String → Phase} (h : Follows own room m tr p)
    (htr : DescribedFirst tr) (t cand mid : String) (e : Env) :
    DescribedFirst (tr ++ (addRemoteCandidate t cand mid e m).calls) ↔
      (cand.isEmpty = false → e.throws .candidate = false → p t ≠ .bare) := by
  cases hc : cand.isEmpty with
  | true =>
    rw [addRemoteCandidate_of_empty hc]
    simpa using htr
  | false =>
    have hphase := h.phase t
    cases hp : m.pcs.lookup t with
    | none =>
      rw [hp] at hphase
      have hcalls : (addRemoteCandidate t cand mid e m).calls = [] := by
        rw [addRemoteCandidate_of_none hc hp]
        split_ifs <;> rfl
      rw [hcalls, List.append_nil, ← hphase]
      simpa [phaseOf] using htr
    | some pc =>
      rw [hp] at hphase
      rw [addRemoteCandidate_of_some hc hp, ← hphase]
      cases ht : e.throws .candidate with
      | true => simpa using htr
      | false =>
        simp only [Bool.false_eq_true, if_false, phaseOf, ne_eq, forall_const]
        rw [describedFirst_append htr]
        constructor
        · intro hall
          have hd := hall [] pc ⟨cand, mid⟩ _ [] rfl
          rw [List.append_nil] at hd
          simp [hd]
        · rintro hbare pre pc' cand' ok post heq
          have hd : describedIn tr pc = true := by
            by_contra hd
            exact hbare (if_neg hd)
          rcases pre with _ | ⟨c, pre⟩
          · cases heq
            simpa using hd
          · simp at heq

/-- The candidates of one step come after descriptions exactly when they are timely. -/
theorem describedFirst_step {p : String → Phase} (h : Follows own room m tr p)
    (htr : DescribedFirst tr) (ev : Event) :
    DescribedFirst (tr ++ (step ev m).2) ↔ timely ev p := by
  have hconn := h.inSession.connected
  cases hs : ev.what.signal with
  | none =>
    refine iff_of_true (describedFirst_of_quiet htr fun c hc => (step_routine hconn hs c hc).1) ?_
    intro t cand mid hsig
    simp [hs] at hsig
  | some sig =>
    rw [step_signal hconn hs]
    have hother (hne : ∀ t cand mid, sig ≠ .onRemoteCandidate t cand mid) : timely ev p := by
      intro t cand mid hsig
      rw [hs, Option.some.injEq] at hsig
      exact absurd hsig (hne t cand mid)
    cases sig with
    | onStartOfferer t =>
      refine iff_of_true (describedFirst_of_described htr fun c hc pc cand heq => ?_)
        (hother (by simp))
      cases hp : m.pcs.lookup t with
      | none => simp [onSignal, startOffer_of_none hp] at hc
      | some pc =>
        rw [onSignal, startOffer_of_some hp, List.mem_singleton] at hc
        rw [hc] at heq
        cases heq
    | onRemoteSDP t type sdp =>
      exact iff_of_true (describedFirst_handleRemoteSDP htr t type sdp ev.env) (hother (by simp))
    | onRemoteCandidate t cand mid =>
      rw [onSignal, describedFirst_candidate h htr t cand mid ev.env]
      constructor
      · intro hok t' cand' mid' hsig
        rw [hs] at hsig
        cases hsig
        exact hok
      · exact fun hok => hok t cand mid hs
    | _ => exact iff_of_true (describedFirst_of_quiet htr (onSignal_quiet rfl)) (hother (by simp))

/-! ### Buffering -/

theorem pending_handleRemoteSDP {c : Candidate}
    (hc : c ∈ (m.pendingCandidates.lookup streamId).getD []) (t type sdp : String) (e : Env)
    (hev : t = streamId → blocked e m t = false → ¬reaches e type) :
    c ∈ ((handleRemoteSDP t type sdp e m).state.pendingCandidates.lookup streamId).getD [] := by
  cases hblk : blocked e m t with
  | true => rwa [handleRemoteSDP_of_blocked type sdp hblk]
  | false =>
    have hens := m.ensured_pendingCandidates t
    obtain ⟨⟨mids, pending, hs, hpend⟩, pre, rest, -, -, hrest⟩ :=
      handleRemoteSDP_spec type sdp hblk
    by_cases ht : t = streamId
    · rw [if_neg (hev ht hblk)] at hrest
      obtain ⟨-, mids', hs'⟩ := hrest
      rw [hs']
      rwa [← hens] at hc
    · rw [hs]
      rcases hpend with rfl | rfl
      · rwa [← hens] at hc
      · rwa [← hens, ← Finmap.lookup_erase_ne (Ne.symm ht)] at hc

/-- A buffered candidate stays until its stream is described. -/
theorem pending_step (hm : InSession own room m) {c : Candidate}
    (hc : c ∈ (m.pendingCandidates.lookup streamId).getD []) (ev : Event)
    (hev : ¬describesStream streamId ev m) :
    c ∈ ((step ev m).1.pendingCandidates.lookup streamId).getD [] := by
  cases hs : ev.what.signal with
  | none =>
    have hchange := step_change ev hm.connected
    obtain ⟨cb, e⟩ := ev
    generalize (step ⟨cb, e⟩ m).1 = m' at hchange ⊢
    cases hchange with
    | signal hsig => simp [Callback.signal, hsig] at hs
    | _ => exact hc
  | some sig =>
    have hstep := step_signal hm.connected hs
    rw [describesStream, hstep] at hev
    rw [hstep]
    cases sig with
    | onRemoteSDP t type sdp =>
      refine pending_handleRemoteSDP hc t type sdp ev.env fun ht hblk hr => hev ?_
      obtain ⟨ok, hmem⟩ := handleRemoteSDP_applies type sdp hblk hr
      exact ⟨_, hmem, _, rfl, ht ▸ handleRemoteSDP_lookup type sdp hblk⟩
    | onRemoteCandidate t cand mid =>
      cases hce : cand.isEmpty with
      | true => rwa [onSignal, addRemoteCandidate_of_empty hce]
      | false =>
        have hbuffer (cs : List Candidate) :
            c ∈ ((m.buffer t cs).pendingCandidates.lookup streamId).getD [] := by
          simp only [Manager.buffer, Dict.lookup_insert_eq]
          split_ifs with hk
          · subst hk
            simp [hc]
          · exact hc
        cases hp : m.pcs.lookup t with
        | none =>
          rw [onSignal, addRemoteCandidate_of_none hce hp]
          split_ifs <;> exact hbuffer _
        | some pc =>
          rw [onSignal, addRemoteCandidate_of_some hce hp]
          split_ifs <;> exact hc
    | _ => rwa [onSignal_pending (by simp) (by simp)]

theorem pending_run (hm : InSession own room m) {c : Candidate}
    (hc : c ∈ (m.pendingCandidates.lookup streamId).getD []) (evs : List Event)
    (hevs : step.Along (fun ev m => ¬describesStream streamId ev m) evs m) :
    c ∈ ((step.run evs m).1.pendingCandidates.lookup streamId).getD [] := by
  have hrun := Step.run_preserves
    (I := fun m => InSession own room m ∧ c ∈ (m.pendingCandidates.lookup streamId).getD [])
    (fun ev _ h hev => ⟨h.1.after_step ev, pending_step h.1 h.2 ev hev⟩) evs m ⟨hm, hc⟩ hevs
  exact hrun.2

/-! ### Sessions -/

theorem start_describedFirst (o : Opening) : DescribedFirst o.calls := by
  have hnil : DescribedFirst [] := fun pre pc cand ok post heq => by simp at heq
  exact describedFirst_of_quiet hnil o.outcome_eq.2

theorem describedFirst_iff (o : Opening) (evs : List Event) :
    DescribedFirst (o.calls ++ (step.run evs o.state).2) ↔
      (phases o.own).Along timely evs (startPhases o.own) :=
  Step.run_iff_along (R := Follows o.own o.room) (fun _ _ => describedFirst_prefix)
    (fun ev _ _ _ h => h.next ev) (fun ev _ _ _ h htr => describedFirst_step h htr ev) evs o.state
    o.calls _ (start_follows o) (start_describedFirst o)

/-- Timely candidates are buffered while they have to be. -/
theorem kept_of_timely (o : Opening) (evs : List Event)
    (h : (phases o.own).Along timely evs (startPhases o.own)) : Kept o evs := by
  rintro l₁ ev l₂ l₃ streamId cand mid rfl hsig hc ht hearly hafter
  have hf := session_follows o l₁
  have hnext := o.inSession_after l₁
  have hbare := h l₁ ev (l₂ ++ l₃) rfl streamId cand mid hsig hc ht
  rw [← hf.phase streamId] at hbare
  have hnone : (o.after l₁).pcs.lookup streamId = none := by
    cases hp : (o.after l₁).pcs.lookup streamId with
    | none => rfl
    | some pc =>
      rw [hp] at hbare
      exact absurd (by simp [phaseOf, hearly pc hp]) hbare
  refine pending_run (hnext.after_step ev) ?_ l₂ hafter
  rw [step_signal hnext.connected hsig, onSignal, addRemoteCandidate_of_none hc hnone, ht]
  simp [Manager.buffer]

/-- In a session every candidate waits for the description of its connection exactly when
no well-formed candidate of a stream arrives between the two. -/
theorem candidates_wait_iff (o : Opening) (evs : List Event) :
    DescribedFirst (o.calls ++ (step.run evs o.state).2) ∧ Kept o evs ↔
      (phases o.own).Along timely evs (startPhases o.own) :=
  ⟨fun h => (describedFirst_iff o evs).mp h.1,
    fun h => ⟨(describedFirst_iff o evs).mpr h, kept_of_timely o evs h⟩⟩

/-- A candidate for the publish stream arrives before the answer. -/
theorem early_candidate_applied : ¬ ∀ (o : Opening) (evs : List Event),
    DescribedFirst (o.calls ++ (step.run evs o.state).2) ∧ Kept o evs := by
  intro h
  have hd := (h .plain [(Signal.onRemoteCandidate "me" "candidate:1" "0").event .calm]).1
    (Opening.plain.calls) 0 ⟨"candidate:1", "0"⟩ true [] (by decide)
  exact absurd hd (by decide)

end ConferenceCall

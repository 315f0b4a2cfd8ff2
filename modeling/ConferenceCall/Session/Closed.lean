import ConferenceCall.Manager.Run

/-! Connections closed by the remote side. `subtrackAdded` looks at the state of a
stored connection; `startOffer`, `handleRemoteSDP` and `addRemoteCandidate` look at
its presence only, so they go on using one that is `Closed`. -/

namespace ConferenceCall

open Library

/-- The connection stored for a stream is `Closed`. -/
def Manager.storedClosed (m : Manager) (streamId : String) : Bool :=
  (m.pcs.lookup streamId).any m.isClosed

/-- The handler of a signal gets to use a connection that is `Closed`. -/
def Manager.misuses (m : Manager) (e : Env) : Signal → Bool
  | .onStartOfferer streamId => m.storedClosed streamId
  | .onRemoteSDP streamId type _ => m.storedClosed streamId && (type == "offer" || reaches e type)
  | .onRemoteCandidate streamId cand _ =>
    m.storedClosed streamId && !cand.isEmpty && !e.throws .candidate
  | _ => false

/-- Nothing is applied to a `Closed` connection, and an offer that gets a
connection leaves its stream with one that was not `Closed`. -/
structure SparesClosed (m : Manager) (ev : Event) : Prop where
  calls : ∀ c ∈ (step ev m).2, ∀ pc, c.call.negotiates = some pc → m.isClosed pc = false
  offer : ∀ streamId sdp, ev.what.signal = some (.onRemoteSDP streamId "offer" sdp) →
    blocked ev.env m streamId = false →
    ∃ pc, (step ev m).1.pcs.lookup streamId = some pc ∧ m.isClosed pc = false

variable {e : Env} {m : Manager} {ev : Event} {streamId : String}

theorem isClosed_nextPc (m : Manager) : m.isClosed m.nextPc = false := by
  simp [Manager.isClosed, Manager.nextPc]

/-- The connection an SDP goes to is `Closed` only when it was stored. -/
theorem isClosed_pcOf (m : Manager) (streamId : String) :
    m.isClosed (m.pcOf streamId) = m.storedClosed streamId := by
  cases h : m.pcs.lookup streamId with
  | none => simp [Manager.pcOf, Manager.storedClosed, h, isClosed_nextPc]
  | some pc => simp [Manager.pcOf, Manager.storedClosed, h]

theorem blocked_of_storedClosed (h : m.storedClosed streamId) : blocked e m streamId = false := by
  cases hp : m.pcs.lookup streamId <;> simp_all [Manager.storedClosed, blocked]

/-- The calls negotiate on no `Closed` connection. -/
def Spares (m : Manager) (calls : List Invocation) : Prop :=
  ∀ c ∈ calls, ∀ pc, c.call.negotiates = some pc → m.isClosed pc = false

theorem spares_nil (m : Manager) : Spares m [] := by simp [Spares]

theorem spares_singleton {c : Call} {ok : Bool} {pc : ℕ} (hc : c.negotiates = some pc) :
    Spares m [⟨c, ok⟩] ↔ m.isClosed pc = false := by
  simp [Spares, hc]

theorem startOffer_spares (streamId : String) (e : Env) (m : Manager) :
    Spares m (startOffer streamId e m).calls ↔ m.storedClosed streamId = false := by
  cases hp : m.pcs.lookup streamId with
  | none =>
    rw [startOffer_of_none hp]
    exact iff_of_true (spares_nil m) (by simp [Manager.storedClosed, hp])
  | some pc =>
    rw [startOffer_of_some hp, spares_singleton rfl, Manager.storedClosed, hp, Option.any_some]

theorem addRemoteCandidate_spares (streamId cand mid : String) (e : Env) (m : Manager) :
    Spares m (addRemoteCandidate streamId cand mid e m).calls ↔
      m.misuses e (.onRemoteCandidate streamId cand mid) = false := by
  cases hc : cand.isEmpty with
  | true =>
    rw [addRemoteCandidate_of_empty hc]
    exact iff_of_true (spares_nil m) (by simp [Manager.misuses, hc])
  | false =>
    cases hp : m.pcs.lookup streamId with
    | none =>
      rw [addRemoteCandidate_of_none hc hp]
      refine iff_of_true ?_ (by simp [Manager.misuses, Manager.storedClosed, hp])
      split_ifs <;> exact spares_nil m
    | some pc =>
      rw [addRemoteCandidate_of_some hc hp]
      cases ht : e.throws .candidate with
      | true => exact iff_of_true (spares_nil m) (by simp [Manager.misuses, ht])
      | false =>
        simp only [Bool.false_eq_true, if_false, Manager.misuses, Manager.storedClosed, hp,
          Option.any_some, hc, ht, Bool.not_false, Bool.and_true]
        exact spares_singleton rfl

/-- Without a description only the calls count. -/
theorem sparesClosed_of_calls (h : m.connected) {sig : Signal} (hs : ev.what.signal = some sig)
    (hsdp : ∀ s sdp, sig ≠ .onRemoteSDP s "offer" sdp) :
    SparesClosed m ev ↔ Spares m (onSignal sig ev.env m).calls := by
  have hcalls : (step ev m).2 = (onSignal sig ev.env m).calls := by rw [step_signal h hs]
  rw [← hcalls]
  refine ⟨fun hspare => hspare.calls, fun hc => ⟨hc, fun s sdp hoffer => ?_⟩⟩
  rw [hs] at hoffer
  exact absurd (Option.some.inj hoffer) (hsdp s sdp)

theorem sparesClosed_description (h : m.connected) {type sdp : String}
    (hs : ev.what.signal = some (.onRemoteSDP streamId type sdp)) :
    SparesClosed m ev ↔ m.misuses ev.env (.onRemoteSDP streamId type sdp) = false := by
  have hstep := step_signal h hs
  rw [onSignal] at hstep
  constructor
  · intro hspare
    by_contra hm
    simp only [Manager.misuses, Bool.not_eq_false, Bool.and_eq_true, Bool.or_eq_true,
      beq_iff_eq] at hm
    obtain ⟨hclosed, rfl | hr⟩ := hm
    · obtain ⟨pc, hpc, hopen⟩ := hspare.offer streamId sdp hs (blocked_of_storedClosed hclosed)
      rw [hstep, handleRemoteSDP_lookup _ _ (blocked_of_storedClosed hclosed)] at hpc
      cases hpc
      rw [isClosed_pcOf, hclosed] at hopen
      cases hopen
    · obtain ⟨ok, hc⟩ := handleRemoteSDP_applies type sdp (blocked_of_storedClosed hclosed) hr
      have hopen := hspare.calls _ (by rwa [hstep]) _ rfl
      rw [isClosed_pcOf, hclosed] at hopen
      cases hopen
  · intro hm
    refine ⟨fun c hc pc hn => ?_, fun s sdp' h hb => ?_⟩
    · rw [hstep] at hc
      rcases handleRemoteSDP_calls hc with hbuilds | ⟨hpc, hr⟩
      · rw [Call.negotiates_of_builds hbuilds] at hn
        cases hn
      · rw [hpc, Option.some.injEq] at hn
        rw [← hn, isClosed_pcOf]
        simpa [Manager.misuses, hr] using hm
    · rw [hs] at h
      cases h
      refine ⟨_, by rw [hstep]; exact handleRemoteSDP_lookup _ _ hb, ?_⟩
      rw [isClosed_pcOf]
      simpa [Manager.misuses] using hm

/-- A signal uses a `Closed` connection exactly when its handler gets that far. -/
theorem sparesClosed_signal (h : m.connected) {sig : Signal} (hs : ev.what.signal = some sig) :
    SparesClosed m ev ↔ m.misuses ev.env sig = false := by
  cases sig with
  | onStartOfferer streamId =>
    exact (sparesClosed_of_calls h hs (by simp)).trans (startOffer_spares streamId ev.env m)
  | onRemoteSDP streamId type sdp => exact sparesClosed_description h hs
  | onRemoteCandidate streamId cand mid =>
    exact (sparesClosed_of_calls h hs (by simp)).trans
      (addRemoteCandidate_spares streamId cand mid ev.env m)
  | _ =>
    refine (sparesClosed_of_calls h hs (by simp)).trans (iff_of_true ?_ rfl)
    intro c hc pc hn
    rw [onSignal_quiet rfl c hc] at hn
    cases hn

theorem sparesClosed_of_no_signal (h : m.connected) (hs : ev.what.signal = none) :
    SparesClosed m ev := by
  refine ⟨fun c hc pc hn => ?_, by simp [hs]⟩
  rw [(step_routine h hs c hc).1] at hn
  cases hn

theorem sparesClosed_iff (h : m.connected) (ev : Event) :
    SparesClosed m ev ↔ ∀ sig, ev.what.signal = some sig → m.misuses ev.env sig = false := by
  cases hs : ev.what.signal with
  | none => exact iff_of_true (sparesClosed_of_no_signal h hs) (by simp)
  | some sig => simpa using sparesClosed_signal h hs

/-- A session uses no `Closed` connection exactly when no signal whose handler gets that
far is received while the connection of its stream is `Closed`. -/
theorem session_spares_closed_iff (o : Opening) (evs : List Event) :
    step.Along (fun ev m => SparesClosed m ev) evs o.state ↔
      step.Along (fun ev m => ∀ sig, ev.what.signal = some sig → m.misuses ev.env sig = false)
        evs o.state :=
  Step.along_congr (I := InSession o.own o.room) (fun ev _ hm => hm.after_step ev)
    (fun ev _ hm => sparesClosed_iff hm.connected ev) evs o.state o.inSession

/-- The publish connection is closed remotely, then the server asks for an offer on it. -/
theorem offer_on_closed : ¬ ∀ (o : Opening) (evs : List Event),
    step.Along (fun ev m => SparesClosed m ev) evs o.state := by
  intro h
  have hc := (h .plain [⟨.peerClosed 0, .calm⟩, (Signal.onStartOfferer "me").event .calm]
    [⟨.peerClosed 0, .calm⟩] _ [] rfl).calls ⟨.setLocalDescription 0 .offer, true⟩
    (by decide) 0 rfl
  exact absurd hc (by decide)

end ConferenceCall

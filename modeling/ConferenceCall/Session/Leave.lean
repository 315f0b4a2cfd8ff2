import ConferenceCall.Manager.Run

/-! Leaving the room. `Stop2WayCommunication` sends the leave commands when the
stream id is set and `isPublisher` is true for it. -/

namespace ConferenceCall

open Library

/-- A description for the publish stream finds its connection. -/
def Callback.keepsPublisher (own : String) (cb : Callback) (m : Manager) : Prop :=
  ∀ type sdp, cb.signal = some (.onRemoteSDP own type sdp) → (m.pcs.lookup own).isSome

variable {own room : String} {m : Manager}

theorem relinked_isPublisher {e : Env} {sig : Signal} (h : m.isPublisher.lookup own = some true)
    (hkeep : ∀ type sdp, sig = .onRemoteSDP own type sdp → (m.pcs.lookup own).isSome) :
    (m.relinked e sig).isPublisher.lookup own = some true := by
  cases sig with
  | onRemoteSDP streamId type sdp =>
    simp only [Manager.relinked]
    split_ifs
    · exact h
    · cases hp : m.pcs.lookup streamId with
      | some pc => rwa [Manager.ensured_of_some hp]
      | none =>
        have hne : own ≠ streamId := by
          rintro rfl
          have hs := hkeep type sdp rfl
          simp [hp] at hs
        rw [Manager.ensured_of_none hp]
        simpa [Manager.withPeer, Dict.lookup_insert_eq, hne] using h
  | onPlayFinishedNotification streamId =>
    simp only [Manager.relinked]
    split_ifs <;> exact h
  | _ => exact h

/-- Being the publisher survives a step that does not make the publish peer anew. -/
theorem isPublisher_step {ev : Event} (hm : InSession own room m)
    (h : m.isPublisher.lookup own = some true) (hkeep : ev.what.keepsPublisher own m) :
    (step ev m).1.isPublisher.lookup own = some true := by
  have hchange := step_change ev hm.connected
  have hown := hm.publishStreamId
  obtain ⟨cb, e⟩ := ev
  generalize (step ⟨cb, e⟩ m).1 = m' at hchange ⊢
  cases hchange with
  | signal hsig =>
    rename_i sig
    obtain ⟨_, _, hs⟩ := onSignal_state sig e m
    rw [hs]
    refine relinked_isPublisher h fun type sdp hk => hkeep type sdp ?_
    rw [Callback.signal, hsig, hk]
  | context ctx _ _ => exact h
  | publisher _ _ => simp [Manager.withPublisher, hown]
  | publisherWithChannel _ _ _ => simp [Manager.withLocalChannel, Manager.withPublisher, hown]
  | track _ => exact h
  | channel _ _ => exact h
  | talk _ => exact h
  | closed pc => exact h

theorem isPublisher_start (o : Opening) : o.state.isPublisher.lookup o.own = some true := by
  rw [o.outcome_eq.1]
  simp [Opening.begun, Manager.withLocalChannel, Manager.withPublisher]

theorem publisher_kept (o : Opening) (evs : List Event)
    (hkeep : step.Along (fun ev m => ev.what.keepsPublisher o.own m) evs o.state) :
    (o.after evs).isPublisher.lookup o.own = some true := by
  have hinv : InSession o.own o.room (o.after evs) ∧
      (o.after evs).isPublisher.lookup o.own = some true :=
    Step.run_preserves
      (I := fun m => InSession o.own o.room m ∧ m.isPublisher.lookup o.own = some true)
      (fun ev m hm hk => ⟨hm.1.after_step ev, isPublisher_step hm.1 hm.2 hk⟩) evs o.state
      ⟨o.inSession, isPublisher_start o⟩ hkeep
  exact hinv.2

/-- Unless a description makes the publish peer anew, Stop tries all leave commands;
with an empty stream id it sends none. -/
theorem stop_leaves (o : Opening) (evs : List Event) (e : Env)
    (hkeep : o.own ≠ "" → step.Along (fun ev m => ev.what.keepsPublisher o.own m) evs o.state) :
    (stop2WayCommunication e (o.after evs)).calls =
      (if o.own = "" then [] else leaveCalls e o.own o.room) ++
        if (o.after evs).wsOpen then [⟨.closeSocket, true⟩] else [] := by
  have hm := o.inSession_after evs
  have hid := hm.publishStreamId
  obtain ⟨c, hc, hself, hroom⟩ := hm.signaling
  rw [stop2WayCommunication_calls hm.isCommunicating]
  by_cases hown : o.own = ""
  · have hl : (o.after evs).leaves = false := by simp [Manager.leaves, hid, hown]
    rw [sendLeave_of_not_leaves hl, if_pos hown]
  · have hpub := publisher_kept o evs (hkeep hown)
    have hctx : (o.after evs).signalingContext.isSome := by
      cases hx : (o.after evs).signalingContext <;> simp [Manager.signaling, hx] at hc ⊢
    have hl : (o.after evs).leaves := by
      rw [Manager.leaves, hid, hpub]
      simp [hctx, hown]
    rw [sendLeave_of_leaves hl hc, hself, hroom, if_neg hown]

/-- A session in which the server describes the publish peer and Stop says goodbye. -/
theorem stop_leaves_plain : (stop2WayCommunication .calm (Opening.plain.after
      [(Signal.onRemoteSDP "me" "answer" "").event .calm])).calls =
    leaveCalls .calm "me" "room" := by
  refine (stop_leaves .plain _ .calm fun _ => ?_).trans (by decide)
  exact Step.along_cons.mpr ⟨fun _ _ _ => by decide, Step.along_nil _ _⟩

/-- A start without a stream id succeeds; its Stop does not leave. -/
def Opening.nameless : Opening where
  before := { signalingServerUrl := "ws" }
  isPlayer := false
  env := .calm
  idle := idle_new "ws" "room1" ""
  opened := by decide

theorem nameless_stop_silent : ¬ ∀ (o : Opening) (evs : List Event) (e : Env),
    ∃ rest, (stop2WayCommunication e (o.after evs)).calls =
      leaveCalls e o.own o.room ++ rest := by
  intro h
  obtain ⟨rest, hr⟩ := h .nameless [] .calm
  have hnil : (stop2WayCommunication .calm (Opening.nameless.after [])).calls = [] := by decide
  rw [hnil] at hr
  cases hr

end ConferenceCall

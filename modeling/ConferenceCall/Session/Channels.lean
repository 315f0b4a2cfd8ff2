import ConferenceCall.Manager.Effects

/-! Data channels announced by the remote side. The handler of `onDataChannel`
returns before it attaches anything when the label is in the map. An entry goes away
only with a stream whose id is the label, and then its channel goes too, on whatever
connection it was announced. -/

namespace ConferenceCall

open Library

namespace Manager

/-- The connection is stored for some stream. -/
def held (m : Manager) (pc : ℕ) : Prop := ∃ streamId, m.pcs.lookup streamId = some pc

/-- Every text on the announced channel reaches `handleDataChannelText`. -/
def serves (m : Manager) (id : ℕ) : Prop :=
  ∀ e text, deliver (.channelText (.remote id) text) e m = handleDataChannelText text e m

end Manager

/-- A channel announced on a stored connection has a label not in use. -/
def Callback.labelsFresh (cb : Callback) (m : Manager) : Prop :=
  ∀ pc id label, cb = .dataChannel pc id label → m.announces pc → m.held pc →
    m.remoteDataChannels.lookup label = none

/-- The server says that a stream is over, and names it. -/
def Callback.finishes (cb : Callback) (streamId : String) : Prop :=
  cb.signal = some (.onPlayFinishedNotification streamId) ∧ streamId.isEmpty = false

/-- The channel was announced on a connection with an `onDataChannel` slot. -/
def Opening.announced (o : Opening) (evs : List Event) (pc id : ℕ) : Prop :=
  ∃ l₁ e label l₂, evs = l₁ ++ ⟨.dataChannel pc id label, e⟩ :: l₂ ∧ (o.after l₁).announces pc

/-- No stream is over while its id labels a channel announced on the connection of another
stream. -/
def Opening.channelsSpared (o : Opening) (evs : List Event) : Prop :=
  ∀ l₁ ev l₂ streamId other pc id, evs = l₁ ++ ev :: l₂ → ev.what.finishes streamId →
    o.announced l₁ pc id → other ≠ streamId → (o.after l₁).pcs.lookup other = some pc →
    (o.after l₁).remoteDataChannels.lookup streamId ≠ some (.remote id)

variable {own room : String} {m : Manager} {pc id : ℕ}

theorem serves_of_isSome (h : (m.channelHandlers.lookup (.remote id)).isSome) : m.serves id := by
  obtain ⟨label, hl⟩ := Option.isSome_iff_exists.mp h
  exact fun e text => deliver_channelText_of_some hl text

/-! ### Connections are stored when they are made -/

theorem held_withPeer (streamId : String) (needDC : Bool)
    (h : (m.withPeer streamId needDC).held pc) : m.held pc ∨ pc = m.nextPc := by
  obtain ⟨s, hs⟩ := h
  simp only [Manager.withPeer, Dict.lookup_insert_eq] at hs
  split_ifs at hs
  · exact .inr (Option.some.inj hs).symm
  · exact .inl ⟨s, hs⟩

theorem held_withPublisher {streamId : String}
    (h : ((m.setWsOpen true).withPublisher streamId).held pc) : m.held pc ∨ pc = m.nextPc :=
  held_withPeer (m := m.setWsOpen true) streamId true h

theorem held_withoutPeer {streamId : String} (h : (m.withoutPeer streamId).held pc) : m.held pc := by
  obtain ⟨s, hs⟩ := h
  simp only [Manager.withoutPeer, Dict.lookup_erase_eq] at hs
  split_ifs at hs
  exact ⟨s, hs⟩

theorem held_relinked {e : Env} {sig : Signal} (h : (m.relinked e sig).held pc) :
    m.held pc ∨ pc = m.nextPc := by
  cases sig with
  | onRemoteSDP streamId type sdp =>
    simp only [Manager.relinked] at h
    split_ifs at h
    · exact .inl h
    · cases hp : m.pcs.lookup streamId with
      | none =>
        rw [Manager.ensured_of_none hp] at h
        exact held_withPeer streamId _ h
      | some pc' =>
        rw [Manager.ensured_of_some hp] at h
        exact .inl h
  | onPlayFinishedNotification streamId =>
    simp only [Manager.relinked] at h
    split_ifs at h
    · exact .inl h
    · exact .inl (held_withoutPeer h)
  | _ => exact .inl h

/-- A step stores no other connection than a new one. -/
theorem held_step (ev : Event) (h : m.connected) (hpc : (step ev m).1.held pc) :
    m.held pc ∨ pc = m.nextPc := by
  have hchange := step_change ev h
  obtain ⟨cb, e⟩ := ev
  generalize (step ⟨cb, e⟩ m).1 = m' at hchange hpc
  cases hchange with
  | signal hsig =>
    rename_i sig
    obtain ⟨_, _, hs⟩ := onSignal_state sig e m
    rw [hs] at hpc
    exact held_relinked hpc
  | publisher _ _ => exact held_withPublisher hpc
  | publisherWithChannel _ _ _ => exact held_withPublisher hpc
  | _ => exact .inl hpc

/-! ### Handlers go with their channels -/

/-- The channels in the local map are local ones. -/
def Manager.localsLocal (m : Manager) : Prop :=
  ∀ streamId ch, m.localDataChannels.lookup streamId = some ch → ∃ pc, ch = .local pc

theorem localsLocal_effect {m' : Manager} (he : Effect m m') (h : m.localsLocal) :
    m'.localsLocal := by
  cases he with
  | localChannel hpc =>
    intro streamId ch hch
    simp only [Manager.withLocalChannel, Dict.lookup_insert_eq] at hch
    split_ifs at hch
    · exact ⟨_, (Option.some.inj hch).symm⟩
    · exact h streamId ch hch
  | removed streamId =>
    intro streamId' ch hch
    simp only [Manager.withoutPeer, Dict.lookup_erase_eq] at hch
    split_ifs at hch
    exact h streamId' ch hch
  | cleared => exact fun _ _ hch => by simp [Manager.cleared] at hch
  | _ => exact h

theorem Opening.localsLocal_after (o : Opening) (evs : List Event) : (o.after evs).localsLocal := by
  have hm := o.inSession
  have hstart : o.state.localsLocal := by
    rw [o.outcome_eq.1]
    intro streamId ch hch
    simp only [begun, prepared, Manager.withLocalChannel, Manager.withPublisher, Manager.withPeer,
      o.idle.localDataChannels, Dict.lookup_insert_eq] at hch
    split_ifs at hch
    · exact ⟨_, (Option.some.inj hch).symm⟩
    · simp at hch
  have hrun : InSession o.own o.room (o.after evs) ∧ (o.after evs).localsLocal :=
    Step.run_invariant (I := fun m => InSession o.own o.room m ∧ m.localsLocal)
    (fun ev m hm => ⟨hm.1.after_step ev,
      (Effects.change (step_change ev hm.1.connected)).invariant
        (fun _ _ he hl => localsLocal_effect he hl) hm.2⟩)
    evs o.state ⟨hm, hstart⟩
  exact hrun.2

/-- A removal takes the handlers of the removed channels only. -/
theorem handler_withoutPeer (hl : m.localsLocal) {streamId : String}
    (h : (m.channelHandlers.lookup (.remote id)).isSome)
    (hne : m.remoteDataChannels.lookup streamId ≠ some (.remote id)) :
    ((m.withoutPeer streamId).channelHandlers.lookup (.remote id)).isSome := by
  have hlocal : some (Channel.remote id) ≠ m.localDataChannels.lookup streamId := by
    intro hk
    obtain ⟨pc, hpc⟩ := hl streamId _ hk.symm
    cases hpc
  simpa only [Manager.withoutPeer, Manager.handlersWithout, Dict.lookup_eraseKey_eq,
    if_neg hne.symm, if_neg hlocal] using h

/-- A step takes no other handler than those of the channels it removes. -/
theorem handler_step (ev : Event) (h : m.connected) (hl : m.localsLocal)
    (hch : (m.channelHandlers.lookup (.remote id)).isSome)
    (hne : ∀ streamId, ev.what.finishes streamId →
      m.remoteDataChannels.lookup streamId ≠ some (.remote id)) :
    ((step ev m).1.channelHandlers.lookup (.remote id)).isSome := by
  have hchange := step_change ev h
  obtain ⟨cb, e⟩ := ev
  generalize (step ⟨cb, e⟩ m).1 = m' at hchange ⊢
  cases hchange with
  | signal hsig =>
    rename_i sig
    obtain ⟨_, _, hs⟩ := onSignal_state sig e m
    rw [hs]
    cases sig with
    | onRemoteSDP streamId type sdp =>
      simp only [Manager.relinked]
      split_ifs
      · exact hch
      · cases hp : m.pcs.lookup streamId <;> simpa [Manager.ensured, hp, Manager.withPeer] using hch
    | onPlayFinishedNotification streamId =>
      simp only [Manager.relinked]
      split_ifs with he
      · exact hch
      · exact handler_withoutPeer hl hch (hne streamId ⟨hsig, by simpa using he⟩)
    | _ => exact hch
  | publisherWithChannel _ _ _ =>
    simpa [Manager.withLocalChannel, Manager.withPublisher, Manager.withPeer, Manager.setWsOpen,
      Dict.lookup_insert_eq] using hch
  | channel _ _ =>
    simp only [Dict.lookup_insert_eq]
    split_ifs
    · rfl
    · exact hch
  | _ => exact hch

/-! ### Announced channels -/

theorem announces_lt (h : m.announces pc) : pc < m.nextPc := by
  by_contra hlt
  rw [Manager.announces, List.getElem?_eq_none (by simpa [Manager.nextPc] using hlt)] at h
  cases h

theorem step_announces {e : Env} {label : String} (h : m.announces pc)
    (hl : m.remoteDataChannels.lookup label = none) :
    ((step ⟨.dataChannel pc id label, e⟩ m).1.channelHandlers.lookup (.remote id)).isSome := by
  simp [step, stepOf, deliver, h, onDataChannel, hl]

theorem Opening.channelsSpared.of_append {o : Opening} {evs more : List Event}
    (h : o.channelsSpared (evs ++ more)) : o.channelsSpared evs := by
  rintro l₁ ev l₂ streamId other pc id rfl
  exact h l₁ ev (l₂ ++ more) streamId other pc id (by simp)

/-- What a removal leaves stored belongs to another stream. -/
theorem held_finished {ev : Event} {streamId : String} (h : m.connected)
    (hf : ev.what.finishes streamId) (hpc : (step ev m).1.held pc) :
    ∃ other, other ≠ streamId ∧ m.pcs.lookup other = some pc := by
  rw [step_signal h hf.1] at hpc
  obtain ⟨_, _, hs⟩ := onSignal_state (.onPlayFinishedNotification streamId) ev.env m
  obtain ⟨other, ho⟩ := hpc
  rw [hs] at ho
  simp only [Manager.relinked, hf.2, Bool.false_eq_true, if_false, Manager.withoutPeer,
    Dict.lookup_erase_eq] at ho
  split_ifs at ho with hne
  exact ⟨other, hne, ho⟩

/-- An announced channel keeps its handler as long as its connection is stored. -/
theorem handler_kept (o : Opening) (l₁ : List Event) (e : Env) (label : String)
    (hann : (o.after l₁).announces pc)
    (hl : (o.after l₁).held pc → (o.after l₁).remoteDataChannels.lookup label = none)
    (l₂ : List Event) (hspared : o.channelsSpared (l₁ ++ ⟨.dataChannel pc id label, e⟩ :: l₂))
    (hheld : (o.after (l₁ ++ ⟨.dataChannel pc id label, e⟩ :: l₂)).held pc) :
    ((o.after (l₁ ++ ⟨.dataChannel pc id label, e⟩ :: l₂)).channelHandlers.lookup
      (.remote id)).isSome := by
  have hm₁ := o.inSession_after l₁
  have hlt := announces_lt hann
  induction l₂ using List.reverseRecOn with
  | nil =>
    rw [o.after_concat] at hheld ⊢
    refine step_announces hann (hl ?_)
    exact (held_step _ hm₁.connected hheld).resolve_right hlt.ne
  | append_singleton l₂ ev ih =>
    have hsplit : l₁ ++ (⟨.dataChannel pc id label, e⟩ : Event) :: (l₂ ++ [ev]) =
        (l₁ ++ ⟨.dataChannel pc id label, e⟩ :: l₂) ++ [ev] := by simp
    rw [hsplit] at hspared hheld ⊢
    have hm := o.inSession_after (l₁ ++ ⟨.dataChannel pc id label, e⟩ :: l₂)
    have hle : (o.after l₁).nextPc ≤
        (o.after (l₁ ++ ⟨.dataChannel pc id label, e⟩ :: l₂)).nextPc := by
      rw [o.after_append]
      exact nextPc_run hm₁ _
    rw [o.after_concat] at hheld ⊢
    have hbefore := (held_step ev hm.connected hheld).resolve_right (hlt.trans_le hle).ne
    refine handler_step ev hm.connected (o.localsLocal_after _)
      (ih hspared.of_append hbefore) fun streamId hf => ?_
    obtain ⟨other, hne, ho⟩ := held_finished hm.connected hf hheld
    exact hspared _ ev [] streamId other pc id rfl hf ⟨l₁, e, label, l₂, rfl, hann⟩ hne ho

/-- When no channel is announced under a label in use, and no stream is over whose id labels a
channel on the connection of another stream, every channel announced on a connection that is
still stored is served. -/
theorem announced_channel_served (o : Opening) (evs : List Event)
    (hfresh : step.Along (fun ev m => ev.what.labelsFresh m) evs o.state)
    (hspared : o.channelsSpared evs) :
    ∀ l₁ e l₂ pc id label, evs = l₁ ++ ⟨.dataChannel pc id label, e⟩ :: l₂ →
      (o.after l₁).announces pc → (o.after evs).held pc → (o.after evs).serves id := by
  rintro l₁ e l₂ pc id label rfl hann hheld
  exact serves_of_isSome (handler_kept o l₁ e label hann
    (fun hthen => hfresh l₁ _ l₂ rfl pc id label rfl hann hthen) l₂ hspared hheld)

/-- The room connection goes away and comes back; its channels are labelled by the room. -/
def rejoinLabelled : List Event :=
  [(Signal.onRemoteSDP "room" "offer" "").event .calm, ⟨.dataChannel 1 0 "room", .calm⟩,
    (Signal.onPlayFinishedNotification "room").event .calm,
    (Signal.onRemoteSDP "room" "offer" "").event .calm, ⟨.dataChannel 2 1 "room", .calm⟩]

theorem rejoinLabelled_fresh :
    step.Along (fun ev m => ev.what.labelsFresh m) rejoinLabelled Opening.plain.state := by
  have hsignal (sig : Signal) (m : Manager) : (sig.event .calm).what.labelsFresh m :=
    fun _ _ _ h => (by cases h)
  have hchannel (pc id : ℕ) (m : Manager) (h : m.remoteDataChannels.lookup "room" = none) :
      (Callback.dataChannel pc id "room").labelsFresh m := by
    rintro _ _ _ ⟨⟩ - -
    exact h
  simp only [rejoinLabelled, Step.along_cons]
  exact ⟨hsignal _ _, hchannel _ _ _ (by decide), hsignal _ _, hsignal _ _,
    hchannel _ _ _ (by decide), Step.along_nil _ _⟩

/-- The one channel that goes was announced on the connection that goes. -/
theorem rejoinLabelled_spared : Opening.plain.channelsSpared rejoinLabelled := by
  rintro l₁ ev l₂ streamId other pc id heq ⟨hsig, -⟩ ⟨a, e, label, b, rfl, -⟩ hne ho -
  have hsignal {sig : Signal} (h : (sig.event .calm).what.signal =
      some (.onPlayFinishedNotification streamId)) : sig = .onPlayFinishedNotification streamId := by
    simpa using h
  rcases a with _ | ⟨_, _ | ⟨_, _ | ⟨_, _ | ⟨_, a⟩⟩⟩⟩
  · cases heq
  · -- the first channel is there
    rcases b with _ | ⟨_, _ | ⟨_, b⟩⟩
    · cases heq
      cases hsignal hsig
      exact hne ((Opening.plain.inSession_after _).owned.inj ho (by decide))
    · cases heq
      cases hsignal hsig
    · rcases b with _ | ⟨_, b⟩
      · cases heq
        cases hsig
      · simp [rejoinLabelled] at heq
  · cases heq
  · cases heq
  · rcases a with _ | ⟨_, a⟩ <;> simp [rejoinLabelled] at heq

/-- The second channel is served. -/
theorem relabelled_channel_served : (Opening.plain.after rejoinLabelled).serves 1 :=
  announced_channel_served .plain _ rejoinLabelled_fresh rejoinLabelled_spared
    (rejoinLabelled.take 4) .calm [] 2 1 "room" rfl (by decide) ⟨"room", by decide⟩

/-- The same with another label. -/
def rejoinRoom : List Event :=
  [(Signal.onRemoteSDP "room" "offer" "").event .calm, ⟨.dataChannel 1 0 "chat", .calm⟩,
    (Signal.onPlayFinishedNotification "room").event .calm,
    (Signal.onRemoteSDP "room" "offer" "").event .calm]

/-- Its second channel is not served, although its connection is stored. -/
theorem rejoined_channel_unserved : ¬ ∀ (o : Opening) (evs l₁ : List Event) (e : Env)
    (l₂ : List Event) (pc id : ℕ) (label : String),
    evs = l₁ ++ ⟨.dataChannel pc id label, e⟩ :: l₂ → (o.after l₁).announces pc →
      (o.after evs).held pc → (o.after evs).serves id := by
  intro h
  have hs := h .plain _ rejoinRoom .calm [] 2 1 "chat" rfl (by decide) ⟨"room", by decide⟩ .calm
    (some (.object [("eventType", .string "MESSAGE_RECEIVED"), ("senderId", .string "bob"),
      ("message", .string "iamtalking")]))
  have htalk := congrArg (fun r => r.state.isStreamTalking.lookup "bob") hs
  exact absurd htalk (by decide)

end ConferenceCall

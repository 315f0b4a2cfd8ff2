import ConferenceCall.Manager.Run

/-! Playing announced streams. A stream announced after its last removal is not yet
marked in `sendPlay`, so whether its play command goes out depends on the connection
that may be left from its last presence. -/

namespace ConferenceCall

open Library

/-- An announcement (`true`) or a removal (`false`) of a stream. -/
def Callback.notice (trackId : String) (cb : Callback) : Option Bool :=
  match cb.signal with
  | some (.onSubtrackAddedNotification t) => if t = trackId then some true else none
  | some (.onSubtrackRemovedNotification t) => if t = trackId then some false else none
  | _ => none

/-- The last announcement or removal of a stream. -/
def lastNotice (trackId : String) (evs : List Event) : Option Bool :=
  evs.reverse.findSome? fun ev => ev.what.notice trackId

variable {own room trackId : String} {m : Manager} {e : Env}

theorem lastNotice_concat (evs : List Event) (ev : Event) :
    lastNotice trackId (evs ++ [ev]) = (ev.what.notice trackId).or (lastNotice trackId evs) := by
  simp [lastNotice, List.findSome?_cons]
  cases ev.what.notice trackId <;> rfl

theorem notice_of_lastNotice_none {evs : List Event} (h : lastNotice trackId evs = none) :
    ∀ ev ∈ evs, ev.what.notice trackId = none := by
  simpa [lastNotice] using h

/-! ### Which streams are marked -/

/-- Only its announcement marks a stream that is not the room. -/
theorem onSignal_unmarked {sig : Signal} (hroom : trackId ≠ m.roomId)
    (hsig : sig ≠ .onSubtrackAddedNotification trackId) (h : m.sendPlay.lookup trackId = none) :
    (onSignal sig e m).state.sendPlay.lookup trackId = none := by
  obtain ⟨_, _, hs⟩ := onSignal_state sig e m
  rw [hs]
  exact sendPlayAfter_lookup_none hroom (fun hk => absurd hk hsig) h

theorem step_unmarked {ev : Event} (hm : InSession own room m) (hroom : trackId ≠ room)
    (hev : ev.what.signal ≠ some (.onSubtrackAddedNotification trackId))
    (h : m.sendPlay.lookup trackId = none) : (step ev m).1.sendPlay.lookup trackId = none := by
  cases hs : ev.what.signal with
  | some sig =>
    rw [step_signal hm.connected hs]
    exact onSignal_unmarked (by rwa [hm.roomId]) (fun hk => hev (by rw [hs, hk])) h
  | none =>
    have hchange := step_change ev hm.connected
    obtain ⟨cb, e⟩ := ev
    generalize (step ⟨cb, e⟩ m).1 = m' at hchange ⊢
    cases hchange with
    | signal hsig => simp [Callback.signal, hsig] at hs
    | _ => exact h

theorem step_removed {ev : Event} (hm : InSession own room m) (hne : trackId ≠ "")
    (hev : ev.what.signal = some (.onSubtrackRemovedNotification trackId)) :
    (step ev m).1.sendPlay.lookup trackId = none := by
  rw [step_signal hm.connected hev, onSignal, onSubtrackRemovedNotification_apply]
  simp [hne]

/-- A stream whose last notice is not an announcement is unmarked. -/
theorem unmarked_of_lastNotice (o : Opening) (hroom : trackId ≠ o.room) (hne : trackId ≠ "")
    (evs : List Event) (h : lastNotice trackId evs ≠ some true) :
    (o.after evs).sendPlay.lookup trackId = none := by
  induction evs using List.reverseRecOn with
  | nil =>
    have hstart : o.state.sendPlay = ∅ := by
      rw [o.outcome_eq.1]
      exact o.idle.sendPlay
    simp [Opening.after, hstart]
  | append_singleton evs ev ih =>
    have hm := o.inSession_after evs
    have hafter : o.after (evs ++ [ev]) = (step ev (o.after evs)).1 := by
      simp [Opening.after, Step.run_append]
    rw [lastNotice_concat] at h
    rw [hafter]
    by_cases hev : ev.what.signal = some (.onSubtrackRemovedNotification trackId)
    · exact step_removed hm hne hev
    · have hadd : ev.what.signal ≠ some (.onSubtrackAddedNotification trackId) := by
        intro hadd
        simp [Callback.notice, hadd] at h
      have hnone : ev.what.notice trackId = none := by
        unfold Callback.notice
        split
        · rename_i t ht
          exact if_neg fun heq => hadd (by rw [ht, heq])
        · rename_i t ht
          exact if_neg fun heq => hev (by rw [ht, heq])
        · rfl
      rw [hnone, Option.none_or] at h
      exact step_unmarked hm hroom hadd (ih h)

/-! ### Which steps ask for a stream -/

/-- A stream is asked for when it is announced, the room when publishing starts unless it is
marked, and when its own play is over. -/
theorem onSignal_asks {sig : Signal} {c : Invocation} (hc : c ∈ (onSignal sig e m).calls)
    (hp : c.call.plays = some trackId) :
    (sig = .onSubtrackAddedNotification trackId ∧ m.plays trackId) ∨
      (∃ client, m.signaling = some client ∧ trackId = client.roomId) ∧
        (sig = .onPublishStartedNotification ∧ m.sendPlay.lookup m.roomId = none ∨
          sig = .onPlayFinishedNotification m.roomId ∧ m.roomId.isEmpty = false) := by
  have hroomPlay {site : Site} (hc : c ∈ m.sent e site (·.sendPlayRoom)) :
      ∃ client, m.signaling = some client ∧ trackId = client.roomId := by
    obtain ⟨client, room, hs, hb⟩ := sent_plays hc hp
    cases hb
    exact ⟨client, hs, rfl⟩
  cases sig with
  | onStartOfferer streamId =>
    cases hl : m.pcs.lookup streamId with
    | none => simp [onSignal, startOffer_of_none hl] at hc
    | some pc =>
      rw [onSignal, startOffer_of_some hl, List.mem_singleton] at hc
      rw [hc] at hp
      cases hp
  | onRemoteSDP streamId type sdp =>
    rcases handleRemoteSDP_calls hc with hb | ⟨hn, -⟩
    · rw [Call.plays_of_builds hb] at hp
      cases hp
    · rw [Call.plays_of_negotiates hn] at hp
      cases hp
  | onRemoteCandidate streamId cand mid =>
    cases hce : cand.isEmpty with
    | true => simp [onSignal, addRemoteCandidate_of_empty hce] at hc
    | false =>
      cases hl : m.pcs.lookup streamId with
      | none =>
        rw [onSignal, addRemoteCandidate_of_none hce hl] at hc
        split_ifs at hc <;> cases hc
      | some pc =>
        rw [onSignal, addRemoteCandidate_of_some hce hl] at hc
        cases ht : e.throws .candidate with
        | true => simp [ht] at hc
        | false =>
          simp only [ht, Bool.false_eq_true, if_false, List.mem_singleton] at hc
          rw [hc] at hp
          cases hp
  | onJoinedRoomNotification =>
    rw [onSignal, onJoinedRoomNotification_apply] at hc
    obtain ⟨client, room, -, hb⟩ := sent_plays hc hp
    cases hb
  | onPublishStartedNotification =>
    cases hl : m.sendPlay.lookup m.roomId with
    | none =>
      rw [onSignal, onPublishStartedNotification_of_none hl] at hc
      exact .inr ⟨hroomPlay hc, .inl ⟨rfl, rfl⟩⟩
    | some b => simp [onSignal, onPublishStartedNotification_of_some hl] at hc
  | onPlayStartedNotification streamId => simp [onSignal, onPlayStartedNotification_apply] at hc
  | onPlayFinishedNotification streamId =>
    have hremoval (hc : c ∈ removalCalls e m streamId) : False := by
      rw [(removalCalls_routine c hc).2] at hp
      cases hp
    cases hs : streamId.isEmpty with
    | true => simp [onSignal, onPlayFinishedNotification_of_empty hs] at hc
    | false =>
      by_cases hr : streamId = m.roomId
      · rw [onSignal, onPlayFinishedNotification_of_room hs hr] at hc
        rcases List.mem_append.mp hc with hc | hc
        · exact (hremoval hc).elim
        · exact .inr ⟨hroomPlay hc, .inr ⟨by rw [hr], by rwa [← hr]⟩⟩
      · rw [onSignal, onPlayFinishedNotification_of_other hs hr] at hc
        exact (hremoval hc).elim
  | onSubtrackAddedNotification t =>
    cases hl : m.plays t with
    | true =>
      rw [onSignal, onSubtrackAddedNotification_of_plays hl] at hc
      obtain ⟨client, room, -, hb⟩ := sent_plays hc hp
      cases hb
      exact .inl ⟨rfl, hl⟩
    | false => simp [onSignal, onSubtrackAddedNotification_of_not_plays hl] at hc
  | onSubtrackRemovedNotification t => simp [onSignal, onSubtrackRemovedNotification_apply] at hc

theorem step_asks {ev : Event} (hm : InSession own room m) (hroom : trackId ≠ room)
    (hev : ev.what.signal ≠ some (.onSubtrackAddedNotification trackId)) :
    ∀ c ∈ (step ev m).2, c.call.plays ≠ some trackId := by
  intro c hc hp
  cases hs : ev.what.signal with
  | none =>
    rw [(step_routine hm.connected hs c hc).2] at hp
    cases hp
  | some sig =>
    rw [step_signal hm.connected hs] at hc
    rcases onSignal_asks hc hp with ⟨hk, -⟩ | ⟨⟨client, hclient, hk⟩, -⟩
    · exact hev (by rw [hs, hk])
    · obtain ⟨client', hclient', -, hr⟩ := hm.signaling
      rw [hclient, Option.some.injEq] at hclient'
      exact hroom (by rw [hk, hclient', hr])

theorem run_asks {evs : List Event} (hm : InSession own room m) (hroom : trackId ≠ room)
    (hevs : ∀ ev ∈ evs, ev.what.signal ≠ some (.onSubtrackAddedNotification trackId)) :
    ∀ c ∈ (step.run evs m).2, c.call.plays ≠ some trackId := by
  induction evs generalizing m with
  | nil => simp
  | cons ev evs ih =>
    intro c hc
    rw [Step.run_cons, List.mem_append] at hc
    rcases hc with hc | hc
    · exact step_asks hm hroom (hevs ev (by simp)) c hc
    · exact ih (hm.after_step ev) (fun ev' h => hevs ev' (by simp [h])) c hc

/-! ### The announcement -/

/-- An unmarked stream is played when nothing is left of its connection. -/
theorem step_announced {ev : Event} (hm : InSession own room m) (hown : trackId ≠ own)
    (hun : m.sendPlay.lookup trackId = none)
    (hev : ev.what.signal = some (.onSubtrackAddedNotification trackId)) :
    ⟨.send (.play room trackId), true⟩ ∈ (step ev m).2 ↔
      trackId ≠ "" ∧ m.hasLivePeer trackId = false ∧ ev.env.throws .sendPlayStream = false := by
  obtain ⟨client, hclient, -, hr⟩ := hm.signaling
  have hplays : m.plays trackId = (!trackId.isEmpty && !m.hasLivePeer trackId) := by
    have hne : (trackId != own) = true := by simpa using hown
    simp [Manager.plays, Manager.playSent, hun, hm.publishStreamId, hne]
  rw [step_signal hm.connected hev, onSignal]
  cases hp : m.plays trackId with
  | true =>
    rw [onSubtrackAddedNotification_of_plays hp]
    rw [hp] at hplays
    obtain ⟨hne, hl⟩ : trackId ≠ "" ∧ m.hasLivePeer trackId = false := by simpa using hplays.symm
    simp [Manager.sent, hclient, SignalingCommand.sendPlayStream, hr, hne, hl]
  | false =>
    rw [onSubtrackAddedNotification_of_not_plays hp]
    rw [hp] at hplays
    simp only [List.not_mem_nil, false_iff]
    rintro ⟨hne, hl, -⟩
    simp [hne, hl] at hplays

/-- A stream announced after its last removal, and not removed again, has been played
exactly when the announcement found no live connection of it and the command went out. -/
theorem announced_played (o : Opening) (hown : trackId ≠ o.own) (hroom : trackId ≠ o.room)
    (pre : List Event) (ev : Event) (post : List Event) (hpre : lastNotice trackId pre ≠ some true)
    (hev : ev.what.signal = some (.onSubtrackAddedNotification trackId))
    (hpost : lastNotice trackId post = none) :
    ⟨.send (.play o.room trackId), true⟩ ∈ (step.run (ev :: post) (o.after pre)).2 ↔
      trackId ≠ "" ∧ (o.after pre).hasLivePeer trackId = false ∧
        ev.env.throws .sendPlayStream = false := by
  have hm := o.inSession_after pre
  have hrest : ⟨.send (.play o.room trackId), true⟩ ∉
      (step.run post (step ev (o.after pre)).1).2 := by
    refine fun hc => run_asks (hm.after_step ev) hroom (fun ev' h' hadd => ?_) _ hc rfl
    have hn := notice_of_lastNotice_none hpost ev' h'
    simp [Callback.notice, hadd] at hn
  rw [Step.run_cons, List.mem_append, or_iff_left hrest]
  by_cases hne : trackId = ""
  · subst hne
    have hempty : (o.after pre).plays "" = false := by simp [Manager.plays]
    rw [step_signal hm.connected hev, onSignal, onSubtrackAddedNotification_of_not_plays hempty]
    simp
  · exact step_announced hm hown (unmarked_of_lastNotice o hroom hne pre hpre) hev

/-! ### Presences -/

inductive Stage where
  | away | announced | offered
  deriving DecidableEq

/-- How far the current presence of a stream has come, and how many `play_finished` of
it and of earlier ones are still to come. -/
structure Presence where
  stage : Stage := .away
  owed : ℕ := 0
  deriving DecidableEq

/-- Each presence is announced, offered, then removed; its `play_finished` comes at any
time after the offer. -/
def Presence.next (trackId : String) (p : Presence) : Option Signal → Option Presence
  | some (.onSubtrackAddedNotification t) =>
    if t = trackId then if p.stage = .away then some { p with stage := .announced } else none
    else some p
  | some (.onRemoteSDP t type _) =>
    if t = trackId then
      if p.stage = .announced ∧ type = "offer" then some ⟨.offered, p.owed + 1⟩ else none
    else some p
  | some (.onSubtrackRemovedNotification t) =>
    if t = trackId then if p.stage = .offered then some { p with stage := .away } else none
    else some p
  | some (.onPlayFinishedNotification t) =>
    if t = trackId then if 0 < p.owed then some { p with owed := p.owed - 1 } else none
    else some p
  | _ => some p

/-- The messages of a stream form successive presences. -/
def presences (trackId : String) (evs : List Event) : Option Presence :=
  evs.foldlM (fun p ev => p.next trackId ev.what.signal) {}

theorem Presence.next_stage {p q : Presence} {cb : Callback}
    (h : p.next trackId cb.signal = some q) :
    (cb.notice trackId = none → (q.stage = .away ↔ p.stage = .away)) ∧
      ∀ b, cb.notice trackId = some b → (q.stage = .away ↔ b = false) := by
  cases hs : cb.signal with
  | none =>
    rw [hs] at h
    cases h
    simp [Callback.notice, hs]
  | some sig =>
    rw [hs] at h
    cases sig with
    | onSubtrackAddedNotification t =>
      by_cases ht : t = trackId
      · simp only [Presence.next, ht, if_true, Option.ite_none_right_eq_some,
          Option.some.injEq] at h
        obtain ⟨-, rfl⟩ := h
        simp [Callback.notice, hs, ht]
      · simp only [Presence.next, ht, if_false, Option.some.injEq] at h
        subst h
        simp [Callback.notice, hs, ht]
    | onRemoteSDP t type sdp =>
      by_cases ht : t = trackId
      · simp only [Presence.next, ht, if_true, Option.ite_none_right_eq_some,
          Option.some.injEq] at h
        obtain ⟨⟨hp, -⟩, rfl⟩ := h
        simp [Callback.notice, hs, hp]
      · simp only [Presence.next, ht, if_false, Option.some.injEq] at h
        subst h
        simp [Callback.notice, hs]
    | onSubtrackRemovedNotification t =>
      by_cases ht : t = trackId
      · simp only [Presence.next, ht, if_true, Option.ite_none_right_eq_some,
          Option.some.injEq] at h
        obtain ⟨-, rfl⟩ := h
        simp [Callback.notice, hs, ht]
      · simp only [Presence.next, ht, if_false, Option.some.injEq] at h
        subst h
        simp [Callback.notice, hs, ht]
    | onPlayFinishedNotification t =>
      by_cases ht : t = trackId
      · simp only [Presence.next, ht, if_true, Option.ite_none_right_eq_some,
          Option.some.injEq] at h
        obtain ⟨-, rfl⟩ := h
        simp [Callback.notice, hs]
      · simp only [Presence.next, ht, if_false, Option.some.injEq] at h
        subst h
        simp [Callback.notice, hs]
    | _ =>
      cases h
      simp [Callback.notice, hs]

/-- Between presences the last notice is not an announcement. -/
theorem presences_stage {evs : List Event} {p : Presence} (h : presences trackId evs = some p) :
    p.stage = .away ↔ lastNotice trackId evs ≠ some true := by
  induction evs using List.reverseRecOn generalizing p with
  | nil =>
    cases h
    simp [lastNotice]
  | append_singleton evs ev ih =>
    simp only [presences, List.foldlM_append, List.foldlM_cons, List.foldlM_nil, bind_pure,
      Option.bind_eq_bind, Option.bind_eq_some_iff] at h
    obtain ⟨q, hq, hnext⟩ := h
    obtain ⟨hnone, hsome⟩ := Presence.next_stage hnext
    rw [lastNotice_concat]
    cases hn : ev.what.notice trackId with
    | none => rw [hnone hn, Option.none_or, ih hq]
    | some b => rw [hsome b hn]; simp

theorem presences_announced {pre post : List Event} {ev : Event}
    (h : (presences trackId (pre ++ ev :: post)).isSome)
    (hev : ev.what.signal = some (.onSubtrackAddedNotification trackId)) :
    lastNotice trackId pre ≠ some true := by
  obtain ⟨p, hp⟩ := Option.isSome_iff_exists.mp h
  simp only [presences, List.foldlM_append, List.foldlM_cons, Option.bind_eq_bind,
    Option.bind_eq_some_iff, hev] at hp
  obtain ⟨q, hq, r, hnext, -⟩ := hp
  refine (presences_stage hq).mp ?_
  by_contra hstage
  simp [Presence.next, hstage] at hnext

/-- Over any successive presences of a stream, its last announcement is answered by a
play command exactly when it finds no live connection and the command goes out. -/
theorem presences_played_iff (o : Opening) (trackId : String) (hown : trackId ≠ o.own)
    (hroom : trackId ≠ o.room) (pre : List Event) (ev : Event) (post : List Event)
    (hshape : (presences trackId (pre ++ ev :: post)).isSome)
    (hev : ev.what.signal = some (.onSubtrackAddedNotification trackId))
    (hpost : lastNotice trackId post = none) :
    ⟨.send (.play o.room trackId), true⟩ ∈ (step.run (ev :: post) (o.after pre)).2 ↔
      trackId ≠ "" ∧ (o.after pre).hasLivePeer trackId = false ∧
        ev.env.throws .sendPlayStream = false :=
  announced_played o hown hroom pre ev post (presences_announced hshape hev) hev hpost

/-- Bob leaves, the end of his presence is reported, and he comes back. -/
def rejoin : List Event :=
  [(Signal.onSubtrackAddedNotification "bob").event .calm,
    (Signal.onRemoteSDP "bob" "offer" "").event .calm,
    (Signal.onPlayStartedNotification "bob").event .calm,
    (Signal.onSubtrackRemovedNotification "bob").event .calm,
    (Signal.onPlayFinishedNotification "bob").event .calm]

/-- He is played again. -/
theorem rejoin_played : ⟨.send (.play "room" "bob"), true⟩ ∈
    (step.run [(Signal.onSubtrackAddedNotification "bob").event .calm]
      (Opening.plain.after rejoin)).2 :=
  (presences_played_iff .plain "bob" (by decide) (by decide) rejoin
    ((Signal.onSubtrackAddedNotification "bob").event .calm) [] (by decide) (by decide)
    (by decide)).mpr (by decide)

/-- Bob leaves and comes back before the end of his first presence is reported. -/
def quickRejoin : List Event :=
  [(Signal.onSubtrackAddedNotification "bob").event .calm,
    (Signal.onRemoteSDP "bob" "offer" "").event .calm,
    (Signal.onSubtrackRemovedNotification "bob").event .calm]

theorem quick_rejoin_unplayed : ¬ ∀ (o : Opening) (trackId : String), trackId ≠ o.own →
    trackId ≠ o.room → ∀ (pre : List Event) (ev : Event) (post : List Event),
      (presences trackId (pre ++ ev :: post)).isSome →
      ev.what.signal = some (.onSubtrackAddedNotification trackId) →
      lastNotice trackId post = none →
      ⟨.send (.play o.room trackId), true⟩ ∈ (step.run (ev :: post) (o.after pre)).2 := by
  intro h
  have hsent := h .plain "bob" (by decide) (by decide) quickRejoin
    ((Signal.onSubtrackAddedNotification "bob").event .calm)
    [(Signal.onPlayFinishedNotification "bob").event .calm] (by decide) (by decide) (by decide)
  exact absurd hsent (by decide)

end ConferenceCall

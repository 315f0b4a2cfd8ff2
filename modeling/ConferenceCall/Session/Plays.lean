import ConferenceCall.Session.Playback

/-! Repeated plays. A play command marks its id in `sendPlay`; the mark outlasts everything
but a `play_finished` or a `subtrackRemoved` of the id, and no handler plays a marked id
except in answer to its `play_finished`. -/

namespace ConferenceCall

open Library

/-- The server ends the play of an id or takes the track away. -/
def Callback.releases (key : String) (cb : Callback) : Prop :=
  cb.signal = some (.onPlayFinishedNotification key) ∨
    cb.signal = some (.onSubtrackRemovedNotification key)

/-- Some call asks the server to play an id. -/
def Asks (key : String) (calls : List Invocation) : Prop := ∃ c ∈ calls, c.call.plays = some key

/-- How often a list of calls asks for an id. -/
def playCount (key : String) (calls : List Invocation) : ℕ :=
  calls.countP fun c => c.call.plays = some key

variable {own room key : String} {m : Manager} {e : Env}

/-! ### The mark -/

theorem sendPlayAfter_marked {sig : Signal} (hfinish : sig ≠ .onPlayFinishedNotification key)
    (hremove : sig ≠ .onSubtrackRemovedNotification key) (h : m.sendPlay.lookup key = some true) :
    (m.sendPlayAfter sig).lookup key = some true := by
  have hinsert (t : String) (d : Tracker Bool) (hd : d.lookup key = some true) :
      (d.insert t true).lookup key = some true := by
    rw [Dict.lookup_insert_eq]
    split_ifs
    · rfl
    · exact hd
  have herase (t : String) (ht : key ≠ t) : (m.sendPlay.erase t).lookup key = some true := by
    rw [Dict.lookup_erase_eq, if_neg ht, h]
  cases sig with
  | onPublishStartedNotification =>
    simp only [Manager.sendPlayAfter]
    split_ifs
    · exact h
    · exact hinsert _ _ h
  | onPlayFinishedNotification t =>
    have ht : key ≠ t := fun ht => hfinish (by rw [ht])
    simp only [Manager.sendPlayAfter]
    split_ifs
    · exact h
    · exact hinsert _ _ (herase t ht)
    · exact herase t ht
  | onSubtrackAddedNotification t =>
    simp only [Manager.sendPlayAfter]
    split_ifs
    · exact hinsert _ _ h
    · exact h
  | onSubtrackRemovedNotification t =>
    have ht : key ≠ t := fun ht => hremove (by rw [ht])
    simp only [Manager.sendPlayAfter]
    split_ifs
    · exact h
    · exact herase t ht
  | _ => exact h

/-- A mark outlasts every step that does not release its id. -/
theorem step_marked {ev : Event} (hm : InSession own room m) (hev : ¬ev.what.releases key)
    (h : m.sendPlay.lookup key = some true) : (step ev m).1.sendPlay.lookup key = some true := by
  cases hs : ev.what.signal with
  | some sig =>
    obtain ⟨_, _, hstate⟩ := onSignal_state sig ev.env m
    rw [step_signal hm.connected hs, hstate]
    refine sendPlayAfter_marked (fun hk => hev (.inl ?_)) (fun hk => hev (.inr ?_)) h
    · rw [hs, hk]
    · rw [hs, hk]
  | none =>
    have hchange := step_change ev hm.connected
    obtain ⟨cb, e⟩ := ev
    generalize (step ⟨cb, e⟩ m).1 = m' at hchange ⊢
    cases hchange with
    | signal hsig => simp [Callback.signal, hsig] at hs
    | _ => exact h

/-! ### The commands -/

theorem step_asks_cases {ev : Event} (hm : InSession own room m) (h : Asks key (step ev m).2) :
    (ev.what.signal = some (.onSubtrackAddedNotification key) ∧ m.plays key) ∨
      key = room ∧ (ev.what.signal = some .onPublishStartedNotification ∧
          m.sendPlay.lookup room = none ∨
        ev.what.signal = some (.onPlayFinishedNotification room) ∧ room.isEmpty = false) := by
  obtain ⟨c, hc, hp⟩ := h
  cases hs : ev.what.signal with
  | none =>
    rw [(step_routine hm.connected hs c hc).2] at hp
    cases hp
  | some sig =>
    rw [step_signal hm.connected hs] at hc
    rcases onSignal_asks hc hp with ⟨rfl, hplays⟩ | ⟨⟨client, hclient, rfl⟩, hk⟩
    · exact .inl ⟨rfl, hplays⟩
    · obtain ⟨client', hclient', -, hr⟩ := hm.signaling
      rw [hclient, Option.some.injEq] at hclient'
      subst hclient'
      rw [hm.roomId] at hk
      refine .inr ⟨hr, ?_⟩
      rcases hk with ⟨rfl, hnone⟩ | ⟨rfl, hne⟩
      · exact .inl ⟨rfl, hnone⟩
      · exact .inr ⟨rfl, hne⟩

/-- What is played is marked. -/
theorem marked_of_asks {ev : Event} (hm : InSession own room m) (h : Asks key (step ev m).2) :
    (step ev m).1.sendPlay.lookup key = some true := by
  have hmark {sig : Signal} (hs : ev.what.signal = some sig)
      (hafter : (m.sendPlayAfter sig).lookup key = some true) :
      (step ev m).1.sendPlay.lookup key = some true := by
    obtain ⟨_, _, hstate⟩ := onSignal_state sig ev.env m
    rw [step_signal hm.connected hs, hstate]
    exact hafter
  rcases step_asks_cases hm h with ⟨hs, hplays⟩ | ⟨rfl, ⟨hs, hnone⟩ | ⟨hs, hne⟩⟩
  · refine hmark hs ?_
    simp [Manager.sendPlayAfter, hplays]
  · refine hmark hs ?_
    rw [Manager.sendPlayAfter, hm.roomId, hnone]
    simp
  · refine hmark hs ?_
    rw [Manager.sendPlayAfter, hm.roomId, hne]
    simp

/-- A marked id is played only in answer to its `play_finished`. -/
theorem releases_of_asks {ev : Event} (hm : InSession own room m)
    (hmark : m.sendPlay.lookup key = some true) (h : Asks key (step ev m).2) :
    ev.what.releases key := by
  rcases step_asks_cases hm h with ⟨-, hplays⟩ | ⟨rfl, ⟨-, hnone⟩ | ⟨hs, -⟩⟩
  · simp [Manager.plays, Manager.playSent, hmark] at hplays
  · rw [hmark] at hnone
    cases hnone
  · exact .inl hs

/-- A mark lasts until its id is released. -/
theorem run_marked (hm : InSession own room m) (evs : List Event)
    (hevs : ∀ ev ∈ evs, ¬ev.what.releases key) (h : m.sendPlay.lookup key = some true) :
    (step.run evs m).1.sendPlay.lookup key = some true := by
  have hall : step.Along (fun ev _ => ¬ev.what.releases key) evs m := by
    rintro l₁ ev l₂ rfl
    exact hevs ev (by simp)
  have hrun := Step.run_preserves
    (I := fun m => InSession own room m ∧ m.sendPlay.lookup key = some true)
    (fun ev _ hm hev => ⟨hm.1.after_step ev, step_marked hm.1 hev hm.2⟩) evs m ⟨hm, h⟩ hall
  exact hrun.2

/-! ### One command a step -/

theorem playCount_of_not_asks {calls : List Invocation} (h : ¬Asks key calls) :
    playCount key calls = 0 := by
  refine List.countP_eq_zero.mpr fun c hc hp => h ⟨c, hc, ?_⟩
  simpa using hp

theorem playCount_sent (e : Env) (m : Manager) (site : Site)
    (build : SignalingCommand → Command) : playCount key (m.sent e site build) ≤ 1 := by
  refine List.countP_le_length.trans ?_
  cases h : m.signaling <;> simp [Manager.sent, h]

theorem onSignal_playCount (sig : Signal) (e : Env) (m : Manager) :
    playCount key (onSignal sig e m).calls ≤ 1 := by
  have hother (h₁ : sig ≠ .onPublishStartedNotification)
      (h₂ : ∀ t, sig ≠ .onPlayFinishedNotification t)
      (h₃ : ∀ t, sig ≠ .onSubtrackAddedNotification t) :
      playCount key (onSignal sig e m).calls ≤ 1 := by
    have hnot : ¬Asks key (onSignal sig e m).calls := by
      rintro ⟨c, hc, hp⟩
      rcases onSignal_asks hc hp with ⟨hk, -⟩ | ⟨-, ⟨hk, -⟩ | ⟨hk, -⟩⟩
      · exact h₃ _ hk
      · exact h₁ hk
      · exact h₂ _ hk
    rw [playCount_of_not_asks hnot]
    exact Nat.zero_le 1
  cases sig with
  | onPublishStartedNotification =>
    cases h : m.sendPlay.lookup m.roomId with
    | none =>
      rw [onSignal, onPublishStartedNotification_of_none h]
      exact playCount_sent e m _ _
    | some b => simp [onSignal, onPublishStartedNotification_of_some h, playCount]
  | onPlayFinishedNotification t =>
    have hremoval : playCount key (removalCalls e m t) = 0 := by
      refine playCount_of_not_asks ?_
      rintro ⟨c, hc, hp⟩
      rw [(removalCalls_routine c hc).2] at hp
      cases hp
    cases ht : t.isEmpty with
    | true => simp [onSignal, onPlayFinishedNotification_of_empty ht, playCount]
    | false =>
      by_cases hr : t = m.roomId
      · rw [onSignal, onPlayFinishedNotification_of_room ht hr]
        have hsent : playCount key (m.sent e .sendPlayRoom (·.sendPlayRoom)) ≤ 1 :=
          playCount_sent e m _ _
        simp only [playCount, List.countP_append] at hremoval hsent ⊢
        omega
      · rw [onSignal, onPlayFinishedNotification_of_other ht hr, hremoval]
        exact Nat.zero_le 1
  | onSubtrackAddedNotification t =>
    cases h : m.plays t with
    | true =>
      rw [onSignal, onSubtrackAddedNotification_of_plays h]
      exact playCount_sent e m _ _
    | false => simp [onSignal, onSubtrackAddedNotification_of_not_plays h, playCount]
  | _ => exact hother (by simp) (by simp) (by simp)

theorem step_playCount (ev : Event) (h : m.connected) : playCount key (step ev m).2 ≤ 1 := by
  cases hs : ev.what.signal with
  | some sig =>
    rw [step_signal h hs]
    exact onSignal_playCount sig ev.env m
  | none =>
    rw [playCount_of_not_asks]
    · exact Nat.zero_le 1
    · rintro ⟨c, hc, hp⟩
      rw [(step_routine h hs c hc).2] at hp
      cases hp

/-- One message leads to at most one play command of an id. Between two messages that lead
to one, or with the second of them, the id is released. -/
theorem replayed_after_release (o : Opening) (key : String) :
    (∀ evs ev, playCount key (step ev (o.after evs)).2 ≤ 1) ∧
    ∀ pre first between second, Asks key (step first (o.after pre)).2 →
      Asks key (step second (o.after (pre ++ first :: between))).2 →
      ∃ ev ∈ between ++ [second], ev.what.releases key := by
  refine ⟨fun evs ev => step_playCount ev (o.inSession_after evs).connected, ?_⟩
  intro pre first between second hfirst hsecond
  have hm := o.inSession_after pre
  have hafter : o.after (pre ++ first :: between) =
      (step.run between (step first (o.after pre)).1).1 := by
    rw [Opening.after, Step.run_append, Step.run_cons]
    rfl
  by_cases hrel : ∃ ev ∈ between, ev.what.releases key
  · obtain ⟨ev, hev, hk⟩ := hrel
    exact ⟨ev, by simp [hev], hk⟩
  · have hmark := run_marked (hm.after_step first) between
      (fun ev hev hk => hrel ⟨ev, hev, hk⟩) (marked_of_asks hm hfirst)
    rw [← hafter] at hmark
    exact ⟨second, by simp, releases_of_asks (o.inSession_after _) hmark hsecond⟩

/-- The room is played when publishing starts and again when its play is over. -/
theorem room_replayed : ∃ ev ∈ [] ++ [(Signal.onPlayFinishedNotification "room").event .calm],
    ev.what.releases "room" :=
  (replayed_after_release .plain "room").2 []
    (Signal.onPublishStartedNotification.event .calm) []
    ((Signal.onPlayFinishedNotification "room").event .calm)
    ⟨⟨.send (.play "room" "room"), true⟩, by decide, rfl⟩
    ⟨⟨.send (.play "room" "room"), true⟩, by decide, rfl⟩

end ConferenceCall

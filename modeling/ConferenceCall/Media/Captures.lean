import ConferenceCall.Media.Routes

/-! When there are samples to send. A session tries to launch a capture when it begins and each time
a track of the kind opens, until a launch gives a pipeline; it plays if that launch gave no error,
and if it did there is no other. -/

namespace ConferenceCall.Media

open Library
open Gst (Owner Medium Answers Build Request World Launch)

variable {b : Build} {e : Answers} {o : Owner} {m : Moment} {s : Studio} {t : LocalTrack}
  {kind : Kind} {medium : Medium} {w : World} {launch : Launch}

/-- The pipeline of the capture plays and its sink calls the handler of samples. -/
def Supplied (kind : Kind) (w : World) : Prop :=
  ∃ h p, w.manager.pipeline kind.medium = some h ∧ w.pipelines h = some p ∧ p.state = .playing ∧
    ∃ sink ∈ p.connected, sink.2 = kind.callback

/-- The handles that the pointers hold have been given out. -/
def Below (w : World) : Prop := ∀ medium h, w.manager.pipeline medium = some h → h < w.next

/-! ### Launches -/

section Launches

theorem below_launched (h : Below w) (p : Gst.Pipeline) : Below (w.launched medium p) := by
  intro medium' handle hpointer
  by_cases hm : medium' = medium
  · subst hm
    rw [Gst.World.launched_pointer, Option.some.injEq] at hpointer
    exact hpointer ▸ Nat.lt_succ_self _
  · have hsame : (w.launched medium p).manager.pipeline medium' = w.manager.pipeline medium' :=
      Function.update_of_ne hm _ _
    exact (h medium' handle (hsame ▸ hpointer)).trans (Nat.lt_succ_self _)

/-- A launch for another medium makes no difference. -/
theorem supplied_launched_of_ne (h : Below w) (hne : kind.medium ≠ medium) (p : Gst.Pipeline) :
    Supplied kind (w.launched medium p) ↔ Supplied kind w := by
  have hpointer : (w.launched medium p).manager.pipeline kind.medium =
      w.manager.pipeline kind.medium := Function.update_of_ne hne _ _
  rw [Supplied, Supplied, hpointer]
  refine exists_congr fun handle => exists_congr fun q => and_congr_right fun hhandle => ?_
  rw [Gst.World.launched_of_ne (h _ _ hhandle).ne]

theorem supplied_launched_self (p : Gst.Pipeline) : Supplied kind (w.launched kind.medium p) ↔
    p.state = .playing ∧ ∃ sink ∈ p.connected, sink.2 = kind.callback := by
  simp [Supplied]

theorem sink_of_kind (kind : Kind) : ∃ sink ∈ kind.medium.sinks, sink.2 = kind.callback := by
  cases kind
  · exact ⟨("rtpsink", .onVideoRTPSample), by decide, rfl⟩
  · exact ⟨("rtpsink", .onAudioRTPSample), by decide, rfl⟩

theorem medium_inj {k k' : Kind} : k.medium = k'.medium ↔ k = k' := by
  cases k <;> cases k' <;> simp [Kind.medium]

/-- A start of a capture launches where there is no pipeline. -/
theorem startCapture_supplied (k : Kind) {desc : Gst.GstManager → String}
    {prepare : Option Gst.Handle → World → World}
    (hprepare : ∀ p, p.missing = [] → ∃ b, prepare (some w.next) (w.launched k.medium p) =
      w.launched k.medium { p with probed := b })
    (launch : Launch) (h : Below w) :
    Below (Gst.startCapture k.medium desc prepare launch w) ∧
      (Supplied kind (Gst.startCapture k.medium desc prepare launch w) ↔
        (k = kind ∧ w.manager.pipeline kind.medium = none ∧ launch = .pipeline) ∨
          Supplied kind w) := by
  cases hp : w.manager.pipeline k.medium with
  | some handle =>
    have hsame : Gst.startCapture k.medium desc prepare launch w = w := by
      rw [Gst.startCapture, hp, Option.isSome_some, if_pos rfl]
    rw [hsame]
    refine ⟨h, .inr, fun hs => hs.resolve_left ?_⟩
    rintro ⟨rfl, hnone, -⟩
    cases hp.symm.trans hnone
  | none =>
    have hidle : k = kind → ¬ Supplied kind w := by
      rintro rfl ⟨_, _, hpointer, -⟩
      cases hp.symm.trans hpointer
    rcases Gst.startCapture_cases desc hprepare launch hp with
      ⟨rfl, hsame⟩ | ⟨p, -, hsame, hlaunch⟩ <;> rw [hsame]
    · exact ⟨h, by simp⟩
    · refine ⟨below_launched h p, ?_⟩
      by_cases hk : k = kind
      · subst hk
        rw [supplied_launched_self]
        rcases hlaunch with ⟨rfl, hsinks, hplays⟩ | ⟨⟨missing, rfl⟩, hstate⟩
        · obtain ⟨sink, hsink, hcallback⟩ := sink_of_kind k
          exact iff_of_true ⟨hplays, sink, hsinks hsink, hcallback⟩ (.inl ⟨rfl, hp, rfl⟩)
        · simp [hstate, hidle]
      · have hne : kind.medium ≠ k.medium := fun h => hk (medium_inj.mp h).symm
        simp [supplied_launched_of_ne h hne, hk]

theorem start_supplied (kind k : Kind) (h : Below o.world) :
    Below (k.start.act b e o).state.world ∧ (Supplied kind (k.start.act b e o).state.world ↔
      (k = kind ∧ o.pointer kind.medium = none ∧ e.launch = .pipeline) ∨
        Supplied kind o.world) := by
  cases k with
  | video =>
    have hw : (Kind.video.start.act b e o).state.world = Gst.startVideo b.qcs610 e.launch o.world :=
      (Gst.startVideo_follows b.qcs610 e o).2
    rw [hw]
    exact startCapture_supplied .video
      (fun p hp => ⟨_, Gst.addOverlayProbe_launched b.qcs610 hp⟩) e.launch h
  | audio =>
    have hw : (Kind.audio.start.act b e o).state.world = Gst.startAudio b.qcs610 e.launch o.world :=
      (Gst.startAudio_follows b.qcs610 e o).2
    rw [hw]
    exact startCapture_supplied .audio (fun p _ => ⟨p.probed, rfl⟩) e.launch h

/-- The player makes no difference to the captures. -/
theorem startAudioPlayer_supplied (kind : Kind) (hnone : o.pointer .audioPlayer = none)
    (h : Below o.world) :
    Below (Request.startAudioPlayer.act b e o).state.world ∧
      (Supplied kind (Request.startAudioPlayer.act b e o).state.world ↔
        Supplied kind o.world) := by
  have hne : kind.medium ≠ .audioPlayer := by cases kind <;> decide
  have hw : (Request.startAudioPlayer.act b e o).state.world =
      Gst.startAudioPlayer e.launch o.world := (Gst.startAudioPlayer_follows e o).2
  rw [hw]
  rcases Gst.startAudioPlayer_cases e.launch hnone with ⟨-, hs⟩ | ⟨p, source, -, -, -, hs⟩ <;>
    rw [hs]
  · exact ⟨h, .rfl⟩
  · exact ⟨below_launched h p, supplied_launched_of_ne h hne p⟩

/-- A new `GstManager` captures what it has launched without an error, for those who publish. -/
theorem makeGst_supplied (kind : Kind) (b : Build) (isPlayer : Bool) (answers : Medium → Answers) :
    Below (makeGst b isPlayer answers).world ∧
      (Supplied kind (makeGst b isPlayer answers).world ↔
        isPlayer = false ∧ (answers kind.medium).launch = .pipeline) := by
  have hnew : Below newGst.world ∧ ¬ Supplied kind newGst.world := by
    refine ⟨fun medium handle hpointer => (by cases hpointer), ?_⟩
    rintro ⟨_, _, hpointer, -⟩
    cases hpointer
  cases isPlayer with
  | true =>
    obtain ⟨hbelow, hsupplied⟩ := startAudioPlayer_supplied (b := b)
      (e := answers .audioPlayer) (o := newGst) kind rfl hnew.1
    exact ⟨hbelow, hsupplied.trans (by simp [hnew.2])⟩
  | false =>
    let o₁ := (Kind.video.start.act b (answers .video) newGst).state
    let o₂ := (Kind.audio.start.act b (answers .audio) o₁).state
    obtain ⟨h₁, hs₁⟩ := start_supplied (b := b) (e := answers .video) kind .video hnew.1
    obtain ⟨h₂, hs₂⟩ := start_supplied (b := b) (e := answers .audio) kind .audio h₁
    have hnone : o₂.pointer .audioPlayer = none :=
      (start_pointer .audio (by decide)).trans (start_pointer .video (by decide))
    obtain ⟨h₃, hs₃⟩ := startAudioPlayer_supplied (b := b)
      (e := answers .audioPlayer) kind hnone h₂
    refine ⟨h₃, hs₃.trans (hs₂.trans ?_)⟩
    rw [hs₁]
    cases kind with
    | video =>
      have hpointer : newGst.pointer .video = none := rfl
      simp [hnew.2, Kind.medium, hpointer]
    | audio =>
      have hpointer : o₁.pointer .audio = none := start_pointer .video (by decide)
      change (_ ∧ o₁.pointer .audio = none ∧ _) ∨ _ ↔ _
      simp [hnew.2, Kind.medium, hpointer]

end Launches

/-! ### Runs -/

section Runs

/-- The pipelines of the session, of which GStreamer knows the next handle. -/
structure Equipped (s : Studio) : Prop where
  furnished : Furnished s
  below : ∀ o, s.gst = some o → Below o.world

theorem Equipped.step (h : Equipped s) : Equipped (studioStep b m s).1 := by
  refine ⟨h.furnished.step, fun o ho => ?_⟩
  cases hw : m.what with
  | input i =>
    rw [studioStep_input hw] at ho
    rcases inputTurn_cases (b := b) (m := m) (i := i) h.furnished with
      ⟨-, hs⟩ | ⟨-, o₁, o₂, hs, hsame, ⟨p, -, rfl⟩ | ⟨-, hbefore⟩⟩ <;> cases hs.symm.trans ho
    · rw [hsame.1]
      exact (makeGst_supplied .video b p m.gst).1
    · rw [hsame.1]
      exact h.below _ hbefore
  | opened t =>
    rw [studioStep_opened hw] at ho
    by_cases ht : t ∈ s.localTracks
    · cases hs : s.gst with
      | none => simp [openTurn, ht, hs] at ho
      | some o₁ =>
        cases (openTurn_gst ht hs).symm.trans ho
        exact (start_supplied (o := handing t o₁) .video t.kind (h.below o₁ hs)).1
    · rw [openTurn, if_neg ht] at ho
      exact h.below o ho
  | sample callback =>
    rw [studioStep_sample hw] at ho
    by_contra hnot
    obtain ⟨o₁, hs, hn⟩ := (has_sample (P := fun o => ¬ Below o.world)
      (fun _ _ hsame => by rw [hsame.1]) callback).mp ⟨o, ho, hnot⟩
    exact hn (h.below o₁ hs)

end Runs

end ConferenceCall.Media

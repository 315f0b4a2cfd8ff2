import ConferenceCall.Gst.Pipelines

/-! A pointer of `GstManager` holds the pipeline that plays, except for a capture that was launched
with an error: it keeps the pointer, is never played, and no later start gets past it. -/

namespace ConferenceCall.Gst

open Library

variable {medium : Medium} {p : Pipeline} {w : World} {h : Handle}

namespace World

/-- The pipeline was connected to the callbacks of its medium, set to playing, and not stopped
since. -/
def Running (w : World) (medium : Medium) (h : Handle) : Prop :=
  ∃ p, w.pipelines h = some p ∧ p.medium = medium ∧ medium.sinks ⊆ p.connected ∧ p.state = .playing

/-- The pointers are those of the running pipelines. -/
structure Sound (w : World) : Prop where
  pointers : ∀ medium h, w.manager.pipeline medium = some h ↔ w.Running medium h
  appSrc : w.manager.audioAppSrc.isSome → (w.manager.pipeline .audioPlayer).isSome

/-- GStreamer has given out no handle yet to come. -/
def Numbered (w : World) : Prop := ∀ h, w.next ≤ h → w.pipelines h = none

/-- A new pipeline in the pointer of its medium. -/
def launched (medium : Medium) (p : Pipeline) (w : World) : World :=
  { w.setPointer medium (some w.next) with
    pipelines := Function.update w.pipelines w.next (some p)
    next := w.next + 1 }

@[simp] theorem launched_pointer :
    (w.launched medium p).manager.pipeline medium = some w.next := by
  simp only [launched, setPointer, Function.update_self]

@[simp] theorem launched_self : (w.launched medium p).pipelines w.next = some p := by
  simp only [launched, Function.update_self]

theorem launched_of_ne (hne : h ≠ w.next) :
    (w.launched medium p).pipelines h = w.pipelines h := by
  simp only [launched, Function.update_of_ne hne]

@[simp] theorem onPipeline_launched (f : Pipeline → Pipeline) :
    (w.launched medium p).onPipeline (some w.next) f = w.launched medium (f p) := by
  simp [onPipeline, launched]

theorem getByName_launched (name : String) : (w.launched medium p).getByName (some w.next) name =
    if name ∈ p.missing then none else some (w.next, name) := by
  simp [getByName]

theorem setPointer_self (hnone : w.manager.pipeline medium = none) :
    w.setPointer medium none = w := by
  rw [setPointer, ← hnone, Function.update_eq_self]

theorem ite_setMainLoop (w : World) :
    (if w.manager.mainLoop then w else w.setMainLoop) = w.setMainLoop := by
  split_ifs with hloop
  · rw [setMainLoop, ← hloop]
  · rfl

theorem onPipeline_setAudioAppSrc (pipeline : Option Handle) (f : Pipeline → Pipeline)
    (source : Option (Handle × String)) :
    (w.setAudioAppSrc source).onPipeline pipeline f =
      (w.onPipeline pipeline f).setAudioAppSrc source := by
  cases pipeline <;> rfl

end World

open World

/-! ### The starts -/

theorem setupSink_launched (name : String) (callback : SampleCallback) (hp : p.missing = []) :
    setupSink (some w.next) name callback (w.launched medium p) =
      w.launched medium { p with connected := (name, callback) :: p.connected } := by
  simp [setupSink, getByName_launched, hp]

theorem setupSinks_launched (sinks : List (String × SampleCallback)) (hp : p.missing = []) :
    sinks.foldl (fun w s => setupSink (w.manager.pipeline medium) s.1 s.2 w)
        (w.launched medium p) =
      w.launched medium { p with connected := sinks.reverse ++ p.connected } := by
  induction sinks generalizing p with
  | nil => rfl
  | cons s sinks ih =>
    rw [List.foldl_cons, launched_pointer, setupSink_launched _ _ hp,
      ih (p := { p with connected := (s.1, s.2) :: p.connected }) hp]
    simp

theorem addOverlayProbe_launched (qcs610 : Bool) (hp : p.missing = []) :
    addOverlayProbe qcs610 (some w.next) (w.launched medium p) =
      w.launched medium { p with probed := !qcs610 || p.probed } := by
  cases qcs610 with
  | true => rfl
  | false => simp [addOverlayProbe, getByName_launched, hp]

/-- What a start of a capture does when there is no pipeline. -/
theorem startCapture_cases (desc : GstManager → String) {prepare : Option Handle → World → World}
    (hprepare : ∀ p, p.missing = [] → ∃ b,
      prepare (some w.next) (w.launched medium p) = w.launched medium { p with probed := b })
    (launch : Launch) (hnone : w.manager.pipeline medium = none) :
    launch = .null ∧ startCapture medium desc prepare launch w = w ∨
    ∃ p, p.medium = medium ∧ startCapture medium desc prepare launch w = w.launched medium p ∧
      (launch = .pipeline ∧ medium.sinks ⊆ p.connected ∧ p.state = .playing ∨
        (∃ missing, launch = .recoverable missing) ∧ p.state = .null) := by
  unfold startCapture
  rw [hnone, Option.isSome_none, if_neg Bool.false_ne_true]
  cases launch with
  | null =>
    refine .inl ⟨rfl, ?_⟩
    rw [if_pos (.inr (by simp))]
    exact setPointer_self hnone
  | pipeline =>
    let p : Pipeline := { medium, desc := desc w.manager }
    have hlaunch : w.parseLaunch medium (desc w.manager) .pipeline = w.launched medium p := rfl
    obtain ⟨b, hb⟩ := hprepare p rfl
    refine .inr ⟨{ p with probed := b, connected := medium.sinks.reverse, state := .playing }, rfl, ?_,
      .inl ⟨rfl, by simp, rfl⟩⟩
    simp only [hlaunch, launched_pointer, Option.isNone_some, Bool.false_eq_true, ne_eq,
      not_true_eq_false, or_self, if_false, hb, setState]
    rw [setupSinks_launched _ rfl, launched_pointer, onPipeline_launched, List.append_nil]
  | recoverable missing =>
    refine .inr ⟨{ medium, desc := desc w.manager, missing }, rfl, ?_, .inr ⟨⟨missing, rfl⟩, rfl⟩⟩
    rw [if_pos (.inr (by simp))]
    rfl

/-- What a start of the player does when there is no pipeline: an error goes unnoticed. -/
theorem startAudioPlayer_cases (launch : Launch) (hnone : w.manager.pipeline .audioPlayer = none) :
    launch = .null ∧ startAudioPlayer launch w = (w.setAudioAppSrc none).setMainLoop ∨
    ∃ p source, launch ≠ .null ∧ p.medium = .audioPlayer ∧ p.state = .playing ∧
      startAudioPlayer launch w =
        ((w.launched .audioPlayer p).setAudioAppSrc source).setMainLoop := by
  have hbuilt (p : Pipeline) (hp : p.medium = .audioPlayer) (hne : launch ≠ .null)
      (hlaunch : w.parseLaunch .audioPlayer audioPlayDesc launch = w.launched .audioPlayer p) :
      ∃ p source, launch ≠ .null ∧ p.medium = .audioPlayer ∧ p.state = .playing ∧
        startAudioPlayer launch w =
          ((w.launched .audioPlayer p).setAudioAppSrc source).setMainLoop := by
    let source := (w.launched .audioPlayer p).getByName (some w.next) "audio_src"
    refine ⟨{ p with state := .playing }, source, hne, hp, rfl, ?_⟩
    unfold startAudioPlayer
    rw [hnone, Option.isSome_none, if_neg Bool.false_ne_true]
    simp only [hlaunch, launched_pointer, ite_setMainLoop, setState, onPipeline_setAudioAppSrc]
    rw [← onPipeline_launched (fun p => { p with state := .playing })]
    simp only [setAudioAppSrc, launched_pointer]
    rfl
  cases launch with
  | null =>
    refine .inl ⟨rfl, ?_⟩
    unfold startAudioPlayer
    rw [hnone, Option.isSome_none, if_neg Bool.false_ne_true]
    have hlaunch : w.parseLaunch .audioPlayer audioPlayDesc .null = w := setPointer_self hnone
    simp only [hlaunch, ite_setMainLoop, setState, onPipeline_setAudioAppSrc]
    simp only [setAudioAppSrc, hnone]
    rfl
  | pipeline => exact .inr (hbuilt _ rfl (by simp) rfl)
  | recoverable missing => exact .inr (hbuilt _ rfl (by simp) rfl)

/-! ### The stops -/

theorem stopCapture_of_pointer (hsome : w.manager.pipeline medium = some h) :
    stopCapture medium w = (w.unref h).setPointer medium none := by
  simp only [stopCapture, hsome, setState, onPipeline, unref, Function.update_idem]

theorem stopAudioPlayer_of_pointer (hsome : w.manager.pipeline .audioPlayer = some h) :
    stopAudioPlayer w = ((w.unref h).setPointer .audioPlayer none).setAudioAppSrc none := by
  simp only [stopAudioPlayer, hsome, setState, onPipeline, setAudioAppSrc, unref,
    Function.update_idem]
  rfl

/-! ### The pointers -/

theorem running_congr {w' : World} (hsame : w'.pipelines h = w.pipelines h) :
    w'.Running medium h ↔ w.Running medium h := by
  rw [Running, Running, hsame]

theorem running_launched (hp : p.medium = medium) :
    (w.launched medium p).Running medium w.next ↔
      medium.sinks ⊆ p.connected ∧ p.state = .playing := by
  simp only [Running, launched_self, Option.some.injEq, exists_eq_left', hp, true_and]

section Launched
variable (hs : w.Sound) (hn : w.Numbered) (hnone : w.manager.pipeline medium = none)
  (hp : p.medium = medium)
include hs hn hnone hp

/-- A new pipeline keeps the pointers in order if and only if it runs. -/
theorem launched_pointers_iff :
    (∀ m h, (w.launched medium p).manager.pipeline m = some h ↔ (w.launched medium p).Running m h) ↔
      medium.sinks ⊆ p.connected ∧ p.state = .playing := by
  rw [← running_launched hp]
  constructor
  · intro hpointers
    exact (hpointers medium w.next).mp launched_pointer
  · intro hruns m h
    by_cases hm : m = medium
    · subst hm
      rw [launched_pointer, Option.some.injEq]
      constructor
      · rintro rfl
        exact hruns
      · intro hrunning
        by_contra hne
        rw [running_congr (launched_of_ne (Ne.symm hne)), ← hs.pointers, hnone] at hrunning
        cases hrunning
    · have hsame : (w.launched medium p).manager.pipeline m = w.manager.pipeline m :=
        Function.update_of_ne hm _ _
      rw [hsame]
      by_cases hh : h = w.next
      · subst hh
        constructor
        · intro hpointer
          obtain ⟨q, hq, -⟩ := (hs.pointers m _).mp hpointer
          rw [hn _ (Nat.le_refl _)] at hq
          cases hq
        · rintro ⟨q, hq, hmedium, -⟩
          rw [launched_self, Option.some.injEq] at hq
          exact absurd (hmedium.symm.trans ((congrArg Pipeline.medium hq.symm).trans hp)) hm
      · rw [running_congr (launched_of_ne hh)]
        exact hs.pointers m h

end Launched

theorem numbered_launched (hn : w.Numbered) : (w.launched medium p).Numbered := by
  intro h (hle : w.next + 1 ≤ h)
  rw [launched_of_ne (Nat.ne_of_gt hle)]
  exact hn h (Nat.le_of_succ_le hle)

/-- A stop clears a pointer together with its pipeline. -/
theorem stopped_pointers (hs : w.Sound) (hsome : w.manager.pipeline medium = some h) (m : Medium)
    (h' : Handle) : ((w.unref h).setPointer medium none).manager.pipeline m = some h' ↔
      ((w.unref h).setPointer medium none).Running m h' := by
  have hrunning : w.Running medium h := (hs.pointers medium h).mp hsome
  by_cases hh : h' = h
  · subst hh
    have hgone : ((w.unref h').setPointer medium none).pipelines h' = none :=
      Function.update_self _ _ _
    constructor
    · intro hpointer
      by_cases hm : m = medium
      · subst hm
        simp [setPointer] at hpointer
      · simp only [setPointer, unref, Function.update_of_ne hm] at hpointer
        obtain ⟨p, hp, hmedium, -⟩ := hrunning
        obtain ⟨q, hq, hmedium', -⟩ := (hs.pointers m h').mp hpointer
        rw [hp, Option.some.injEq] at hq
        exact absurd (hmedium'.symm.trans ((congrArg Pipeline.medium hq.symm).trans hmedium)) hm
    · rintro ⟨p, hp, -⟩
      rw [hgone] at hp
      cases hp
  · have hsame : ((w.unref h).setPointer medium none).pipelines h' = w.pipelines h' :=
      Function.update_of_ne hh _ _
    rw [running_congr hsame, ← hs.pointers]
    by_cases hm : m = medium
    · subst hm
      simp only [setPointer, Function.update_self, hsome, Option.some.injEq]
      exact iff_of_false (by simp) (Ne.symm hh)
    · simp only [setPointer, unref, Function.update_of_ne hm]

theorem numbered_stopped (hn : w.Numbered) : ((w.unref h).setPointer medium none).Numbered := by
  intro h' hle
  change Function.update w.pipelines h none h' = none
  by_cases hh : h' = h
  · rw [hh, Function.update_self]
  · rw [Function.update_of_ne hh]
    exact hn h' hle

/-! ### Sequences of calls -/

/-- The medium a call starts. -/
def Call.starts : Call → Option Medium
  | .startVideo _ => some .video
  | .startAudio _ => some .audio
  | .startAudioPlayer _ => some .audioPlayer
  | _ => none

/-- The pointers are now those of the running pipelines, and a start that left no pipeline running
has left the manager as it was, with a null pointer. -/
def World.Kept (starts : Option Medium) (w w' : World) : Prop :=
  w'.Sound ∧ ∀ medium ∈ starts, w.manager.pipeline medium = none →
    (¬∃ h, w'.Running medium h) → w'.manager = w.manager

def Call.Keeps (qcs610 : Bool) (c : Call) (w : World) : Prop := w.Kept c.starts (c.run qcs610 w)

/-- No capture is launched with a recoverable error, and the player's launch gives a pipeline or
does not come first. -/
def Call.Recovers : Call → World → Prop
  | .startVideo launch, w =>
    w.manager.pipeline .video = none → ∀ missing, launch ≠ .recoverable missing
  | .startAudio launch, w =>
    w.manager.pipeline .audio = none → ∀ missing, launch ≠ .recoverable missing
  | .startAudioPlayer launch, w =>
    w.manager.pipeline .audioPlayer = none → launch = .null → w.manager.mainLoop = true
  | _, _ => True

def gstStep (qcs610 : Bool) : Step Call World Empty := fun c w => (c.run qcs610 w, [])

theorem fresh_sound (width height fps videoBitrate : ℤ) (videoSSRC audioSSRC : ℕ) :
    (World.fresh width height fps videoBitrate videoSSRC audioSSRC).Sound := by
  refine ⟨fun medium h => ?_, fun h => h⟩
  constructor
  · rintro ⟨⟩
  · rintro ⟨p, ⟨⟩, -⟩

theorem kept_none {w' : World} : w.Kept none w' ↔ w'.Sound := by
  simp [Kept]

theorem kept_some {w' : World} : w.Kept (some medium) w' ↔
    w'.Sound ∧ (w.manager.pipeline medium = none → (¬∃ h, w'.Running medium h) →
      w'.manager = w.manager) := by
  simp [Kept]

theorem kept_self (hs : w.Sound) (starts : Option Medium) : w.Kept starts w :=
  ⟨hs, fun _ _ _ _ => rfl⟩

/-- A start of a capture. -/
theorem startCapture_keeps (desc : GstManager → String)
    (prepare : Option Handle → World → World) (hs : w.Sound) (hn : w.Numbered)
    (hmedium : medium ≠ .audioPlayer)
    (hprepare : ∀ p, p.missing = [] → ∃ b,
      prepare (some w.next) (w.launched medium p) = w.launched medium { p with probed := b })
    (launch : Launch) :
    (w.Kept (some medium) (startCapture medium desc prepare launch w) ↔
        (w.manager.pipeline medium = none → ∀ missing, launch ≠ .recoverable missing)) ∧
      (startCapture medium desc prepare launch w).Numbered := by
  cases hpointer : w.manager.pipeline medium with
  | some h =>
    have hsame : startCapture medium desc prepare launch w = w := by
      unfold startCapture
      rw [hpointer, Option.isSome_some, if_pos rfl]
    rw [hsame]
    exact ⟨iff_of_true (kept_self hs _) (by simp), hn⟩
  | none =>
    simp only [forall_const]
    rcases startCapture_cases desc hprepare launch hpointer with
      ⟨hnull, hsame⟩ | ⟨p, hp, hsame, hlaunch⟩ <;> rw [hsame]
    · exact ⟨iff_of_true (kept_self hs _) (by simp [hnull]), hn⟩
    · refine ⟨?_, numbered_launched hn⟩
      rw [kept_some]
      have hpointers := launched_pointers_iff hs hn hpointer hp
      have happ : (w.launched medium p).manager.pipeline .audioPlayer =
          w.manager.pipeline .audioPlayer := Function.update_of_ne hmedium.symm _ _
      rcases hlaunch with ⟨hpipeline, hplays⟩ | ⟨⟨missing, hmissing⟩, hstate⟩
      · have hruns := (running_launched (w := w) hp).mpr hplays
        refine iff_of_true ⟨⟨hpointers.mpr hplays, ?_⟩, fun _ h => absurd ⟨_, hruns⟩ h⟩
          (by simp [hpipeline])
        rw [happ]
        exact hs.appSrc
      · refine iff_of_false (fun h => ?_) (by simp [hmissing])
        have hplays := (hpointers.mp h.1.pointers).2
        rw [hstate] at hplays
        cases hplays

theorem startAudioPlayer_keeps (hs : w.Sound) (hn : w.Numbered) (launch : Launch) :
    (w.Kept (some .audioPlayer) (startAudioPlayer launch w) ↔
        (w.manager.pipeline .audioPlayer = none → launch = .null → w.manager.mainLoop = true)) ∧
      (startAudioPlayer launch w).Numbered := by
  cases hpointer : w.manager.pipeline .audioPlayer with
  | some h =>
    have hsame : startAudioPlayer launch w = w := by
      unfold startAudioPlayer
      rw [hpointer, Option.isSome_some, if_pos rfl]
    rw [hsame]
    exact ⟨iff_of_true (kept_self hs _) (by simp), hn⟩
  | none =>
    simp only [forall_const]
    rcases startAudioPlayer_cases launch hpointer with
      ⟨hnull, hsame⟩ | ⟨p, source, hne, hp, hplays, hsame⟩ <;> rw [hsame]
    · have hsound : ((w.setAudioAppSrc none).setMainLoop).Sound :=
        ⟨hs.pointers, by simp [setMainLoop, setAudioAppSrc]⟩
      rw [kept_some]
      refine ⟨⟨fun h _ => ?_, fun h => ⟨hsound, fun _ _ => ?_⟩⟩, hn⟩
      · have hidle : ¬∃ h, w.Running .audioPlayer h := by
          rintro ⟨h, hruns⟩
          rw [← hs.pointers, hpointer] at hruns
          cases hruns
        exact (congrArg GstManager.mainLoop (h.2 hpointer hidle)).symm
      · have hsource : w.manager.audioAppSrc = none := by
          have happ := hs.appSrc
          rw [hpointer] at happ
          cases hsource : w.manager.audioAppSrc with
          | none => rfl
          | some source =>
            rw [hsource] at happ
            exact absurd (happ rfl) Bool.false_ne_true
        simp only [setMainLoop, setAudioAppSrc, ← hsource, ← h hnull]
    · have hpointers := (launched_pointers_iff hs hn hpointer hp).mpr ⟨by simp [Medium.sinks], hplays⟩
      have hruns := (running_launched (w := w) hp).mpr ⟨by simp [Medium.sinks], hplays⟩
      have hsome : ((w.launched .audioPlayer p).manager.pipeline .audioPlayer).isSome := by
        rw [launched_pointer, Option.isSome_some]
      rw [kept_some]
      exact ⟨iff_of_true ⟨⟨hpointers, fun _ => hsome⟩, fun _ h => absurd ⟨_, hruns⟩ h⟩ (absurd · hne),
        (numbered_launched hn : (w.launched .audioPlayer p).Numbered)⟩

theorem stopCapture_keeps (hs : w.Sound) (hn : w.Numbered) (hmedium : medium ≠ .audioPlayer) :
    (stopCapture medium w).Sound ∧ (stopCapture medium w).Numbered := by
  cases hpointer : w.manager.pipeline medium with
  | none =>
    have hsame : stopCapture medium w = w := by
      rw [stopCapture, hpointer]
    rw [hsame]
    exact ⟨hs, hn⟩
  | some h =>
    rw [stopCapture_of_pointer hpointer]
    refine ⟨⟨stopped_pointers hs hpointer, ?_⟩, numbered_stopped hn⟩
    simp only [setPointer, unref, Function.update_of_ne hmedium.symm]
    exact hs.appSrc

theorem stopAudioPlayer_keeps (hs : w.Sound) (hn : w.Numbered) :
    (stopAudioPlayer w).Sound ∧ (stopAudioPlayer w).Numbered := by
  cases hpointer : w.manager.pipeline .audioPlayer with
  | none =>
    have hsame : stopAudioPlayer w = w := by
      rw [stopAudioPlayer, hpointer]
    rw [hsame]
    exact ⟨hs, hn⟩
  | some h =>
    rw [stopAudioPlayer_of_pointer hpointer]
    exact ⟨⟨stopped_pointers hs hpointer, by simp [setAudioAppSrc]⟩,
      (numbered_stopped hn : ((w.unref h).setPointer .audioPlayer none).Numbered)⟩

theorem call_keeps_iff (qcs610 : Bool) (c : Call) (hs : w.Sound) (hn : w.Numbered) :
    (c.Keeps qcs610 w ↔ c.Recovers w) ∧ (c.run qcs610 w).Numbered := by
  have hstop {w' : World} (hw : w'.Sound ∧ w'.Numbered) :
      (w.Kept none w' ↔ True) ∧ w'.Numbered := ⟨iff_of_true (kept_none.mpr hw.1) trivial, hw.2⟩
  cases c with
  | startVideo launch =>
    exact startCapture_keeps (videoPipelineDesc qcs610) (addOverlayProbe qcs610) hs hn (by decide)
      (fun p hp => ⟨_, addOverlayProbe_launched qcs610 hp⟩) launch
  | startAudio launch =>
    exact startCapture_keeps (audioPipelineDesc qcs610) (fun _ w => w) hs hn (by decide)
      (fun p _ => ⟨p.probed, rfl⟩) launch
  | startAudioPlayer launch => exact startAudioPlayer_keeps hs hn launch
  | stopVideo => exact hstop (stopCapture_keeps hs hn (by decide))
  | stopAudio => exact hstop (stopCapture_keeps hs hn (by decide))
  | stopAudioPlayer => exact hstop (stopAudioPlayer_keeps hs hn)

/-- For every sequence of calls and outcomes of the launches. -/
theorem pipelines_kept_iff (qcs610 : Bool) (width height fps videoBitrate : ℤ)
    (videoSSRC audioSSRC : ℕ) (calls : List Call) :
    (gstStep qcs610).Along (Call.Keeps qcs610) calls
        (World.fresh width height fps videoBitrate videoSSRC audioSSRC) ↔
      (gstStep qcs610).Along Call.Recovers calls
        (World.fresh width height fps videoBitrate videoSSRC audioSSRC) := by
  refine Step.along_iff (I := fun w => w.Sound ∧ w.Numbered) ?_ ?_ calls _
    ⟨fresh_sound _ _ _ _ _ _, fun _ _ => rfl⟩
  · rintro c w ⟨hs, hn⟩ hc
    obtain ⟨hkeeps, hnumbered⟩ := call_keeps_iff qcs610 c hs hn
    exact ⟨(hkeeps.mpr hc).1, hnumbered⟩
  · rintro c w ⟨hs, hn⟩
    exact (call_keeps_iff qcs610 c hs hn).1

/-- A launch with an error: the pointer is kept, nothing plays, and the next start does nothing. -/
theorem failed_start_sticks :
    let w := World.fresh 720 480 30 1000000 42 43
    ¬(gstStep false).Along (Call.Keeps false) [.startVideo (.recoverable [])] w ∧
      (startVideo false (.recoverable []) w).manager.pipeline .video = some 0 ∧
      startVideo false .pipeline (startVideo false (.recoverable []) w) =
        startVideo false (.recoverable []) w := by
  intro w
  refine ⟨fun h => ?_, by decide, rfl⟩
  obtain ⟨p, hp, -, -, hplays⟩ := ((h [] _ [] rfl).1.pointers .video 0).mp (by decide)
  cases hp
  cases hplays

end ConferenceCall.Gst

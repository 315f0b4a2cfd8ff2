import ConferenceCall.Gst.MainLoop
import ConferenceCall.Library.Action
import ConferenceCall.Library.Holdings

/-! What `GstManager` holds of GStreamer. Every function is a sequence of calls that take, use and
give back references, with the pipelines changed on the way as before. -/

namespace ConferenceCall.Gst

open Library

/-- A reference to an object of GLib or GStreamer. Samples and buffers are counted. -/
inductive Ref where
  | pipeline (h : Handle)
  | element (element : Handle × String)
  | pad (h : Handle)
  | error
  | mainLoop
  | mainThread
  | sample (n : ℕ)
  | mapping (n : ℕ)
  | buffer (n : ℕ)
  deriving DecidableEq

/-- What is done: with a reference, with the handler of a frame or with the player. -/
inductive Doing where
  | handling (h : Handling Ref)
  | frame (handler : ℕ) (data : List UInt8)
  | push (data : List UInt8)

/-- What the libraries answer during a call. -/
structure Answers where
  launch : Launch
  /-- An error comes with a null pipeline. -/
  error : Bool
  /-- `gst_buffer_new_allocate` gives a buffer. -/
  allocated : Bool
  /-- `gst_app_sink_pull_sample` gives a sample. -/
  sample : Bool
  /-- The bytes of the sample, if they can be mapped. -/
  mapped : Option (List UInt8)

/-- The manager over its pipelines, with the handlers of its frames. -/
structure Owner where
  world : World
  /-- `onVideoRTPFrame_`, `onVideoAnnexBFrame_`, `onAudioRTPFrame_` and `onAudioAACFrame_`. -/
  handlers : SampleCallback → Option ℕ := fun _ => none
  samples : ℕ := 0
  buffers : ℕ := 0

abbrev Act := Library.Act Answers Owner Doing

namespace Owner

/-- The pointer to a pipeline. -/
def pointer (medium : Medium) (s : Owner) : Option Handle := s.world.manager.pipeline medium

end Owner

def take (r : Ref) : Act Unit := .record (.handling (.take r))

def use (r : Ref) : Act Unit := .record (.handling (.use r))

def give (r : Ref) : Act Unit := .record (.handling (.give r))

/-- `mainLoop_` is null. -/
def World.clearMainLoop (w : World) : World :=
  { w with manager := { w.manager with mainLoop := false } }

/-- A change of the pipelines. -/
def change (f : World → World) : Act Unit := .modify fun s => { s with world := f s.world }

/-! ### GStreamer -/

/-- A call on a pipeline; a null pointer is only warned of. -/
def usePipeline : Option Handle → Act Unit
  | none => pure ()
  | some h => use (.pipeline h)

def gst_element_set_state (pipeline : Option Handle) (state : ElementState) : Act Unit := do
  usePipeline pipeline
  change (·.setState pipeline state)

def gst_bin_get_by_name (pipeline : Option Handle) (name : String) :
    Act (Option (Handle × String)) := do
  usePipeline pipeline
  match ← .gets fun s => s.world.getByName pipeline name with
  | none => return none
  | some element =>
    take (.element element)
    return some element

/-- The pipeline is put into the pointer of the medium. -/
def gst_parse_launch (medium : Medium) (desc : String) : Act Unit := do
  let launch ← .ask Answers.launch
  change (·.parseLaunch medium desc launch)
  match ← .gets (·.pointer medium) with
  | none => pure ()
  | some h => take (.pipeline h)

/-! ### `GstManager` -/

namespace Owner

/-- A name that is not found is passed over. -/
def setupSink (pipeline : Option Handle) (name : String) (callback : SampleCallback) : Act Unit := do
  match ← gst_bin_get_by_name pipeline name with
  | none => pure ()
  | some sink =>
    use (.element sink)
    change (·.onPipeline pipeline fun p => { p with connected := (name, callback) :: p.connected })
    give (.element sink)

/-- The probe would give the overlay back with the pad gone; but the pad is not given back. -/
def addOverlayProbe (qcs610 : Bool) (pipeline : Option Handle) : Act Unit := do
  if qcs610 then pure ()
  else
    match ← gst_bin_get_by_name pipeline "time_overlay" with
    | none => pure ()
    | some overlay =>
      use (.element overlay)
      take (.pad overlay.1)
      use (.pad overlay.1)
      change (·.onPipeline pipeline fun p => { p with probed := true })

/-- The error of a launch is printed and freed; without one there is nothing to free. -/
def launchError : Act Unit := do
  if ← .ask fun e => decide (e.launch ≠ .null) || e.error then
    take .error
    use .error
    give .error

/-- An error ends the start also when there is a pipeline. -/
def finishCapture (medium : Medium) (prepare : Option Handle → Act Unit) : Act Unit := do
  if ← .ask fun e => decide (e.launch = .pipeline) then
    let pipeline ← .gets (·.pointer medium)
    prepare pipeline
    .each (fun _ sink => setupSink pipeline sink.1 sink.2) 0 medium.sinks
    gst_element_set_state pipeline .playing
  else launchError

def startCapture (medium : Medium) (desc : GstManager → String) (prepare : Option Handle → Act Unit) :
    Act Unit := do
  if ← .gets fun s => (s.pointer medium).isSome then pure ()
  else
    let text ← .gets fun s => desc s.world.manager
    gst_parse_launch medium text
    finishCapture medium prepare

def startVideo (qcs610 : Bool) : Act Unit :=
  startCapture .video (videoPipelineDesc qcs610) (addOverlayProbe qcs610)

def startAudio (qcs610 : Bool) : Act Unit :=
  startCapture .audio (audioPipelineDesc qcs610) fun _ => pure ()

/-- The end of a stop. -/
def release (medium : Medium) (h : Handle) : Act Unit := do
  gst_element_set_state (some h) .null
  change (·.unref h)
  give (.pipeline h)
  change (·.setPointer medium none)

def stopCapture (medium : Medium) : Act Unit := do
  match ← .gets (·.pointer medium) with
  | none => pure ()
  | some h => release medium h

def stopVideo : Act Unit := stopCapture .video

def stopAudio : Act Unit := stopCapture .audio

/-- The loop and its thread are made once. -/
def ensureMainLoop : Act Unit := do
  if ← .gets fun s => s.world.manager.mainLoop then pure ()
  else
    take .mainLoop
    take .mainThread
    change World.setMainLoop

/-- The launch is not asked for an error. -/
def startAudioPlayer : Act Unit := do
  if ← .gets fun s => (s.pointer .audioPlayer).isSome then pure ()
  else
    gst_parse_launch .audioPlayer audioPlayDesc
    let pipeline ← .gets (·.pointer .audioPlayer)
    let source ← gst_bin_get_by_name pipeline "audio_src"
    change (·.setAudioAppSrc source)
    gst_element_set_state pipeline .playing
    ensureMainLoop

def stopAudioPlayer : Act Unit := do
  match ← .gets (·.pointer .audioPlayer) with
  | none => pure ()
  | some h =>
    match ← .gets fun s => s.world.manager.audioAppSrc with
    | none => pure ()
    | some source => give (.element source)
    change (·.setAudioAppSrc none)
    release .audioPlayer h

/-- What the signal does with its buffer is up to GStreamer. -/
def pushAudioFrame (signalTakes : Bool) (data : List UInt8) : Act Unit := do
  match ← .gets fun s => s.world.manager.audioAppSrc with
  | none => pure ()
  | some source =>
    if ← .ask Answers.allocated then
      let n ← .gets Owner.buffers
      .modify fun s => { s with buffers := n + 1 }
      take (.buffer n)
      use (.buffer n)
      use (.element source)
      use (.buffer n)
      .record (.push data)
      if signalTakes then give (.buffer n)

/-- The bytes of a sample go to the handler while they are mapped. -/
def handFrame (n handler : ℕ) : Act Unit := do
  use (.sample n)
  match ← .ask Answers.mapped with
  | none => pure ()
  | some data =>
    take (.mapping n)
    use (.mapping n)
    .record (.frame handler data)
    use (.sample n)
    give (.mapping n)

/-- `onVideoRTPSample`, `onVideoAnnexBSample`, `onAudioRTPSample` and `onAudioAACSample`. -/
def onSample (callback : SampleCallback) : Act Unit := do
  if ← .ask Answers.sample then
    let n ← .gets Owner.samples
    .modify fun s => { s with samples := n + 1 }
    take (.sample n)
    match ← .gets fun s => s.handlers callback with
    | none => pure ()
    | some handler => handFrame n handler
    give (.sample n)

/-- `setOnVideoRTPFrame`, `setOnVideoAnnexBFrame`, `setOnAudioRTPFrame` and `setOnAudioAACFrame`. -/
def setOnFrame (callback : SampleCallback) (handler : ℕ) : Act Unit :=
  .modify fun s => { s with handlers := Function.update s.handlers callback (some handler) }

/-- The loop is quit, its thread joined and the loop given back. -/
def endMainLoop : Act Unit := do
  if ← .gets fun s => s.world.manager.mainLoop then
    use .mainLoop
    give .mainThread
    give .mainLoop
    change World.clearMainLoop

/-- `~GstManager`. -/
def destructor : Act Unit := do
  stopVideo
  stopAudio
  stopAudioPlayer
  endMainLoop

end Owner

/-! ### Calls -/

/-- What happens to a manager. -/
inductive Request where
  | startVideo
  | stopVideo
  | startAudio
  | stopAudio
  | startAudioPlayer
  | stopAudioPlayer
  | pushAudioFrame (data : List UInt8)
  | setOnFrame (callback : SampleCallback) (handler : ℕ)
  | onSample (callback : SampleCallback)

/-- The platform is a constant of the build; GStreamer decides about buffers that are pushed. -/
structure Build where
  qcs610 : Bool
  signalTakes : Bool

def Request.act (b : Build) : Request → Act Unit
  | .startVideo => Owner.startVideo b.qcs610
  | .stopVideo => Owner.stopVideo
  | .startAudio => Owner.startAudio b.qcs610
  | .stopAudio => Owner.stopAudio
  | .startAudioPlayer => Owner.startAudioPlayer
  | .stopAudioPlayer => Owner.stopAudioPlayer
  | .pushAudioFrame data => Owner.pushAudioFrame b.signalTakes data
  | .setOnFrame callback handler => Owner.setOnFrame callback handler
  | .onSample callback => Owner.onSample callback

/-- A call with what the libraries answer. -/
def ownerStep (b : Build) : Step (Request × Answers) Owner Doing := fun i s =>
  ((i.1.act b i.2 s).state, (i.1.act b i.2 s).calls)

variable {b : Build} {e : Answers} {s : Owner}

@[simp] theorem take_apply (r : Ref) : take r e s = ⟨some (), s, [.handling (.take r)]⟩ := rfl

@[simp] theorem use_apply (r : Ref) : use r e s = ⟨some (), s, [.handling (.use r)]⟩ := rfl

@[simp] theorem give_apply (r : Ref) : give r e s = ⟨some (), s, [.handling (.give r)]⟩ := rfl

@[simp] theorem change_apply (f : World → World) :
    change f e s = ⟨some (), { s with world := f s.world }, []⟩ := rfl

/-! ### The pipelines -/

section Pipelines

theorem usePipeline_apply (p : Option Handle) : usePipeline p e s =
    ⟨some (), s, (p.map fun h => Doing.handling (.use (.pipeline h))).toList⟩ := by
  cases p <;> rfl

theorem gst_element_set_state_apply (p : Option Handle) (state : ElementState) :
    gst_element_set_state p state e s =
      ⟨some (), { s with world := s.world.setState p state },
        (p.map fun h => Doing.handling (.use (.pipeline h))).toList⟩ := by
  simp [gst_element_set_state, usePipeline_apply, Outcome.after]

theorem gst_bin_get_by_name_apply (p : Option Handle) (name : String) :
    gst_bin_get_by_name p name e s = ⟨some (s.world.getByName p name), s,
      (p.map fun h => Doing.handling (.use (.pipeline h))).toList ++
        ((s.world.getByName p name).map fun el => Doing.handling (.take (.element el))).toList⟩ := by
  cases h : s.world.getByName p name <;>
    simp [gst_bin_get_by_name, usePipeline_apply, h, Outcome.after]

theorem gst_parse_launch_apply (medium : Medium) (desc : String) :
    gst_parse_launch medium desc e s =
      ⟨some (), { s with world := s.world.parseLaunch medium desc e.launch },
        (((s.world.parseLaunch medium desc e.launch).manager.pipeline medium).map fun h =>
          Doing.handling (.take (.pipeline h))).toList⟩ := by
  cases h : (s.world.parseLaunch medium desc e.launch).manager.pipeline medium <;>
    simp [gst_parse_launch, Owner.pointer, h, Outcome.after]

/-- The pipelines change as `f` says, and the code gets through. -/
def Follows (x : Act Unit) (f : Answers → World → World) : Prop :=
  ∀ e s, (x e s).value = some () ∧ (x e s).state.world = f e s.world

theorem Follows.bind {x y : Act Unit} {f g : Answers → World → World} (hx : Follows x f)
    (hy : Follows y g) : Follows (x >>= fun _ => y) fun e w => g e (f e w) := by
  intro e s
  obtain ⟨hv, hw⟩ := hx e s
  rcases hq : x e s with ⟨v, t, calls⟩
  rw [hq] at hv hw
  cases hv
  obtain ⟨hv', hw'⟩ := hy e t
  rw [Library.Act.bind_apply, hq, Outcome.andThen_some]
  exact ⟨hv', hw'.trans (congrArg (g e) hw)⟩

theorem Follows.each {α : Type} {f : ℕ → α → Act Unit} {g : World → α → World}
    (hf : ∀ i a, Follows (f i a) fun _ w => g w a) (i : ℕ) (l : List α) :
    Follows (.each f i l) fun _ w => l.foldl g w := by
  induction l generalizing i with
  | nil => exact fun _ _ => ⟨rfl, rfl⟩
  | cons a l ih => exact (hf i a).bind (ih (i + 1))

theorem gst_element_set_state_follows (p : Option Handle) (state : ElementState) :
    Follows (gst_element_set_state p state) fun _ w => w.setState p state := by
  intro e s
  rw [gst_element_set_state_apply]
  exact ⟨rfl, rfl⟩

theorem setupSink_follows (p : Option Handle) (name : String) (callback : SampleCallback) :
    Follows (Owner.setupSink p name callback) fun _ => setupSink p name callback := by
  intro e s
  cases h : s.world.getByName p name <;>
    simp [Owner.setupSink, gst_bin_get_by_name_apply, h, setupSink]

theorem addOverlayProbe_follows (qcs610 : Bool) (p : Option Handle) :
    Follows (Owner.addOverlayProbe qcs610 p) fun _ => addOverlayProbe qcs610 p := by
  intro e s
  cases qcs610 with
  | true => exact ⟨rfl, rfl⟩
  | false =>
    cases h : s.world.getByName p "time_overlay" <;>
      simp [Owner.addOverlayProbe, gst_bin_get_by_name_apply, h, addOverlayProbe]

theorem launchError_follows : Follows Owner.launchError fun _ w => w := by
  intro e s
  simp only [Owner.launchError, Library.Act.bind_apply, Library.Act.ask_apply,
    Outcome.andThen_some, Outcome.after_nil]
  split_ifs <;> exact ⟨rfl, rfl⟩

/-- What a start does with a launched pipeline. -/
theorem finishCapture_follows (medium : Medium) {prepare : Option Handle → Act Unit}
    {f : Option Handle → World → World} (hprepare : ∀ p, Follows (prepare p) fun _ => f p) :
    Follows (Owner.finishCapture medium prepare) fun e w =>
      if e.launch = .pipeline then
        (medium.sinks.foldl (fun w' sink => setupSink (w.manager.pipeline medium) sink.1 sink.2 w')
          (f (w.manager.pipeline medium) w)).setState (w.manager.pipeline medium) .playing
      else w := by
  intro e s
  by_cases hl : e.launch = .pipeline
  · have hsinks : Follows (.each (fun _ sink => Owner.setupSink (s.pointer medium) sink.1 sink.2) 0
        medium.sinks) fun _ w =>
          medium.sinks.foldl (fun w sink => setupSink (s.pointer medium) sink.1 sink.2 w) w := by
      refine Follows.each (fun i sink => ?_) 0 _
      exact setupSink_follows _ sink.1 sink.2
    have hall := (hprepare (s.pointer medium)).bind
      (hsinks.bind (gst_element_set_state_follows (s.pointer medium) .playing)) e s
    simp only [Owner.finishCapture, Library.Act.bind_apply, Library.Act.ask_apply, hl, decide_true,
      Outcome.andThen_some, Outcome.after_nil, if_true]
    exact hall
  · simp only [Owner.finishCapture, Library.Act.bind_apply, Library.Act.ask_apply, hl, decide_false,
      Outcome.andThen_some, Outcome.after_nil, if_false, Bool.false_eq_true]
    exact launchError_follows e s

/-- Setting up the sinks leaves the pointer that is read for each of them. -/
theorem foldl_setupSink (medium : Medium) (sinks : List (String × SampleCallback)) (w : World) :
    (sinks.foldl (fun w' sink => setupSink (w.manager.pipeline medium) sink.1 sink.2 w') w).manager =
        w.manager ∧
      sinks.foldl (fun w' sink => setupSink (w'.manager.pipeline medium) sink.1 sink.2 w') w =
        sinks.foldl (fun w' sink => setupSink (w.manager.pipeline medium) sink.1 sink.2 w') w := by
  induction sinks generalizing w with
  | nil => exact ⟨rfl, rfl⟩
  | cons sink sinks ih =>
    have hm := setupSink_manager w (w.manager.pipeline medium) sink.1 sink.2
    obtain ⟨hm', hw⟩ := ih (setupSink (w.manager.pipeline medium) sink.1 sink.2 w)
    rw [hm] at hm' hw
    exact ⟨hm', hw⟩

/-- A start of a pipeline without errors. -/
theorem startCapture_pipeline {medium : Medium} {desc : GstManager → String}
    {f : Option Handle → World → World} {w w' : World} (hf : ∀ p w, (f p w).manager = w.manager)
    (hnone : w.manager.pipeline medium = none)
    (hw : w.parseLaunch medium (desc w.manager) .pipeline = w') :
    startCapture medium desc f .pipeline w =
      (medium.sinks.foldl (fun v sink => setupSink (w'.manager.pipeline medium) sink.1 sink.2 v)
        (f (w'.manager.pipeline medium) w')).setState (w'.manager.pipeline medium) .playing := by
  have hpointer : (w'.manager.pipeline medium).isNone = false := by
    rw [← hw]
    simp [World.parseLaunch, World.setPointer]
  obtain ⟨hm, hsinks⟩ := foldl_setupSink medium medium.sinks (f (w'.manager.pipeline medium) w')
  rw [hf] at hm hsinks
  simp only [startCapture, hnone, hw, hpointer, Option.isSome_none, Bool.false_eq_true, if_false,
    ne_eq, not_true, or_self]
  rw [hsinks, hm]

theorem startCapture_follows (medium : Medium) (desc : GstManager → String)
    {prepare : Option Handle → Act Unit} {f : Option Handle → World → World}
    (hprepare : ∀ p, Follows (prepare p) fun _ => f p)
    (hf : ∀ p w, (f p w).manager = w.manager) :
    Follows (Owner.startCapture medium desc prepare) fun e => startCapture medium desc f e.launch := by
  intro e s
  cases hp : s.pointer medium with
  | some h =>
    have hw : s.world.manager.pipeline medium = some h := hp
    rw [Owner.startCapture, Library.Act.gets_bind, hp]
    simp [startCapture, hw]
  | none =>
    have hw : s.world.manager.pipeline medium = none := hp
    have hlaunch : Follows (gst_parse_launch medium (desc s.world.manager)) fun e w =>
        w.parseLaunch medium (desc s.world.manager) e.launch := by
      intro e s'
      rw [gst_parse_launch_apply]
      exact ⟨rfl, rfl⟩
    obtain ⟨hv, hall⟩ := hlaunch.bind (finishCapture_follows medium hprepare) e s
    rw [Owner.startCapture, Library.Act.gets_bind, hp]
    simp only [Option.isSome_none, Bool.false_eq_true, if_false, Library.Act.gets_bind]
    refine ⟨hv, hall.trans ?_⟩
    beta_reduce
    by_cases hl : e.launch = .pipeline
    · rw [hl, if_pos rfl]
      exact (startCapture_pipeline hf hw rfl).symm
    · simp [startCapture, hw, hl]

theorem release_follows (medium : Medium) (h : Handle) : Follows (Owner.release medium h) fun _ w =>
    ((w.setState (some h) .null).unref h).setPointer medium none := by
  intro e s
  simp [Owner.release, gst_element_set_state_apply]

theorem stopCapture_follows (medium : Medium) :
    Follows (Owner.stopCapture medium) fun _ => stopCapture medium := by
  intro e s
  have hp : s.world.manager.pipeline medium = s.pointer medium := rfl
  rw [Owner.stopCapture, Library.Act.gets_bind]
  simp only [stopCapture, hp]
  cases s.pointer medium with
  | none => exact ⟨rfl, rfl⟩
  | some h => exact release_follows medium h e s

theorem ensureMainLoop_follows : Follows Owner.ensureMainLoop fun _ w =>
    if w.manager.mainLoop then w else w.setMainLoop := by
  intro e s
  rw [Owner.ensureMainLoop, Library.Act.gets_bind]
  cases hl : s.world.manager.mainLoop <;> simp [hl]

theorem startAudioPlayer_follows :
    Follows Owner.startAudioPlayer fun e => startAudioPlayer e.launch := by
  intro e s
  cases hp : s.pointer .audioPlayer with
  | some h =>
    have hw : s.world.manager.pipeline .audioPlayer = some h := hp
    rw [Owner.startAudioPlayer, Library.Act.gets_bind, hp]
    simp [startAudioPlayer, hw]
  | none =>
    have hw : s.world.manager.pipeline .audioPlayer = none := hp
    rw [Owner.startAudioPlayer, Library.Act.gets_bind, hp]
    simp only [Option.isSome_none, Bool.false_eq_true, if_false]
    rw [Library.Act.bind_apply, gst_parse_launch_apply, Outcome.andThen_some, Library.Act.gets_bind,
      Library.Act.bind_apply, gst_bin_get_by_name_apply, Outcome.andThen_some,
      Library.Act.bind_apply, change_apply, Outcome.andThen_some, Library.Act.bind_apply,
      gst_element_set_state_apply, Outcome.andThen_some]
    simp only [startAudioPlayer, hw, Option.isSome_none, Bool.false_eq_true, if_false]
    exact ensureMainLoop_follows e _

theorem stopAudioPlayer_follows : Follows Owner.stopAudioPlayer fun _ => stopAudioPlayer := by
  intro e s
  have hp : s.world.manager.pipeline .audioPlayer = s.pointer .audioPlayer := rfl
  rw [Owner.stopAudioPlayer, Library.Act.gets_bind]
  simp only [stopAudioPlayer, hp]
  cases s.pointer .audioPlayer with
  | none => exact ⟨rfl, rfl⟩
  | some h =>
    simp only [Library.Act.gets_bind]
    cases s.world.manager.audioAppSrc <;>
      exact release_follows .audioPlayer h e { s with world := s.world.setAudioAppSrc none }

/-- The call on the pipelines that a request is. -/
def Request.call (e : Answers) : Request → Option Call
  | .startVideo => some (.startVideo e.launch)
  | .stopVideo => some .stopVideo
  | .startAudio => some (.startAudio e.launch)
  | .stopAudio => some .stopAudio
  | .startAudioPlayer => some (.startAudioPlayer e.launch)
  | .stopAudioPlayer => some .stopAudioPlayer
  | .pushAudioFrame _ | .setOnFrame _ _ | .onSample _ => none

theorem pushAudioFrame_follows (signalTakes : Bool) (data : List UInt8) :
    Follows (Owner.pushAudioFrame signalTakes data) fun _ w => w := by
  intro e s
  rw [Owner.pushAudioFrame, Library.Act.gets_bind]
  cases s.world.manager.audioAppSrc with
  | none => exact ⟨rfl, rfl⟩
  | some source =>
    simp only [Library.Act.bind_apply, Library.Act.ask_apply, Outcome.andThen_some]
    cases e.allocated <;> cases signalTakes <;> exact ⟨rfl, rfl⟩

theorem handFrame_follows (n handler : ℕ) : Follows (Owner.handFrame n handler) fun _ w => w := by
  intro e s
  simp only [Owner.handFrame, Library.Act.bind_apply, use_apply, Library.Act.ask_apply,
    Outcome.andThen_some]
  cases e.mapped <;> exact ⟨rfl, rfl⟩

theorem onSample_follows (callback : SampleCallback) :
    Follows (Owner.onSample callback) fun _ w => w := by
  intro e s
  simp only [Owner.onSample, Library.Act.bind_apply, Library.Act.ask_apply, Outcome.andThen_some]
  cases e.sample with
  | false => exact ⟨rfl, rfl⟩
  | true =>
    have hgive (n : ℕ) : Follows (give (.sample n)) fun _ w => w := fun _ _ => ⟨rfl, rfl⟩
    simp only [if_true, Library.Act.bind_apply, Library.Act.gets_apply, Library.Act.modify_apply,
      take_apply, Outcome.andThen_some]
    cases s.handlers callback with
    | none => exact ⟨rfl, rfl⟩
    | some handler =>
      exact (handFrame_follows s.samples handler).bind (hgive s.samples) e
        { s with samples := s.samples + 1 }

theorem startVideo_follows (qcs610 : Bool) :
    Follows (Owner.startVideo qcs610) fun e => startVideo qcs610 e.launch :=
  startCapture_follows .video _ (addOverlayProbe_follows qcs610)
    fun p w => addOverlayProbe_manager w qcs610 p

theorem startAudio_follows (qcs610 : Bool) :
    Follows (Owner.startAudio qcs610) fun e => startAudio qcs610 e.launch :=
  startCapture_follows .audio _ (fun _ _ _ => ⟨rfl, rfl⟩) fun _ _ => rfl

/-- On the pipelines the requests are the calls of before, with no reference in sight. -/
theorem act_follows (b : Build) (r : Request) : Follows (r.act b) fun e w =>
    (r.call e).elim w fun c => c.run b.qcs610 w := by
  cases r <;> simp only [Request.act, Request.call, Option.elim_some, Option.elim_none, Call.run]
  case startVideo => exact startVideo_follows b.qcs610
  case stopVideo => exact stopCapture_follows .video
  case startAudio => exact startAudio_follows b.qcs610
  case stopAudio => exact stopCapture_follows .audio
  case startAudioPlayer => exact startAudioPlayer_follows
  case stopAudioPlayer => exact stopAudioPlayer_follows
  case pushAudioFrame data => exact pushAudioFrame_follows b.signalTakes data
  case setOnFrame callback handler => exact fun _ _ => ⟨rfl, rfl⟩
  case onSample callback => exact onSample_follows callback

theorem endMainLoop_follows : Follows Owner.endMainLoop fun _ w => w.clearMainLoop := by
  intro e s
  rw [Owner.endMainLoop, Library.Act.gets_bind]
  cases hl : s.world.manager.mainLoop with
  | true => exact ⟨rfl, rfl⟩
  | false =>
    refine ⟨rfl, ?_⟩
    change s.world = s.world.clearMainLoop
    rw [World.clearMainLoop, ← hl]

theorem destructor_follows : Follows Owner.destructor fun _ w =>
    (stopAudioPlayer (stopAudio (stopVideo w))).clearMainLoop :=
  (stopCapture_follows .video).bind ((stopCapture_follows .audio).bind
    (stopAudioPlayer_follows.bind endMainLoop_follows))

end Pipelines

end ConferenceCall.Gst

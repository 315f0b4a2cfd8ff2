import ConferenceCall.Gst.Ownership
import ConferenceCall.Gst.Playing
import ConferenceCall.Media.Studio

/-! What the calls on a `GstManager` do to its frame handlers, its player and its captures. -/

namespace ConferenceCall.Media

open Library
open Gst (Owner SampleCallback Medium Answers Build Request ownerStep)

/-- The frame handlers stay as they are. -/
abbrev Keeps {α : Type} (x : Gst.Act α) : Prop :=
  Act.Within (fun s t : Owner => t.handlers = s.handlers) (fun _ => True) x

variable {b : Build} {e : Answers} {s : Owner}

section Handlers

theorem keeps_bind {α β : Type} {x : Gst.Act α} {f : α → Gst.Act β} (hx : Keeps x)
    (hf : ∀ a, Keeps (f a)) : Keeps (x >>= f) :=
  .bind (fun _ _ _ h h' => h'.trans h) hx hf

theorem keeps_pure {α : Type} (a : α) : Keeps (pure a) := fun _ _ => ⟨rfl, fun _ _ => trivial⟩

theorem keeps_gets {α : Type} (f : Owner → α) : Keeps (.gets f) :=
  fun _ _ => ⟨rfl, fun _ _ => trivial⟩

theorem keeps_ask {α : Type} (f : Answers → α) : Keeps (.ask f) :=
  fun _ _ => ⟨rfl, fun _ _ => trivial⟩

theorem keeps_change (f : Gst.World → Gst.World) : Keeps (Gst.change f) :=
  fun _ _ => ⟨rfl, fun _ _ => trivial⟩

theorem keeps_record (d : Gst.Doing) : Keeps (.record d) := fun _ _ => ⟨rfl, fun _ _ => trivial⟩

theorem usePipeline_keeps (p : Option Gst.Handle) : Keeps (Gst.usePipeline p) := by
  cases p with
  | none => exact keeps_pure ()
  | some h => exact keeps_record _

theorem gst_element_set_state_keeps (p : Option Gst.Handle) (state : Gst.ElementState) :
    Keeps (Gst.gst_element_set_state p state) :=
  keeps_bind (usePipeline_keeps p) fun _ => keeps_change _

theorem gst_bin_get_by_name_keeps (p : Option Gst.Handle) (name : String) :
    Keeps (Gst.gst_bin_get_by_name p name) := by
  refine keeps_bind (usePipeline_keeps p) fun _ => keeps_bind (keeps_gets _) fun found => ?_
  cases found with
  | none => exact keeps_pure none
  | some element => exact keeps_bind (keeps_record _) fun _ => keeps_pure _

theorem gst_parse_launch_keeps (medium : Medium) (desc : String) :
    Keeps (Gst.gst_parse_launch medium desc) := by
  refine keeps_bind (keeps_ask _) fun launch => keeps_bind (keeps_change _) fun _ =>
    keeps_bind (keeps_gets _) fun pipeline => ?_
  cases pipeline with
  | none => exact keeps_pure ()
  | some h => exact keeps_record _

theorem setupSink_keeps (p : Option Gst.Handle) (name : String) (callback : SampleCallback) :
    Keeps (Owner.setupSink p name callback) := by
  refine keeps_bind (gst_bin_get_by_name_keeps p name) fun sink => ?_
  cases sink with
  | none => exact keeps_pure ()
  | some sink =>
    exact keeps_bind (keeps_record _) fun _ => keeps_bind (keeps_change _) fun _ => keeps_record _

theorem addOverlayProbe_keeps (qcs610 : Bool) (p : Option Gst.Handle) :
    Keeps (Owner.addOverlayProbe qcs610 p) := by
  cases qcs610 with
  | true => exact keeps_pure ()
  | false =>
    refine keeps_bind (gst_bin_get_by_name_keeps p _) fun overlay => ?_
    cases overlay with
    | none => exact keeps_pure ()
    | some overlay =>
      exact keeps_bind (keeps_record _) fun _ => keeps_bind (keeps_record _) fun _ =>
        keeps_bind (keeps_record _) fun _ => keeps_change _

theorem launchError_keeps : Keeps Owner.launchError := by
  refine keeps_bind (keeps_ask _) fun failed => ?_
  cases failed with
  | false => exact keeps_pure ()
  | true => exact keeps_bind (keeps_record _) fun _ => keeps_bind (keeps_record _) fun _ =>
      keeps_record _

theorem startCapture_keeps (medium : Medium) (desc : Gst.GstManager → String)
    {prepare : Option Gst.Handle → Gst.Act Unit} (hprepare : ∀ p, Keeps (prepare p)) :
    Keeps (Owner.startCapture medium desc prepare) := by
  refine keeps_bind (keeps_gets _) fun running => ?_
  cases running with
  | true => exact keeps_pure ()
  | false =>
    refine keeps_bind (keeps_gets _) fun text => keeps_bind (gst_parse_launch_keeps medium text)
      fun _ => keeps_bind (keeps_ask _) fun launched => ?_
    cases launched with
    | false => exact launchError_keeps
    | true =>
      refine keeps_bind (keeps_gets _) fun pipeline => keeps_bind (hprepare pipeline) fun _ =>
        keeps_bind ?_ fun _ => gst_element_set_state_keeps pipeline .playing
      exact Act.Within.each (R := fun s t : Owner => t.handlers = s.handlers) (fun _ => rfl)
        (fun _ _ _ h h' => h'.trans h) _ (fun _ sink _ => setupSink_keeps pipeline sink.1 sink.2) 0

theorem startAudioPlayer_keeps : Keeps Owner.startAudioPlayer := by
  refine keeps_bind (keeps_gets _) fun running => ?_
  cases running with
  | true => exact keeps_pure ()
  | false =>
    refine keeps_bind (gst_parse_launch_keeps _ _) fun _ => keeps_bind (keeps_gets _)
      fun pipeline => keeps_bind (gst_bin_get_by_name_keeps pipeline _) fun source =>
      keeps_bind (keeps_change _) fun _ =>
      keeps_bind (gst_element_set_state_keeps pipeline .playing) fun _ =>
      keeps_bind (keeps_gets _) fun loop => ?_
    cases loop with
    | true => exact keeps_pure ()
    | false => exact keeps_bind (keeps_record _) fun _ => keeps_bind (keeps_record _) fun _ =>
        keeps_change _

theorem start_keeps (kind : Kind) : Keeps (kind.start.act b) := by
  cases kind with
  | video => exact startCapture_keeps .video _ fun p => addOverlayProbe_keeps b.qcs610 p
  | audio => exact startCapture_keeps .audio _ fun _ => keeps_pure ()

end Handlers

/-! ### The pipelines -/

section Pipelines

/-- The launch gives a pipeline with the element that packets are pushed into. -/
def hasSource : Gst.Launch → Bool
  | .null => false
  | .pipeline => true
  | .recoverable missing => "audio_src" ∉ missing

/-- A start of a capture is about its own pointer only. -/
theorem startCapture_manager (medium : Medium) (desc : Gst.GstManager → String)
    {prepare : Option Gst.Handle → Gst.World → Gst.World}
    (hprepare : ∀ p w, (prepare p w).manager = w.manager) (launch : Gst.Launch) (w : Gst.World) :
    ∃ p, (Gst.startCapture medium desc prepare launch w).manager =
      { w.manager with pipeline := Function.update w.manager.pipeline medium p } := by
  unfold Gst.startCapture
  dsimp only
  split_ifs
  · exact ⟨w.manager.pipeline medium, by rw [Function.update_eq_self]⟩
  · exact ⟨_, Gst.parseLaunch_manager medium _ launch w⟩
  · rw [Gst.World.setState, Gst.onPipeline_manager, Gst.setupSinks_manager, hprepare]
    exact ⟨_, Gst.parseLaunch_manager medium _ launch w⟩

theorem start_manager (kind : Kind) : ∃ p, (kind.start.act b e s).state.world.manager =
    { s.world.manager with
      pipeline := Function.update s.world.manager.pipeline kind.medium p } := by
  rw [(Gst.act_follows b kind.start e s).2]
  cases kind with
  | video =>
    exact startCapture_manager .video _ (fun p w => Gst.addOverlayProbe_manager w b.qcs610 p) _ _
  | audio => exact startCapture_manager .audio _ (fun _ _ => rfl) _ _

theorem start_pointer (kind : Kind) {medium : Medium} (hne : medium ≠ kind.medium) :
    (kind.start.act b e s).state.pointer medium = s.pointer medium := by
  obtain ⟨p, hp⟩ := start_manager (b := b) (e := e) (s := s) kind
  rw [Owner.pointer, hp]
  exact Function.update_of_ne hne _ _

/-- A start of the player, when there is none, finds the source or does not. -/
theorem startAudioPlayer_manager {w : Gst.World} (hnone : w.manager.pipeline .audioPlayer = none)
    (launch : Gst.Launch) : (Gst.startAudioPlayer launch w).manager =
      { w.manager with
        pipeline := Function.update w.manager.pipeline .audioPlayer
          (if launch = .null then none else some w.next)
        audioAppSrc := if hasSource launch then some (w.next, "audio_src") else none
        mainLoop := true } := by
  have hloop (v : Gst.World) : (if v.manager.mainLoop then v else v.setMainLoop).manager =
      { v.manager with mainLoop := true } := by
    rw [Gst.World.ite_setMainLoop]
    rfl
  have hidle : ¬ (w.manager.pipeline .audioPlayer).isSome = true := by simp [hnone]
  unfold Gst.startAudioPlayer
  rw [if_neg hidle]
  dsimp only
  rw [hloop, Gst.World.setState, Gst.onPipeline_manager, Gst.World.setAudioAppSrc]
  cases launch with
  | null => simp [Gst.World.parseLaunch, Gst.World.setPointer, Gst.World.getByName, hasSource]
  | pipeline => simp [Gst.World.parseLaunch, Gst.World.setPointer, Gst.World.getByName, hasSource]
  | recoverable missing =>
    by_cases hm : "audio_src" ∈ missing <;>
      simp [Gst.World.parseLaunch, Gst.World.setPointer, Gst.World.getByName, hasSource, hm]

theorem startAudioPlayer_spec (hnone : s.pointer .audioPlayer = none) :
    let t := (Request.startAudioPlayer.act b e s).state
    t.handlers = s.handlers ∧ t.world.manager.audioAppSrc.isSome = hasSource e.launch ∧
      ∀ kind : Kind, t.pointer kind.medium = s.pointer kind.medium := by
  have hmanager : (Request.startAudioPlayer.act b e s).state.world.manager = _ :=
    (congrArg Gst.World.manager (Gst.act_follows b .startAudioPlayer e s).2).trans
      (startAudioPlayer_manager hnone e.launch)
  refine ⟨(startAudioPlayer_keeps e s).1, ?_, fun kind => ?_⟩
  · rw [hmanager]
    cases hasSource e.launch <;> rfl
  · rw [Owner.pointer, hmanager]
    exact Function.update_of_ne (by cases kind <;> decide) _ _

/-- A new `GstManager` has no frame handlers, and captures nothing for a player. -/
theorem makeGst_spec (b : Build) (isPlayer : Bool) (answers : Medium → Answers) :
    let o := makeGst b isPlayer answers
    (∀ callback, o.handlers callback = none) ∧
      o.world.manager.audioAppSrc.isSome = hasSource (answers .audioPlayer).launch ∧
      (isPlayer = true → ∀ kind : Kind, o.pointer kind.medium = none) := by
  intro o
  cases isPlayer with
  | true =>
    obtain ⟨hhandlers, hsource, hpointers⟩ :=
      startAudioPlayer_spec (b := b) (e := answers .audioPlayer) (s := newGst) rfl
    have hall : o.handlers = newGst.handlers := hhandlers
    exact ⟨fun _ => by rw [hall]; rfl, hsource, fun _ => hpointers⟩
  | false =>
    -- the player comes last, and the captures leave its pointer null
    let s₁ := (Kind.video.start.act b (answers .video) newGst).state
    let s₂ := (Kind.audio.start.act b (answers .audio) s₁).state
    have hnone : s₂.pointer .audioPlayer = none :=
      (start_pointer .audio (by decide)).trans (start_pointer .video (by decide))
    obtain ⟨hhandlers, hsource, -⟩ :=
      startAudioPlayer_spec (b := b) (e := answers .audioPlayer) hnone
    have hall : o.handlers = newGst.handlers := hhandlers.trans
      ((start_keeps .audio (answers .audio) s₁).1.trans
        (start_keeps .video (answers .video) newGst).1)
    exact ⟨fun _ => by rw [hall]; rfl, hsource, fun hplayer => by cases hplayer⟩

end Pipelines

/-! ### Packets and samples -/

section Streams

theorem pushAudioFrame_spec (data : List UInt8) :
    let r := (Request.pushAudioFrame data).act b e s
    r.state.world = s.world ∧ r.state.handlers = s.handlers ∧ r.calls.filterMap playedOf =
      if s.world.manager.audioAppSrc.isSome && e.allocated then [.push data] else [] := by
  intro r
  have hr : r = Owner.pushAudioFrame b.signalTakes data e s := rfl
  rw [Owner.pushAudioFrame, Act.gets_bind] at hr
  cases hsource : s.world.manager.audioAppSrc with
  | none =>
    rw [hsource] at hr
    rw [hr]
    exact ⟨rfl, rfl, rfl⟩
  | some source =>
    simp only [hsource, Act.bind_apply, Act.ask_apply, Outcome.andThen_some] at hr
    rw [hr]
    cases e.allocated <;> cases b.signalTakes <;> exact ⟨rfl, rfl, rfl⟩

/-- Every packet is played, or none. -/
theorem play_spec (answers : Answers) (packets : List (List UInt8)) (o : Owner) :
    let r := play b answers packets o
    r.1.world = o.world ∧ r.1.handlers = o.handlers ∧ r.2 =
      if o.world.manager.audioAppSrc.isSome && answers.allocated then packets.map .push else [] := by
  induction packets generalizing o with
  | nil => simp [play]
  | cons data packets ih =>
    obtain ⟨hw, hh, hplayed⟩ := pushAudioFrame_spec (b := b) (e := answers) (s := o) data
    obtain ⟨hw', hh', hplayed'⟩ := ih ((Request.pushAudioFrame data).act b answers o).state
    refine ⟨hw'.trans hw, hh'.trans hh, ?_⟩
    rw [hw] at hplayed'
    simp only [play, List.map_cons, Step.run_cons, Gst.ownerStep, List.filterMap_append] at hplayed' ⊢
    rw [hplayed, hplayed']
    split_ifs <;> simp

/-- What a handler gets is sent if its track is open. -/
theorem handFrame_spec (n pc : ℕ) (isOpen : LocalTrack → Bool) (kind : Kind) :
    ∃ calls, Owner.handFrame n pc e s = ⟨some (), s, calls⟩ ∧
      calls.filterMap (sentOf isOpen kind) = (e.mapped.bind fun data =>
        if isOpen ⟨pc, kind⟩ then some (.frame ⟨pc, kind⟩ data) else none).toList := by
  cases hm : e.mapped with
  | none =>
    refine ⟨[.handling (.use (.sample n))], ?_, rfl⟩
    simp [Owner.handFrame, hm, Outcome.after]
  | some data =>
    refine ⟨[.handling (.use (.sample n)), .handling (.take (.mapping n)),
      .handling (.use (.mapping n)), .frame pc data, .handling (.use (.sample n)),
      .handling (.give (.mapping n))], ?_, ?_⟩
    · simp [Owner.handFrame, hm, Outcome.after, Act.record]
    · cases ho : isOpen ⟨pc, kind⟩ <;> simp [List.filterMap_cons, sentOf, ho]

/-- The frame that a sample is for the track of a handler. -/
theorem onSample_spec (callback : SampleCallback) (isOpen : LocalTrack → Bool) (kind : Kind) :
    let r := Owner.onSample callback e s
    r.state.world = s.world ∧ r.state.handlers = s.handlers ∧
      r.calls.filterMap (sentOf isOpen kind) =
        if e.sample then
          ((s.handlers callback).bind fun pc => e.mapped.bind fun data =>
            if isOpen ⟨pc, kind⟩ then some (.frame ⟨pc, kind⟩ data) else none).toList
        else [] := by
  intro r
  have hr : r = Owner.onSample callback e s := rfl
  simp only [Owner.onSample, Act.bind_apply, Act.ask_apply, Outcome.andThen_some] at hr
  cases hsample : e.sample with
  | false =>
    simp only [hsample, Bool.false_eq_true, if_false] at hr
    rw [hr]
    exact ⟨rfl, rfl, rfl⟩
  | true =>
    simp only [hsample, if_true, Act.bind_apply, Act.gets_apply, Act.modify_apply, Gst.take_apply,
      Outcome.andThen_some, Outcome.after_nil] at hr
    cases hhandler : s.handlers callback with
    | none =>
      rw [hhandler] at hr
      rw [hr]
      exact ⟨rfl, rfl, rfl⟩
    | some pc =>
      obtain ⟨calls, hhand, hsent⟩ := handFrame_spec (e := e)
        (s := { s with samples := s.samples + 1 }) s.samples pc isOpen kind
      simp only [hhandler, Act.bind_apply, hhand, Outcome.andThen_some, Gst.give_apply] at hr
      rw [hr]
      refine ⟨rfl, rfl, ?_⟩
      simp [List.filterMap_cons, sentOf, hsent]

end Streams

end ConferenceCall.Media

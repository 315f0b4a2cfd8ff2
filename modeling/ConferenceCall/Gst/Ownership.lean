import Mathlib.Algebra.Order.Group.Multiset
import ConferenceCall.Gst.References

/-! `GstManager` gives back what it takes, whatever GStreamer answers, but for its overlays with their
pads and for the buffers it pushes. -/

namespace ConferenceCall.Gst

open Library Handling

/-- The reference something is done with. -/
def Doing.reference : Doing → Option (Handling Ref)
  | .handling h => some h
  | .frame _ _ | .push _ => none

def handlings (l : List Doing) : List (Handling Ref) := l.filterMap Doing.reference

/-- What is taken and not given back. -/
def Doing.lost (b : Build) : Doing → Option Ref
  | .handling (.take (.pad h)) => if b.qcs610 then none else some (.pad h)
  | .handling (.take (.element element)) =>
    if b.qcs610 ∨ element.2 ≠ "time_overlay" then none else some (.element element)
  | .handling (.take (.buffer n)) => if b.signalTakes then none else some (.buffer n)
  | _ => none

def lost (b : Build) (l : List Doing) : Multiset Ref := ↑(l.filterMap (Doing.lost b))

/-- Who holds `A` may do this, and then holds `B` and what is lost. -/
def Accounts (b : Build) (l : List Doing) (A B : Multiset Ref) : Prop :=
  Turns (handlings l) A (B + lost b l)

variable {b : Build} {e : Answers} {s : Owner} {l l' : List Doing} {A B C D : Multiset Ref} {r : Ref}

section Accounts

theorem accounts_nil : Accounts b [] A A := by
  rw [Accounts, lost, List.filterMap_nil, Multiset.coe_nil, add_zero]
  exact turns_nil

theorem Accounts.append (h : Accounts b l A B) (h' : Accounts b l' B C) :
    Accounts b (l ++ l') A C := by
  have hlost : lost b (l ++ l') = lost b l' + lost b l := by
    rw [lost, List.filterMap_append, ← Multiset.coe_add, add_comm]
    rfl
  rw [Accounts, handlings, List.filterMap_append, hlost, ← add_assoc]
  exact Turns.continue h h'

/-- More may be held. -/
theorem Accounts.frame (h : Accounts b l A B) (C : Multiset Ref) :
    Accounts b l (A + C) (B + C) := by
  have hframe := Turns.frame h C
  rwa [add_right_comm] at hframe

theorem accounts_use (h : r ∈ A) :
    Accounts b (.handling (.use r) :: l) A B ↔ Accounts b l A B := turns_use h

theorem accounts_give :
    Accounts b (.handling (.give r) :: l) (r ::ₘ A) B ↔ Accounts b l A B := turns_give_cons

theorem accounts_take (h : Doing.lost b (.handling (.take r)) = none) :
    Accounts b (.handling (.take r) :: l) A B ↔ Accounts b l (r ::ₘ A) B := by
  rw [Accounts, lost, List.filterMap_cons_none h]
  exact turns_take

theorem accounts_lose (h : Doing.lost b (.handling (.take r)) = some r) :
    Accounts b (.handling (.take r) :: l) A B ↔ Accounts b l (r ::ₘ A) (r ::ₘ B) := by
  rw [Accounts, lost, List.filterMap_cons_some h, ← Multiset.cons_coe, Multiset.add_cons,
    ← Multiset.cons_add]
  exact turns_take

/-- What two threads do may be mixed. -/
theorem Accounts.merge {t : List Doing} (h : Merged l l' t) (hl : Accounts b l A B)
    (hl' : Accounts b l' C D) : Accounts b t (A + C) (B + D) := by
  have hlost : lost b t = lost b l + lost b l' := (h.filterMap (Doing.lost b)).coe
  have hmerge := Turns.merge (h.filterMap Doing.reference) hl hl'
  rwa [add_add_add_comm, ← hlost] at hmerge

theorem lost_element {element : Handle × String} (h : element.2 ≠ "time_overlay") :
    Doing.lost b (.handling (.take (.element element))) = none := if_pos (.inr h)

end Accounts

/-! ### What a manager holds -/

/-- The reference of a pointer to a pipeline. -/
def held (p : Option Handle) : Multiset Ref := p.elim 0 fun h => {.pipeline h}

/-- What the members of a manager refer to. -/
def own (m : GstManager) : Multiset Ref :=
  held (m.pipeline .video) + held (m.pipeline .audio) + held (m.pipeline .audioPlayer) +
    m.audioAppSrc.elim 0 (fun source => {.element source}) +
    if m.mainLoop then {.mainThread, .mainLoop} else 0

/-- The source of the player is there with its pipeline only. -/
def Safe (m : GstManager) : Prop := m.audioAppSrc.isSome → (m.pipeline .audioPlayer).isSome

/-- One pointer by itself. -/
theorem own_pointer (m : GstManager) (medium : Medium) : ∃ R, own m = held (m.pipeline medium) + R ∧
    ∀ p, own { m with pipeline := Function.update m.pipeline medium p } = held p + R := by
  cases medium
  · refine ⟨held (m.pipeline .audio) + held (m.pipeline .audioPlayer) +
      m.audioAppSrc.elim 0 (fun source => {.element source}) +
      if m.mainLoop then {.mainThread, .mainLoop} else 0, ?_, fun p => ?_⟩ <;>
      simp [own, add_assoc]
  · refine ⟨held (m.pipeline .video) + held (m.pipeline .audioPlayer) +
      m.audioAppSrc.elim 0 (fun source => {.element source}) +
      if m.mainLoop then {.mainThread, .mainLoop} else 0, ?_, fun p => ?_⟩ <;>
      simp [own, add_assoc, add_left_comm]
  · refine ⟨held (m.pipeline .video) + held (m.pipeline .audio) +
      m.audioAppSrc.elim 0 (fun source => {.element source}) +
      if m.mainLoop then {.mainThread, .mainLoop} else 0, ?_, fun p => ?_⟩ <;>
      simp [own, add_assoc, add_left_comm]

/-- Code that works with what it is lent. -/
def Borrows (b : Build) (x : Act Unit) (A : Multiset Ref) : Prop :=
  ∀ e s, (x e s).value = some () ∧ (x e s).state.world.manager = s.world.manager ∧
    Accounts b (x e s).calls A A

/-- Code that leaves a manager holding what its members refer to. -/
def Settles (b : Build) (x : Act Unit) : Prop :=
  ∀ e s, Safe s.world.manager → (x e s).value = some () ∧ Safe (x e s).state.world.manager ∧
    Accounts b (x e s).calls (own s.world.manager) (own (x e s).state.world.manager)

section Borrows

theorem Borrows.pure : Borrows b (pure ()) A := fun _ _ => ⟨rfl, rfl, accounts_nil⟩

theorem Borrows.bind {x y : Act Unit} (hx : Borrows b x A) (hy : Borrows b y A) :
    Borrows b (x >>= fun _ => y) A := by
  intro e s
  obtain ⟨hv, hm, ha⟩ := hx e s
  rcases hq : x e s with ⟨v, t, calls⟩
  rw [hq] at hv hm ha
  cases hv
  obtain ⟨hv', hm', ha'⟩ := hy e t
  rw [Library.Act.bind_apply, hq, Outcome.andThen_some]
  exact ⟨hv', hm'.trans hm, ha.append ha'⟩

theorem Borrows.each {α : Type} {f : ℕ → α → Act Unit} {l : List α}
    (hf : ∀ i, ∀ a ∈ l, Borrows b (f i a) A) (i : ℕ) : Borrows b (.each f i l) A := by
  induction l generalizing i with
  | nil => exact .pure
  | cons a l ih =>
    have hrest (j : ℕ) := ih (fun i a ha => hf i a (List.mem_cons_of_mem _ ha)) j
    exact (hf i a List.mem_cons_self).bind (hrest (i + 1))

variable {h : Handle}

theorem gst_element_set_state_borrows (state : ElementState) :
    Borrows b (gst_element_set_state (some h) state) {.pipeline h} := by
  intro e s
  rw [gst_element_set_state_apply]
  exact ⟨rfl, onPipeline_manager _ _ _, (accounts_use (by simp)).mpr accounts_nil⟩

/-- An element is known by the name it was found with. -/
theorem getByName_snd {p : Option Handle} {name : String} {w : World} {element : Handle × String}
    (h : w.getByName p name = some element) : element.2 = name := by
  obtain ⟨i, -, h⟩ := Option.bind_eq_some_iff.mp h
  obtain ⟨q, -, h⟩ := Option.bind_eq_some_iff.mp h
  split_ifs at h
  cases h
  rfl

theorem setupSink_borrows {name : String} (hother : name ≠ "time_overlay")
    (callback : SampleCallback) :
    Borrows b (Owner.setupSink (some h) name callback) {.pipeline h} := by
  intro e s
  cases hname : s.world.getByName (some h) name with
  | none =>
    simp only [Owner.setupSink, Library.Act.bind_apply, gst_bin_get_by_name_apply, hname,
      Outcome.andThen_some]
    exact ⟨rfl, rfl, (accounts_use (by simp)).mpr accounts_nil⟩
  | some sink =>
    simp only [Owner.setupSink, Library.Act.bind_apply, gst_bin_get_by_name_apply, hname,
      Outcome.andThen_some]
    have hkept : Doing.lost b (.handling (.take (.element sink))) = none :=
      lost_element (getByName_snd hname ▸ hother)
    refine ⟨rfl, onPipeline_manager _ _ _, (accounts_use (by simp)).mpr ?_⟩
    exact (accounts_take hkept).mpr ((accounts_use (by simp)).mpr (accounts_give.mpr accounts_nil))

theorem sinks_ne_overlay (medium : Medium) : ∀ sink ∈ medium.sinks, sink.1 ≠ "time_overlay" := by
  cases medium <;> decide

theorem addOverlayProbe_borrows :
    Borrows b (Owner.addOverlayProbe b.qcs610 (some h)) {.pipeline h} := by
  intro e s
  cases hq : b.qcs610 with
  | true => exact Borrows.pure e s
  | false =>
    cases hname : s.world.getByName (some h) "time_overlay" with
    | none =>
      simp only [Owner.addOverlayProbe, Bool.false_eq_true, if_false, Library.Act.bind_apply,
        gst_bin_get_by_name_apply, hname, Outcome.andThen_some]
      exact ⟨rfl, rfl, (accounts_use (by simp)).mpr accounts_nil⟩
    | some overlay =>
      simp only [Owner.addOverlayProbe, Bool.false_eq_true, if_false, Library.Act.bind_apply,
        gst_bin_get_by_name_apply, hname, Outcome.andThen_some]
      refine ⟨rfl, onPipeline_manager _ _ _, (accounts_use (by simp)).mpr ?_⟩
      refine (accounts_lose ?_).mpr ((accounts_use (by simp)).mpr ?_)
      · simp [Doing.lost, hq, getByName_snd hname]
      refine (accounts_lose (by simp [Doing.lost, hq])).mpr ((accounts_use (by simp)).mpr ?_)
      exact accounts_nil

end Borrows

section Settles

/-- Code that leaves the members alone settles what it borrows. -/
theorem Borrows.settles {x : Act Unit} (h : Borrows b x 0) : Settles b x := by
  intro e s hs
  obtain ⟨hv, hm, ha⟩ := h e s
  have hframe := ha.frame (own s.world.manager)
  rw [zero_add] at hframe
  rw [hm]
  exact ⟨hv, hs, hframe⟩

theorem launchError_borrows : Borrows b Owner.launchError 0 := by
  intro e s
  simp only [Owner.launchError, Library.Act.bind_apply, Library.Act.ask_apply,
    Outcome.andThen_some, Outcome.after_nil]
  split_ifs
  · refine ⟨rfl, rfl, (accounts_take rfl).mpr ((accounts_use (by simp)).mpr ?_)⟩
    exact accounts_give.mpr accounts_nil
  · exact ⟨rfl, rfl, accounts_nil⟩

/-- A null launch leaves the pointer null; the others put a new pipeline there. -/
theorem parseLaunch_manager (medium : Medium) (desc : String) (launch : Launch) (w : World) :
    (w.parseLaunch medium desc launch).manager =
      { w.manager with
        pipeline := Function.update w.manager.pipeline medium
          (if launch = .null then none else some w.next) } := by
  cases launch <;> rfl

/-- The manager after a launch. -/
def launched (medium : Medium) (desc : String) (e : Answers) (s : Owner) : Owner :=
  { s with world := s.world.parseLaunch medium desc e.launch }

theorem launched_pointer (medium : Medium) (desc : String) :
    (launched medium desc e s).pointer medium =
      if e.launch = .null then none else some s.world.next := by
  rw [Owner.pointer, launched, parseLaunch_manager]
  exact Function.update_self ..

theorem startCapture_of_none {medium : Medium} {desc : GstManager → String}
    {prepare : Option Handle → Act Unit} (hp : s.pointer medium = none) :
    Owner.startCapture medium desc prepare e s =
      (Owner.finishCapture medium prepare e (launched medium (desc s.world.manager) e s)).after
        (gst_parse_launch medium (desc s.world.manager) e s).calls := by
  rw [Owner.startCapture, Library.Act.gets_bind, hp]
  simp only [Option.isSome_none, Bool.false_eq_true, if_false, Library.Act.gets_bind]
  rw [Library.Act.bind_apply, gst_parse_launch_apply, Outcome.andThen_some, launched]

/-- A launch gives what its pointer refers to then. -/
theorem gst_parse_launch_accounts (medium : Medium) (desc : String) :
    Accounts b (gst_parse_launch medium desc e s).calls 0
      (held ((launched medium desc e s).pointer medium)) := by
  rw [gst_parse_launch_apply]
  cases hp : (s.world.parseLaunch medium desc e.launch).manager.pipeline medium with
  | none => simpa [Owner.pointer, launched, hp, held] using accounts_nil
  | some h =>
    have hpointer : (launched medium desc e s).pointer medium = some h := hp
    rw [hpointer]
    exact (accounts_take rfl).mpr accounts_nil

theorem finishCapture_accounts {medium : Medium} {prepare : Option Handle → Act Unit}
    (hprepare : ∀ h, Borrows b (prepare (some h)) {.pipeline h})
    (hp : e.launch = .pipeline → (s.pointer medium).isSome) :
    (Owner.finishCapture medium prepare e s).value = some () ∧
      (Owner.finishCapture medium prepare e s).state.world.manager = s.world.manager ∧
      Accounts b (Owner.finishCapture medium prepare e s).calls (held (s.pointer medium))
        (held (s.pointer medium)) := by
  simp only [Owner.finishCapture, Library.Act.bind_apply, Library.Act.ask_apply,
    Outcome.andThen_some, Outcome.after_nil, decide_eq_true_eq]
  split_ifs with hl
  · obtain ⟨h, hh⟩ := Option.isSome_iff_exists.mp (hp hl)
    have hsinks : Borrows b (.each (fun _ sink => Owner.setupSink (some h) sink.1 sink.2) 0
        medium.sinks) {.pipeline h} := by
      refine Borrows.each (fun i sink hsink => ?_) 0
      exact setupSink_borrows (sinks_ne_overlay medium sink hsink) sink.2
    have hplays : Borrows b (gst_element_set_state (some h) .playing) {.pipeline h} :=
      gst_element_set_state_borrows _
    have hall := Borrows.bind (hprepare h) (Borrows.bind hsinks hplays) e s
    rw [Library.Act.gets_bind, hh]
    exact hall
  · obtain ⟨hv, hm, ha⟩ := launchError_borrows (b := b) e s
    have hframe := ha.frame (held (s.pointer medium))
    rw [zero_add] at hframe
    exact ⟨hv, hm, hframe⟩

theorem startCapture_settles (medium : Medium) (desc : GstManager → String)
    {prepare : Option Handle → Act Unit} (hmedium : medium ≠ .audioPlayer)
    (hprepare : ∀ h, Borrows b (prepare (some h)) {.pipeline h}) :
    Settles b (Owner.startCapture medium desc prepare) := by
  intro e s hs
  cases hp : s.pointer medium with
  | some h =>
    simp only [Owner.startCapture, Library.Act.gets_bind, hp, Option.isSome_some, if_true]
    exact ⟨rfl, hs, accounts_nil⟩
  | none =>
    rw [startCapture_of_none hp]
    obtain ⟨R, hown, hnew⟩ := own_pointer s.world.manager medium
    have hmanager := parseLaunch_manager medium (desc s.world.manager) e.launch s.world
    have hfound : e.launch = .pipeline →
        ((launched medium (desc s.world.manager) e s).pointer medium).isSome := by
      intro hl
      simp [launched_pointer, hl]
    obtain ⟨hv, hm, ha⟩ := finishCapture_accounts hprepare hfound
    have hafter : own (launched medium (desc s.world.manager) e s).world.manager =
        held ((launched medium (desc s.world.manager) e s).pointer medium) + R := by
      have hpointer := hnew ((launched medium (desc s.world.manager) e s).pointer medium)
      rw [← hpointer]
      simp [launched, Owner.pointer, hmanager]
    have hbefore : own s.world.manager = 0 + R := by
      rw [hown]
      exact congrArg (held · + R) hp
    refine ⟨hv, ?_, ?_⟩
    · rw [Outcome.after_state, hm]
      intro hsource
      have hplayer : (launched medium (desc s.world.manager) e s).world.manager.pipeline
          .audioPlayer = s.world.manager.pipeline .audioPlayer := by
        simp [launched, hmanager, Ne.symm hmedium]
      rw [hplayer]
      refine hs ?_
      simpa [launched, hmanager] using hsource
    · rw [Outcome.after_calls, Outcome.after_state, hm, hafter, hbefore]
      exact ((gst_parse_launch_accounts medium _).frame R).append (ha.frame R)

/-- A pipeline is given back and its pointer cleared. -/
theorem release_apply (medium : Medium) (h : Handle) : Owner.release medium h e s =
    ⟨some (), { s with
      world := ((s.world.setState (some h) .null).unref h).setPointer medium none },
      [.handling (.use (.pipeline h)), .handling (.give (.pipeline h))]⟩ := by
  simp [Owner.release, gst_element_set_state_apply, Outcome.after]

theorem release_accounts {medium : Medium} {h : Handle} (hp : s.pointer medium = some h) :
    Accounts b (Owner.release medium h e s).calls (own s.world.manager)
      (own (Owner.release medium h e s).state.world.manager) := by
  obtain ⟨R, hown, hnew⟩ := own_pointer s.world.manager medium
  have hmanager : (Owner.release medium h e s).state.world.manager =
      { s.world.manager with
        pipeline := Function.update s.world.manager.pipeline medium none } := by
    rw [release_apply]
    rfl
  have hbefore : own s.world.manager = {.pipeline h} + R := by
    rw [hown]
    exact congrArg (held · + R) hp
  rw [hmanager, hnew none, hbefore, release_apply]
  exact (accounts_use (by simp)).mpr (accounts_give.mpr (by simpa [held] using accounts_nil))

theorem stopCapture_of_none {medium : Medium} (hp : s.pointer medium = none) :
    Owner.stopCapture medium e s = ⟨some (), s, []⟩ := by
  rw [Owner.stopCapture, Library.Act.gets_bind, hp]
  rfl

theorem stopCapture_of_some {medium : Medium} {h : Handle} (hp : s.pointer medium = some h) :
    Owner.stopCapture medium e s = Owner.release medium h e s := by
  rw [Owner.stopCapture, Library.Act.gets_bind, hp]

theorem stopCapture_settles (medium : Medium) (hmedium : medium ≠ .audioPlayer) :
    Settles b (Owner.stopCapture medium) := by
  intro e s hs
  cases hp : s.pointer medium with
  | none =>
    rw [stopCapture_of_none hp]
    exact ⟨rfl, hs, accounts_nil⟩
  | some h =>
    rw [stopCapture_of_some hp]
    refine ⟨by rw [release_apply], ?_, release_accounts hp⟩
    rw [release_apply]
    intro hsource
    have hplayer := hs hsource
    simpa [World.setPointer, World.unref, World.setState, World.onPipeline, Ne.symm hmedium]
      using hplayer

/-- The source by itself. -/
theorem own_source (m : GstManager) : own m =
    m.audioAppSrc.elim 0 (fun source => {.element source}) + own { m with audioAppSrc := none } := by
  simp [own, add_assoc, add_left_comm]

theorem stopAudioPlayer_of_none (hp : s.pointer .audioPlayer = none) :
    Owner.stopAudioPlayer e s = ⟨some (), s, []⟩ := by
  rw [Owner.stopAudioPlayer, Library.Act.gets_bind, hp]
  rfl

theorem stopAudioPlayer_of_some {h : Handle} (hp : s.pointer .audioPlayer = some h) :
    Owner.stopAudioPlayer e s =
      (Owner.release .audioPlayer h e { s with world := s.world.setAudioAppSrc none }).after
        (s.world.manager.audioAppSrc.map fun source =>
          Doing.handling (.give (.element source))).toList := by
  rw [Owner.stopAudioPlayer, Library.Act.gets_bind, hp]
  simp only [Library.Act.gets_bind]
  cases s.world.manager.audioAppSrc <;> rfl

theorem stopAudioPlayer_settles : Settles b Owner.stopAudioPlayer := by
  intro e s hs
  cases hp : s.pointer .audioPlayer with
  | none =>
    rw [stopAudioPlayer_of_none hp]
    exact ⟨rfl, hs, accounts_nil⟩
  | some h =>
    have hrelease := release_accounts (b := b) (e := e)
      (s := { s with world := s.world.setAudioAppSrc none }) hp
    have hgive : Accounts b (s.world.manager.audioAppSrc.map fun source =>
        Doing.handling (.give (.element source))).toList (own s.world.manager)
        (own (s.world.setAudioAppSrc none).manager) := by
      rw [own_source]
      cases s.world.manager.audioAppSrc with
      | none => simpa [World.setAudioAppSrc] using accounts_nil
      | some source => exact accounts_give.mpr accounts_nil
    rw [stopAudioPlayer_of_some hp]
    refine ⟨by rw [release_apply]; rfl, ?_, hgive.append hrelease⟩
    rw [release_apply]
    intro hsource
    cases hsource

theorem gst_bin_get_by_name_accounts (p : Option Handle) {name : String}
    (hother : name ≠ "time_overlay") :
    Accounts b (gst_bin_get_by_name p name e s).calls (held p)
      ((s.world.getByName p name).elim 0 (fun el => {.element el}) + held p) := by
  rw [gst_bin_get_by_name_apply]
  cases p with
  | none => exact accounts_nil
  | some h =>
    refine (accounts_use (Multiset.mem_singleton_self _)).mpr ?_
    cases hname : s.world.getByName (some h) name with
    | none =>
      rw [Option.elim_none, zero_add]
      exact accounts_nil
    | some el =>
      exact (accounts_take (lost_element (getByName_snd hname ▸ hother))).mpr accounts_nil

theorem usePipeline_accounts (p : Option Handle) (A : Multiset Ref) :
    Accounts b (p.map fun h => Doing.handling (.use (.pipeline h))).toList (A + held p)
      (A + held p) := by
  cases p with
  | none => exact accounts_nil
  | some h => exact (accounts_use (by simp [held])).mpr accounts_nil

theorem ensureMainLoop_settles : Settles b Owner.ensureMainLoop := by
  intro e s hs
  cases hl : s.world.manager.mainLoop with
  | true =>
    rw [Owner.ensureMainLoop, Library.Act.gets_bind, hl]
    exact ⟨rfl, hs, accounts_nil⟩
  | false =>
    rw [Owner.ensureMainLoop, Library.Act.gets_bind, hl]
    refine ⟨rfl, hs, (accounts_take rfl).mpr ((accounts_take rfl).mpr ?_)⟩
    have hown : own s.world.setMainLoop.manager = .mainThread ::ₘ .mainLoop ::ₘ own s.world.manager := by
      simp only [own, World.setMainLoop, hl, if_true, Bool.false_eq_true, if_false, add_zero]
      rw [add_comm, Multiset.insert_eq_cons, Multiset.cons_add, Multiset.singleton_add]
    exact hown ▸ accounts_nil

/-- The player after its launch. -/
def playing (e : Answers) (s : Owner) : Owner :=
  { launched .audioPlayer audioPlayDesc e s with
    world :=
      ((launched .audioPlayer audioPlayDesc e s).world.setAudioAppSrc
        ((launched .audioPlayer audioPlayDesc e s).world.getByName
          ((launched .audioPlayer audioPlayDesc e s).pointer .audioPlayer) "audio_src")).setState
        ((launched .audioPlayer audioPlayDesc e s).pointer .audioPlayer) .playing }

theorem startAudioPlayer_of_none (hp : s.pointer .audioPlayer = none) :
    Owner.startAudioPlayer e s = (Owner.ensureMainLoop e (playing e s)).after
      ((gst_parse_launch .audioPlayer audioPlayDesc e s).calls ++
      ((gst_bin_get_by_name ((launched .audioPlayer audioPlayDesc e s).pointer .audioPlayer)
        "audio_src" e (launched .audioPlayer audioPlayDesc e s)).calls ++
      (((launched .audioPlayer audioPlayDesc e s).pointer .audioPlayer).map fun h =>
        Doing.handling (.use (.pipeline h))).toList)) := by
  rw [Owner.startAudioPlayer, Library.Act.gets_bind, hp]
  simp only [Option.isSome_none, Bool.false_eq_true, if_false]
  rw [Library.Act.bind_apply, gst_parse_launch_apply, Outcome.andThen_some, Library.Act.gets_bind,
    Library.Act.bind_apply, gst_bin_get_by_name_apply, Outcome.andThen_some, Library.Act.bind_apply,
    change_apply, Outcome.andThen_some, Library.Act.bind_apply, gst_element_set_state_apply,
    Outcome.andThen_some]
  simp only [Outcome.after, List.append_assoc, List.nil_append, playing, launched, Owner.pointer,
    gst_bin_get_by_name_apply]

theorem playing_manager : (playing e s).world.manager =
    { (launched .audioPlayer audioPlayDesc e s).world.manager with
      audioAppSrc := (launched .audioPlayer audioPlayDesc e s).world.getByName
        ((launched .audioPlayer audioPlayDesc e s).pointer .audioPlayer) "audio_src" } := by
  rw [playing, World.setState, onPipeline_manager]
  rfl

/-- A launched player adds its pipeline and its source to what is held. -/
theorem playing_own (hs : Safe s.world.manager) (hp : s.pointer .audioPlayer = none) :
    own (playing e s).world.manager =
      (((launched .audioPlayer audioPlayDesc e s).world.getByName
        ((launched .audioPlayer audioPlayDesc e s).pointer .audioPlayer) "audio_src").elim 0
        (fun source => {.element source}) +
      held ((launched .audioPlayer audioPlayDesc e s).pointer .audioPlayer)) +
        own s.world.manager := by
  have hsource : s.world.manager.audioAppSrc = none := by
    cases hsrc : s.world.manager.audioAppSrc with
    | none => rfl
    | some source =>
      have hplayer := hs (by simp [hsrc])
      rw [show s.world.manager.pipeline .audioPlayer = none from hp] at hplayer
      cases hplayer
  obtain ⟨R, hown, hnew⟩ := own_pointer s.world.manager .audioPlayer
  have hbefore : own s.world.manager = R := by
    rw [hown, show s.world.manager.pipeline .audioPlayer = none from hp]
    exact zero_add R
  have hafter := hnew ((launched .audioPlayer audioPlayDesc e s).pointer .audioPlayer)
  rw [own_source, playing_manager, hbefore, add_assoc, ← hafter]
  simp [launched, parseLaunch_manager, hsource, Owner.pointer]

theorem startAudioPlayer_settles : Settles b Owner.startAudioPlayer := by
  intro e s hs
  cases hp : s.pointer .audioPlayer with
  | some h =>
    rw [Owner.startAudioPlayer, Library.Act.gets_bind, hp]
    exact ⟨rfl, hs, accounts_nil⟩
  | none =>
    have hsafe : Safe (playing e s).world.manager := by
      rw [playing_manager]
      intro hsource
      by_contra hnone
      have hpointer : (launched .audioPlayer audioPlayDesc e s).pointer .audioPlayer = none := by
        simpa [Owner.pointer] using hnone
      rw [hpointer] at hsource
      cases hsource
    have hlaunch := gst_parse_launch_accounts (b := b) (e := e) (s := s) .audioPlayer audioPlayDesc
    have hfound := gst_bin_get_by_name_accounts (b := b) (e := e)
      (s := launched .audioPlayer audioPlayDesc e s)
      ((launched .audioPlayer audioPlayDesc e s).pointer .audioPlayer)
      (show "audio_src" ≠ "time_overlay" by decide)
    have hplays := usePipeline_accounts (b := b)
      ((launched .audioPlayer audioPlayDesc e s).pointer .audioPlayer)
      (((launched .audioPlayer audioPlayDesc e s).world.getByName
        ((launched .audioPlayer audioPlayDesc e s).pointer .audioPlayer) "audio_src").elim 0
        fun source => {.element source})
    obtain ⟨hv, hsafe', hloop⟩ := ensureMainLoop_settles (b := b) e (playing e s) hsafe
    have hcalls := (hlaunch.append (hfound.append hplays)).frame (own s.world.manager)
    rw [zero_add, ← playing_own hs hp] at hcalls
    rw [startAudioPlayer_of_none hp]
    exact ⟨hv, hsafe', hcalls.append hloop⟩

theorem accounts_push (data : List UInt8) :
    Accounts b (.push data :: l) A B ↔ Accounts b l A B := Iff.rfl

theorem accounts_frame (handler : ℕ) (data : List UInt8) :
    Accounts b (.frame handler data :: l) A B ↔ Accounts b l A B := Iff.rfl

/-- A buffer that the signal does not take is lost. -/
theorem pushAudioFrame_settles (data : List UInt8) :
    Settles b (Owner.pushAudioFrame b.signalTakes data) := by
  intro e s hs
  rw [Owner.pushAudioFrame, Library.Act.gets_bind]
  cases hsrc : s.world.manager.audioAppSrc with
  | none => exact ⟨rfl, hs, accounts_nil⟩
  | some source =>
    have hsource : Ref.element source ∈ own s.world.manager := by
      rw [own_source, hsrc]
      simp
    simp only [Library.Act.bind_apply, Library.Act.ask_apply, Outcome.andThen_some,
      Outcome.after_nil]
    cases e.allocated with
    | false => exact ⟨rfl, hs, accounts_nil⟩
    | true =>
      cases ht : b.signalTakes with
      | true =>
        refine ⟨rfl, hs, (accounts_take (by simp [Doing.lost, ht])).mpr ?_⟩
        refine (accounts_use (by simp)).mpr ((accounts_use (by simp [hsource])).mpr ?_)
        exact (accounts_use (by simp)).mpr ((accounts_push data).mpr (accounts_give.mpr accounts_nil))
      | false =>
        have hlost : Accounts b [.handling (.take (.buffer s.buffers)),
            .handling (.use (.buffer s.buffers)), .handling (.use (.element source)),
            .handling (.use (.buffer s.buffers)), .push data] (own s.world.manager)
            (own s.world.manager) := by
          refine (accounts_lose (by simp [Doing.lost, ht])).mpr ?_
          refine (accounts_use (by simp)).mpr ((accounts_use (by simp [hsource])).mpr ?_)
          exact (accounts_use (by simp)).mpr ((accounts_push data).mpr accounts_nil)
        exact ⟨rfl, hs, hlost⟩

theorem handFrame_borrows (n handler : ℕ) : Borrows b (Owner.handFrame n handler) {.sample n} := by
  intro e s
  simp only [Owner.handFrame, Library.Act.bind_apply, use_apply, Library.Act.ask_apply,
    Outcome.andThen_some, Outcome.after_nil]
  cases e.mapped with
  | none => exact ⟨rfl, rfl, (accounts_use (by simp)).mpr accounts_nil⟩
  | some data =>
    refine ⟨rfl, rfl, (accounts_use (by simp)).mpr ((accounts_take rfl).mpr ?_)⟩
    refine (accounts_use (by simp)).mpr ((accounts_frame handler data).mpr ?_)
    exact (accounts_use (by simp)).mpr (accounts_give.mpr accounts_nil)

theorem onSample_borrows (callback : SampleCallback) : Borrows b (Owner.onSample callback) 0 := by
  intro e s
  simp only [Owner.onSample, Library.Act.bind_apply, Library.Act.ask_apply, Outcome.andThen_some,
    Outcome.after_nil]
  have hgive : Accounts b [.handling (.give (.sample s.samples))] {.sample s.samples} 0 :=
    accounts_give.mpr accounts_nil
  cases e.sample with
  | false => exact ⟨rfl, rfl, accounts_nil⟩
  | true =>
    cases hc : s.handlers callback with
    | none =>
      simp only [if_true, Library.Act.bind_apply, Library.Act.gets_apply, Library.Act.modify_apply,
        take_apply, hc, Outcome.andThen_some, Outcome.after_nil]
      exact ⟨rfl, rfl, (accounts_take rfl).mpr hgive⟩
    | some handler =>
      obtain ⟨hv, hm, ha⟩ := handFrame_borrows (b := b) s.samples handler e
        { s with samples := s.samples + 1 }
      simp only [if_true, Library.Act.bind_apply, Library.Act.gets_apply, Library.Act.modify_apply,
        take_apply, hc, Outcome.andThen_some, Outcome.after_nil]
      rcases hq : Owner.handFrame s.samples handler e { s with samples := s.samples + 1 } with
        ⟨v, t, calls⟩
      rw [hq] at hv hm ha
      cases hv
      exact ⟨rfl, hm, (accounts_take rfl).mpr (ha.append hgive)⟩

theorem setOnFrame_borrows (callback : SampleCallback) (handler : ℕ) :
    Borrows b (Owner.setOnFrame callback handler) 0 :=
  fun _ _ => ⟨rfl, rfl, accounts_nil⟩

theorem act_settles (r : Request) : Settles b (r.act b) := by
  cases r with
  | startVideo =>
    exact startCapture_settles .video (videoPipelineDesc b.qcs610) (by decide)
      fun _ => addOverlayProbe_borrows
  | stopVideo => exact stopCapture_settles .video (by decide)
  | startAudio =>
    exact startCapture_settles .audio (audioPipelineDesc b.qcs610) (by decide) fun _ => .pure
  | stopAudio => exact stopCapture_settles .audio (by decide)
  | startAudioPlayer => exact startAudioPlayer_settles
  | stopAudioPlayer => exact stopAudioPlayer_settles
  | pushAudioFrame data => exact pushAudioFrame_settles data
  | setOnFrame callback handler => exact (setOnFrame_borrows callback handler).settles
  | onSample callback => exact (onSample_borrows callback).settles

/-! ### The whole life of a manager -/

theorem Settles.bind {x y : Act Unit} (hx : Settles b x) (hy : Settles b y) :
    Settles b (x >>= fun _ => y) := by
  intro e s hs
  obtain ⟨hv, hs', ha⟩ := hx e s hs
  rcases hq : x e s with ⟨v, t, calls⟩
  rw [hq] at hv hs' ha
  cases hv
  obtain ⟨hv', hs'', ha'⟩ := hy e t hs'
  rw [Library.Act.bind_apply, hq, Outcome.andThen_some]
  exact ⟨hv', hs'', ha.append ha'⟩

theorem endMainLoop_settles : Settles b Owner.endMainLoop := by
  intro e s hs
  rw [Owner.endMainLoop, Library.Act.gets_bind]
  cases hl : s.world.manager.mainLoop with
  | false => exact ⟨rfl, hs, accounts_nil⟩
  | true =>
    have hown : own s.world.manager =
        .mainThread ::ₘ .mainLoop ::ₘ own { s.world.manager with mainLoop := false } := by
      simp only [own, hl, if_true, Bool.false_eq_true, if_false, add_zero]
      rw [add_comm, Multiset.insert_eq_cons, Multiset.cons_add, Multiset.singleton_add]
    refine ⟨rfl, hs, ?_⟩
    rw [hown]
    exact (accounts_use (by simp)).mpr (accounts_give.mpr (accounts_give.mpr accounts_nil))

theorem destructor_settles : Settles b Owner.destructor :=
  (stopCapture_settles .video (by decide)).bind
    ((stopCapture_settles .audio (by decide)).bind
      (stopAudioPlayer_settles.bind endMainLoop_settles))

/-- A stop leaves the pointer null, also where it was. -/
theorem stopCapture_manager (medium : Medium) (w : World) : (stopCapture medium w).manager =
    { w.manager with pipeline := Function.update w.manager.pipeline medium none } := by
  cases hp : w.manager.pipeline medium with
  | none =>
    have hsame := Function.update_eq_self medium w.manager.pipeline
    rw [hp] at hsame
    simp only [stopCapture, hp, hsame]
  | some h =>
    simp only [stopCapture, hp]
    rfl

theorem stopAudioPlayer_manager {w : World} (hs : Safe w.manager) : (stopAudioPlayer w).manager =
    { w.manager with
      pipeline := Function.update w.manager.pipeline .audioPlayer none
      audioAppSrc := none } := by
  cases hp : w.manager.pipeline .audioPlayer with
  | none =>
    have hsame := Function.update_eq_self Medium.audioPlayer w.manager.pipeline
    have hsource : w.manager.audioAppSrc = none := by
      cases hsrc : w.manager.audioAppSrc with
      | none => rfl
      | some source => simp [Safe, hsrc, hp] at hs
    rw [hp] at hsame
    simp only [stopAudioPlayer, hp, hsame, ← hsource]
  | some h =>
    simp only [stopAudioPlayer, hp]
    rfl

/-- After the destructor the members refer to nothing. -/
theorem destructor_own (hs : Safe s.world.manager) :
    own (Owner.destructor e s).state.world.manager = 0 := by
  have hsafe : Safe (stopAudio (stopVideo s.world)).manager := by
    simpa [Safe, stopAudio, stopVideo, stopCapture_manager] using hs
  have hmanager := stopAudioPlayer_manager hsafe
  rw [(destructor_follows e s).2]
  simp only [World.clearMainLoop, hmanager]
  simp [own, stopAudio, stopVideo, stopCapture_manager, held]

end Settles

/-- What a manager does from its constructor to its destructor. -/
def life (b : Build) (w : World) (l : List (Request × Answers)) (e : Answers) : List Doing :=
  ((ownerStep b).run l { world := w }).2 ++
    (Owner.destructor e ((ownerStep b).run l { world := w }).1).calls

theorem run_accounts (l : List (Request × Answers)) (s : Owner) (hs : Safe s.world.manager) :
    Safe ((ownerStep b).run l s).1.world.manager ∧
      Accounts b ((ownerStep b).run l s).2 (own s.world.manager)
        (own ((ownerStep b).run l s).1.world.manager) := by
  induction l generalizing s with
  | nil => exact ⟨hs, accounts_nil⟩
  | cons i l ih =>
    obtain ⟨-, hstep, hcalls⟩ := act_settles (b := b) i.1 i.2 s hs
    obtain ⟨hrest, hrun⟩ := ih _ hstep
    exact ⟨hrest, hcalls.append hrun⟩

theorem life_accounts {w : World} (hs : Safe w.manager) (hw : own w.manager = 0)
    (l : List (Request × Answers)) (e : Answers) : Accounts b (life b w l e) 0 0 := by
  obtain ⟨hsafe, hrun⟩ := run_accounts (b := b) l { world := w } hs
  obtain ⟨-, -, hend⟩ := destructor_settles (b := b) e _ hsafe
  rw [destructor_own hsafe] at hend
  rw [hw] at hrun
  exact hrun.append hend

/-- What the streaming threads do with samples, in any order. -/
inductive Streamed : List Doing → Prop where
  | nil : Streamed []
  | sample (callback : SampleCallback) (e : Answers) (s : Owner) {l t : List Doing}
    (h : Streamed l) (ht : Merged (Owner.onSample callback e s).calls l t) : Streamed t

theorem streamed_accounts (h : Streamed l) : Accounts b l 0 0 := by
  induction h with
  | nil => exact accounts_nil
  | sample callback e s _ ht ih =>
    obtain ⟨-, -, ha⟩ := onSample_borrows (b := b) callback e s
    exact ha.merge ht ih

/-- From its constructor to its destructor, a manager uses and gives back only what it holds, with
the streaming threads in between in any order. It gives everything back but its overlays with
their pads and the buffers that the signal does not take. -/
theorem references_returned (b : Build) (width height fps videoBitrate : ℤ)
    (videoSSRC audioSSRC : ℕ) (l : List (Request × Answers)) (e : Answers) {l' t : List Doing}
    (hl' : Streamed l')
    (ht : Merged (life b (.fresh width height fps videoBitrate videoSSRC audioSSRC) l e) l' t) :
    Turns (handlings t) 0 (lost b t) ∧
      (b.qcs610 → b.signalTakes → Turns (handlings t) 0 0) := by
  have hlife : Accounts b (life b (.fresh width height fps videoBitrate videoSSRC audioSSRC) l e)
      0 0 := by
    refine life_accounts ?_ rfl l e
    intro h
    cases h
  have hall := hlife.merge ht (streamed_accounts hl')
  rw [Accounts, zero_add, zero_add] at hall
  refine ⟨hall, fun hq hs => ?_⟩
  have hnone : lost b t = 0 := by
    rw [lost, List.filterMap_eq_nil_iff.mpr fun d _ => ?_]
    · rfl
    · rcases d with (r | r | r) | _ | _
      · cases r <;> simp [Doing.lost, hq, hs]
      all_goals rfl
  rwa [hnone] at hall

/-- Whatever is asked for is there. -/
def Answers.calm : Answers := ⟨.pipeline, false, true, true, some [1]⟩

/-- A video and a player, with a frame each way. -/
def busy : List (Request × Answers) :=
  [(.setOnFrame .onVideoRTPSample 0, .calm), (.startVideo, .calm),
    (.onSample .onVideoRTPSample, .calm), (.startAudioPlayer, .calm),
    (.pushAudioFrame [1], .calm), (.stopVideo, .calm)]

/-- The life of a manager on x86 with a sample more. -/
def busyDoings : List Doing :=
  life ⟨false, false⟩ (.fresh 640 480 30 1000000 42 43) busy .calm ++
    (Owner.onSample .onVideoRTPSample .calm
      { world := .fresh 640 480 30 1000000 42 43, handlers := fun _ => some 0 }).calls

/-- The overlay, its pad and the buffer of the frame are lost. -/
theorem references_returned_busy :
    Turns (handlings busyDoings) 0 (lost ⟨false, false⟩ busyDoings) ∧
      (false → false → Turns (handlings busyDoings) 0 0) :=
  references_returned ⟨false, false⟩ 640 480 30 1000000 42 43 busy .calm
    (.sample _ _ _ .nil (Merged.nil_right _)) (Merged.append _ _)

end ConferenceCall.Gst

import ConferenceCall.Library.Since
import ConferenceCall.Media.Sessions
import ConferenceCall.Media.Wiring

/-! Which frames are sent on which track and which packets are played, over every run of the
application, the libraries and the streaming threads. What matters of the past is the last track of
a kind that opened in the session, and how the player of the session was launched. -/

namespace ConferenceCall.Media

open Library
open Gst (Owner SampleCallback Medium Answers Build Request ownerStep)

variable {b : Build} {m : Moment} {s : Studio} {i : Input} {t : LocalTrack}

/-- The `GstManager` is there and such that `P`. -/
def Studio.Has (P : Owner → Prop) (s : Studio) : Prop := ∃ o, s.gst = some o ∧ P o

/-- The pipelines and the handlers are the same; the counters may differ. -/
def Same (o o' : Owner) : Prop := o'.world = o.world ∧ o'.handlers = o.handlers

/-- The pointer `m_gstManager` is set when its object is there. -/
structure Furnished (s : Studio) : Prop where
  seated : Seated s.manager
  present : s.gst.isSome = s.manager.gstManager

theorem studioStep_input (hw : m.what = .input i) : studioStep b m s = inputTurn b i m s := by
  simp only [studioStep, hw]

theorem studioStep_opened (hw : m.what = .opened t) :
    studioStep b m s = (openTurn b t m s, []) := by
  simp only [studioStep, hw]

theorem studioStep_sample {callback : SampleCallback} (hw : m.what = .sample callback) :
    studioStep b m s = sampleTurn callback m s := by
  simp only [studioStep, hw]

/-! ### The object of a session -/

section Sessions

theorem Furnished.new : Furnished {} := ⟨.new, rfl⟩

/-- A start that makes an object finds none. -/
theorem Furnished.makes (h : Furnished s) {p : Bool} (hp : makesGst i s.manager = some p) :
    s.gst = none := by
  have hidle : s.manager.isCommunicating = false := by
    cases i with
    | callback cb => cases hp
    | api call =>
      cases call with
      | start isPlayer => exact (makesGst_start hp).2.1
      | _ => cases hp
  have hg := h.present.trans (h.seated.running.trans hidle)
  simpa using hg

/-- What an input leaves: no object, a new one or the one of before. -/
theorem inputTurn_cases (h : Furnished s) :
    let s' := (inputTurn b i m s).1
    s'.manager.gstManager = false ∧ s'.gst = none ∨
      s'.manager.gstManager = true ∧ ∃ o o', s'.gst = some o' ∧ Same o o' ∧
        ((∃ p, makesGst i s.manager = some p ∧ o = makeGst b p m.gst) ∨
          makesGst i s.manager = none ∧ s.gst = some o) := by
  intro s'
  cases hg : (inputStep ⟨i, m.env⟩ s.manager).1.gstManager with
  | false => exact .inl ⟨hg, by simp [s', inputTurn, hg]⟩
  | true =>
    refine .inr ⟨hg, ?_⟩
    cases hp : makesGst i s.manager with
    | some p =>
      obtain ⟨hw, hh, -⟩ := play_spec (b := b) (m.gst .audioPlayer)
        ((inputStep ⟨i, m.env⟩ s.manager).2.filterMap packet) (makeGst b p m.gst)
      exact ⟨_, _, by simp [s', inputTurn, gstOf, hg, hp], ⟨hw, hh⟩, .inl ⟨p, rfl, rfl⟩⟩
    | none =>
      have hbefore := ((inputStep_role i m.env s.manager).2 hp).2 hg
      obtain ⟨o, ho⟩ := Option.isSome_iff_exists.mp (h.present.trans hbefore)
      obtain ⟨hw, hh, -⟩ := play_spec (b := b) (m.gst .audioPlayer)
        ((inputStep ⟨i, m.env⟩ s.manager).2.filterMap packet) o
      exact ⟨o, _, by simp [s', inputTurn, gstOf, hg, hp, ho], ⟨hw, hh⟩, .inr ⟨rfl, ho⟩⟩

theorem Furnished.input (h : Furnished s) : Furnished (inputTurn b i m s).1 := by
  refine ⟨h.seated.input ⟨i, m.env⟩, ?_⟩
  rcases inputTurn_cases (b := b) (m := m) (i := i) h with ⟨hg, hs⟩ | ⟨hg, o, o', hs, -⟩ <;>
    rw [hg, hs] <;> rfl

theorem Furnished.step (h : Furnished s) : Furnished (studioStep b m s).1 := by
  cases hw : m.what with
  | input i =>
    rw [studioStep_input hw]
    exact h.input
  | opened t =>
    rw [studioStep_opened hw]
    dsimp only [openTurn]
    split_ifs
    · exact ⟨h.seated, by simpa using h.present⟩
    · exact h
  | sample callback =>
    rw [studioStep_sample hw]
    unfold sampleTurn
    cases hs : s.gst with
    | none => exact h
    | some o =>
      dsimp only
      split_ifs
      · exact ⟨h.seated, by simpa [hs] using h.present⟩
      · exact h

/-- What the object of a session is like after an input. -/
theorem has_input {P : Owner → Prop} (hP : ∀ o o', Same o o' → (P o' ↔ P o)) (h : Furnished s) :
    (inputTurn b i m s).1.Has P ↔ (inputStep ⟨i, m.env⟩ s.manager).1.gstManager = true ∧
      ((∃ p, makesGst i s.manager = some p ∧ P (makeGst b p m.gst)) ∨ s.Has P) := by
  rcases inputTurn_cases (b := b) (m := m) (i := i) h with ⟨hg, hs⟩ | ⟨hg, o, o', hs, hsame, ho⟩
  · have hgone : (inputStep ⟨i, m.env⟩ s.manager).1.gstManager = false := hg
    simp [Studio.Has, hs, hgone]
  · have hthere : (inputStep ⟨i, m.env⟩ s.manager).1.gstManager = true := hg
    rcases ho with ⟨p, hp, rfl⟩ | ⟨hp, ho⟩
    · simp [Studio.Has, hs, hthere, hp, h.makes hp, hP _ _ hsame]
    · simp [Studio.Has, hs, hthere, hp, ho, hP _ _ hsame]

theorem has_sample {P : Owner → Prop} (hP : ∀ o o', Same o o' → (P o' ↔ P o))
    (callback : SampleCallback) : (sampleTurn callback m s).1.Has P ↔ s.Has P := by
  unfold sampleTurn
  cases hs : s.gst with
  | none => rfl
  | some o =>
    dsimp only
    split_ifs
    · obtain ⟨hw, hh, -⟩ := onSample_spec (e := m.gst (captureOf callback)) (s := o) callback
        m.isOpen .video
      simp [Studio.Has, hs, hP _ _ ⟨hw, hh⟩]
    · rfl

theorem sampleTurn_frame (callback : SampleCallback) :
    (sampleTurn callback m s).1.manager = s.manager ∧
      (sampleTurn callback m s).1.localTracks = s.localTracks := by
  unfold sampleTurn
  cases s.gst with
  | none => exact ⟨rfl, rfl⟩
  | some o =>
    dsimp only
    split_ifs <;> exact ⟨rfl, rfl⟩

/-- With the frames of its kind for a track. -/
def handing (t : LocalTrack) (o : Owner) : Owner :=
  { o with handlers := Function.update o.handlers t.kind.callback (some t.pc) }

/-- A local track that opens gets the frames of its kind and starts their capture. -/
theorem openTurn_gst (ht : t ∈ s.localTracks) {o : Owner} (ho : s.gst = some o) :
    (openTurn b t m s).gst =
      some (t.kind.start.act b (m.gst t.kind.medium) (handing t o)).state := by
  rw [openTurn, if_pos ht, ho]
  rfl

theorem openTurn_spec (ht : t ∈ s.localTracks) {o : Owner} (ho : s.gst = some o) :
    ∃ o', (openTurn b t m s).gst = some o' ∧ o'.handlers = (handing t o).handlers ∧
      ∃ p, o'.world.manager =
        { o.world.manager with
          pipeline := Function.update o.world.manager.pipeline t.kind.medium p } :=
  ⟨_, openTurn_gst ht ho, (start_keeps t.kind (m.gst t.kind.medium) (handing t o)).1,
    start_manager (b := b) (e := m.gst t.kind.medium) (s := handing t o) t.kind⟩

end Sessions

/-! ### Frames -/

section Frames

/-- The track is the one that the frames of its kind go to. -/
def Wired (t : LocalTrack) : Studio → Prop :=
  Studio.Has fun o => o.handlers t.kind.callback = some t.pc

/-- The track opens during a session. -/
def Opens (t : LocalTrack) (m : Moment) (s : Studio) : Prop :=
  m.what = .opened t ∧ t ∈ s.localTracks ∧ s.manager.gstManager = true

/-- The session goes on, and no track of the kind opens. -/
def Holds (t : LocalTrack) (m : Moment) (s : Studio) : Prop :=
  match m.what with
  | .input i => (inputStep ⟨i, m.env⟩ s.manager).1.gstManager = true
  | .opened t' => t' ∈ s.localTracks → t'.kind ≠ t.kind
  | .sample _ => True

theorem callback_inj {k k' : Kind} : k.callback = k'.callback ↔ k = k' := by
  cases k <;> cases k' <;> simp [Kind.callback]

theorem same_handlers (callback : SampleCallback) (h : Option ℕ) (o o' : Owner) (hs : Same o o') :
    o'.handlers callback = h ↔ o.handlers callback = h := by
  rw [hs.2]

/-- What one step does to the wiring of a track. -/
theorem wired_step (t : LocalTrack) (m : Moment) (s : Studio) (h : Furnished s) :
    Wired t (studioStep b m s).1 ↔ Opens t m s ∨ Holds t m s ∧ Wired t s := by
  cases hw : m.what with
  | input i =>
    have hnone (p : Bool) : (makeGst b p m.gst).handlers t.kind.callback ≠ some t.pc := by
      rw [(makeGst_spec b p m.gst).1]
      simp
    rw [studioStep_input hw, Wired, has_input (same_handlers _ _) h]
    simp [Opens, Holds, hw, hnone]
  | opened t' =>
    rw [studioStep_opened hw]
    by_cases ht : t' ∈ s.localTracks
    · cases hs : s.gst with
      | none =>
        have hgone : s.manager.gstManager = false := by simpa [hs] using h.present.symm
        simp [Wired, Studio.Has, openTurn, ht, hs, Opens, hgone]
      | some o =>
        have hthere : s.manager.gstManager = true := by simpa [hs] using h.present.symm
        obtain ⟨o', ho', hhandlers, -⟩ := openTurn_spec (b := b) (m := m) ht hs
        have hafter : Wired t (openTurn b t' m s) ↔
            Function.update o.handlers t'.kind.callback (some t'.pc) t.kind.callback = some t.pc := by
          simp [Wired, Studio.Has, ho', hhandlers, handing]
        rw [hafter]
        by_cases hkind : t'.kind = t.kind
        · have hsame : t'.pc = t.pc ↔ t' = t :=
            ⟨fun hpc => by cases t'; cases t; simp_all, congrArg LocalTrack.pc⟩
          rw [← hkind, Function.update_self, Option.some.injEq, hsame]
          simp only [Opens, Holds, hw, Occasion.opened.injEq, hthere, ht, hkind]
          constructor
          · rintro rfl
            exact .inl ⟨rfl, ht, trivial⟩
          · rintro (⟨rfl, -⟩ | ⟨hne, -⟩)
            · rfl
            · exact absurd rfl (hne trivial)
        · have hne : t' ≠ t := fun h => hkind (congrArg LocalTrack.kind h)
          rw [Function.update_of_ne (fun h => hkind (callback_inj.mp h).symm)]
          simp [Opens, Holds, hw, hne, hkind, Wired, Studio.Has, hs]
    · rw [openTurn, if_neg ht]
      have hnot : ¬ Opens t m s := by
        rintro ⟨hopened, hmem, -⟩
        cases hw.symm.trans hopened
        exact ht hmem
      simp [hnot, Holds, hw, ht]
  | sample callback =>
    rw [studioStep_sample hw, Wired, has_sample (same_handlers _ _)]
    simp [Opens, Holds, hw]

theorem kindOf_eq_some {callback : SampleCallback} {kind : Kind} :
    kindOf callback = some kind ↔ callback = kind.callback := by
  cases callback <;> cases kind <;> simp [kindOf, Kind.callback]

theorem captureOf_callback (kind : Kind) : captureOf kind.callback = kind.medium := by
  cases kind <;> rfl

/-- What a sample sends, if anything. -/
theorem sampleTurn_sent {callback : SampleCallback} {o : Owner} (hs : s.gst = some o)
    (hsupplies : supplies callback o = true) : (sampleTurn callback m s).2 =
      ((kindOf callback).bind fun kind =>
        if (m.gst kind.medium).sample then
          (o.handlers callback).bind fun pc => (m.gst kind.medium).mapped.bind fun data =>
            if m.isOpen ⟨pc, kind⟩ then some (.frame ⟨pc, kind⟩ data) else none
        else none).toList := by
  simp only [sampleTurn, hs, hsupplies, if_true]
  cases hk : kindOf callback with
  | none => rfl
  | some kind =>
    have hcapture : captureOf callback = kind.medium := by
      rw [kindOf_eq_some.mp hk, captureOf_callback]
    obtain ⟨-, -, hsent⟩ := onSample_spec (e := m.gst kind.medium) (s := o) callback m.isOpen kind
    simp only [hcapture, Option.toList_some, List.flatMap_singleton, hsent, Option.bind_some]
    split_ifs <;> rfl

theorem sampleTurn_silent {callback : SampleCallback}
    (h : ¬ s.Has fun o => supplies callback o = true) : (sampleTurn callback m s).2 = [] := by
  unfold sampleTurn
  cases hs : s.gst with
  | none => rfl
  | some o =>
    have hidle : ¬ supplies callback o = true := fun hsupplies => h ⟨o, hs, hsupplies⟩
    simp only [hidle, Bool.false_eq_true, if_false]

/-- A frame goes out where a sample comes for the track that frames of its kind go to. -/
theorem mem_sampleTurn {callback : SampleCallback} {data : List UInt8} :
    .frame t data ∈ (sampleTurn callback m s).2 ↔ callback = t.kind.callback ∧
      s.Has (fun o => supplies callback o = true) ∧ Wired t s ∧
      (m.gst t.kind.medium).sample = true ∧ (m.gst t.kind.medium).mapped = some data ∧
      m.isOpen t = true := by
  by_cases hhas : s.Has fun o => supplies callback o = true
  · obtain ⟨o, hs, hsupplies⟩ := hhas
    have hthere : s.Has fun o => supplies callback o = true := ⟨o, hs, hsupplies⟩
    have hwired : Wired t s ↔ o.handlers t.kind.callback = some t.pc := by
      simp [Wired, Studio.Has, hs]
    rw [sampleTurn_sent hs hsupplies, hwired, Option.mem_toList, Option.bind_eq_some_iff]
    constructor
    · rintro ⟨kind, hkind, hsent⟩
      obtain rfl := kindOf_eq_some.mp hkind
      split_ifs at hsent with hsample
      obtain ⟨pc, hpc, hsent⟩ := Option.bind_eq_some_iff.mp hsent
      obtain ⟨data', hmapped, hsent⟩ := Option.bind_eq_some_iff.mp hsent
      split_ifs at hsent with hopen
      cases hsent
      exact ⟨rfl, hthere, hpc, hsample, hmapped, hopen⟩
    · rintro ⟨rfl, -, hpc, hsample, hmapped, hopen⟩
      exact ⟨t.kind, kindOf_eq_some.mpr rfl, by simp [hsample, hpc, hmapped, hopen]⟩
  · simp [sampleTurn_silent hhas, hhas]

theorem inputTurn_sent : (inputTurn b i m s).2 = match gstOf b i m s with
    | none => []
    | some o => if o.world.manager.audioAppSrc.isSome && (m.gst .audioPlayer).allocated then
        ((inputStep ⟨i, m.env⟩ s.manager).2.filterMap packet).map .push else [] := by
  unfold inputTurn
  cases gstOf b i m s with
  | none => rfl
  | some o => exact (play_spec (b := b) (m.gst .audioPlayer) _ o).2.2

/-- At most one thing goes out at a time. -/
theorem length_step_le : (studioStep b m s).2.length ≤ 1 := by
  cases hw : m.what with
  | input i =>
    rw [studioStep_input hw, inputTurn_sent]
    have hpackets : ((inputStep ⟨i, m.env⟩ s.manager).2.filterMap packet).length ≤ 1 := by
      rw [inputStep_packets]
      split
      · split_ifs <;> simp
      · simp
    cases gstOf b i m s with
    | none => simp
    | some o =>
      dsimp only
      split_ifs
      · simpa using hpackets
      · simp
  | opened t => simp [studioStep_opened hw]
  | sample callback =>
    rw [studioStep_sample hw]
    by_cases hhas : s.Has fun o => supplies callback o = true
    · obtain ⟨o, hs, hsupplies⟩ := hhas
      rw [sampleTurn_sent hs hsupplies]
      exact Option.length_toList_le
    · simp [sampleTurn_silent hhas]

/-- A frame goes out on an open track that is wired, when the sink of its capture has a sample. -/
theorem frame_mem_step {data : List UInt8} : .frame t data ∈ (studioStep b m s).2 ↔
    m.what = .sample t.kind.callback ∧ s.Has (fun o => supplies t.kind.callback o = true) ∧
      Wired t s ∧ (m.gst t.kind.medium).sample = true ∧
      (m.gst t.kind.medium).mapped = some data ∧ m.isOpen t = true := by
  cases hw : m.what with
  | input i =>
    have hno : Delivery.frame t data ∉ (studioStep b m s).2 := by
      rw [studioStep_input hw, inputTurn_sent]
      cases gstOf b i m s with
      | none => simp
      | some o =>
        dsimp only
        split_ifs <;> simp
    simp [hno]
  | opened t' => simp [studioStep_opened hw]
  | sample callback =>
    rw [studioStep_sample hw, mem_sampleTurn, Occasion.sample.injEq]
    constructor
    · rintro ⟨rfl, hrest⟩
      exact ⟨rfl, hrest⟩
    · rintro ⟨rfl, hrest⟩
      exact ⟨rfl, hrest⟩

/-- For every run and whatever comes next: a sample is sent on a local track if and only if the
track was the last of its kind to open in the session, and is open. -/
theorem frames_routed (b : Build) (l : List Moment) (m : Moment) :
    let s := ((studioStep b).run l {}).1
    ((studioStep b) m s).2.length ≤ 1 ∧ ∀ t data, .frame t data ∈ (studioStep b m s).2 ↔
      m.what = .sample t.kind.callback ∧ s.Has (fun o => supplies t.kind.callback o = true) ∧
      (m.gst t.kind.medium).sample = true ∧ (m.gst t.kind.medium).mapped = some data ∧
      m.isOpen t = true ∧ (studioStep b).Since (Opens t) (Holds t) l {} := by
  intro s
  refine ⟨length_step_le, fun t data => ?_⟩
  have hwired : Wired t s ↔ (studioStep b).Since (Opens t) (Holds t) l {} :=
    Step.run_since (I := Furnished) (fun _ _ h => h.step) (fun m s h => wired_step t m s h)
      Furnished.new (by simp [Wired, Studio.Has]) l
  rw [frame_mem_step, hwired]
  tauto

end Frames

/-! ### Packets -/

section Packets

/-- The player has its source. -/
def Sounding : Studio → Prop := Studio.Has fun o => o.world.manager.audioAppSrc.isSome = true

/-- A session begins, and the launch of its player gives the source. -/
def Sounds (m : Moment) (s : Studio) : Prop :=
  ∃ i p, m.what = .input i ∧ makesGst i s.manager = some p ∧
    hasSource (m.gst .audioPlayer).launch = true ∧
    (inputStep ⟨i, m.env⟩ s.manager).1.gstManager = true

/-- The session goes on. -/
def Lasts (m : Moment) (s : Studio) : Prop :=
  ∀ i, m.what = .input i → (inputStep ⟨i, m.env⟩ s.manager).1.gstManager = true

theorem same_source (o o' : Owner) (hs : Same o o') :
    o'.world.manager.audioAppSrc.isSome = true ↔ o.world.manager.audioAppSrc.isSome = true := by
  rw [hs.1]

/-- What one step does to the source of the player. -/
theorem sounding_step (m : Moment) (s : Studio) (h : Furnished s) :
    Sounding (studioStep b m s).1 ↔ Sounds m s ∨ Lasts m s ∧ Sounding s := by
  cases hw : m.what with
  | input i =>
    have hsource (p : Bool) : (makeGst b p m.gst).world.manager.audioAppSrc.isSome = true ↔
        hasSource (m.gst .audioPlayer).launch = true := by
      rw [(makeGst_spec b p m.gst).2.1]
    rw [studioStep_input hw, Sounding, has_input same_source h]
    simp only [Sounds, Lasts, hw, hsource, Occasion.input.injEq, forall_eq', exists_and_right,
      exists_and_left, exists_eq_left']
    tauto
  | opened t =>
    have hsounds : ¬ Sounds m s := by
      rintro ⟨i, p, hi, -⟩
      cases hw.symm.trans hi
    have hsame : Sounding (openTurn b t m s) ↔ Sounding s := by
      by_cases ht : t ∈ s.localTracks
      · cases hs : s.gst with
        | none => simp [Sounding, Studio.Has, openTurn, ht, hs]
        | some o =>
          obtain ⟨o', ho', -, p, hmanager⟩ := openTurn_spec (b := b) (m := m) ht hs
          simp [Sounding, Studio.Has, ho', hs, hmanager]
      · rw [openTurn, if_neg ht]
    rw [studioStep_opened hw, hsame]
    simp [hsounds, Lasts, hw]
  | sample callback =>
    rw [studioStep_sample hw, Sounding, has_sample same_source]
    simp [Sounds, Lasts, hw]

/-- The packets that an input hands to the player. -/
theorem mem_packets {e : Env} {m : Manager} {data : List UInt8} :
    data ∈ (inputStep ⟨i, e⟩ m).2.filterMap packet ↔ ∃ track h,
      i = .callback (.trackData track data) ∧ m.trackHandlers.lookup track = some h ∧
        h.kind = "audio" ∧ m.gstManager = true := by
  rw [inputStep_packets]
  split
  · rename_i track data'
    constructor
    · intro hmem
      split_ifs at hmem with hheard
      · obtain ⟨hg, h, hh, hkind⟩ := hheard
        rw [List.mem_singleton] at hmem
        exact ⟨track, h, by rw [hmem], hh, hkind, hg⟩
      · cases hmem
    · rintro ⟨track', h, hi, hh, hkind, hg⟩
      cases hi
      rw [if_pos ⟨hg, h, hh, hkind⟩]
      exact List.mem_singleton_self _
  · rename_i hother
    constructor
    · exact fun hmem => by cases hmem
    · rintro ⟨track, h, hi, -⟩
      exact absurd hi (hother track data)

/-- The track has a handler that pushes its packets. -/
def Hearing (track : ℕ) (s : Studio) : Prop :=
  ∃ h, s.manager.trackHandlers.lookup track = some h ∧ h.kind = "audio"

/-- The track is handed over on a connection of a stream. -/
def HandsOver (m : Moment) (s : Studio) (t : Track) : Prop :=
  ∃ pc, m.what = .input (.callback (.track pc t)) ∧ (s.manager.captured pc).isSome

/-- The track is handed over and passes for an audio track: by the last offer with its mid, or
where there was none by its own type. -/
def Joins (track : ℕ) (m : Moment) (s : Studio) : Prop :=
  ∃ t, HandsOver m s t ∧ t.id = track ∧
    (s.manager.midTypeMap.lookup t.mid).getD t.type = "audio"

/-- No track with the number is handed over, and no session ends. -/
def Stays (track : ℕ) (m : Moment) (s : Studio) : Prop :=
  (∀ t, HandsOver m s t → t.id ≠ track) ∧ ∀ i, m.what = .input i → ¬ Ends i m.env s.manager

theorem not_joins {track : ℕ} (h : ∀ t, ¬ HandsOver m s t) : ¬ Joins track m s :=
  fun ⟨t, ht, _⟩ => h t ht

/-- What one step does to the handler of a track. -/
theorem hearing_step (track : ℕ) (m : Moment) (s : Studio) (h : Furnished s) :
    Hearing track (studioStep b m s).1 ↔ Joins track m s ∨ Stays track m s ∧ Hearing track s := by
  cases hw : m.what with
  | input i =>
    have hmanager : (inputTurn b i m s).1.manager = (inputStep ⟨i, m.env⟩ s.manager).1 := rfl
    rw [studioStep_input hw, Hearing, hmanager]
    by_cases hover : ∃ t, HandsOver m s t
    · obtain ⟨t, pc, hi, hcaptured⟩ := hover
      cases hw.symm.trans hi
      obtain ⟨stream, hc⟩ := Option.isSome_iff_exists.mp hcaptured
      have honly {t' : Track} : HandsOver m s t' ↔ t' = t := by
        constructor
        · rintro ⟨_, hi', -⟩
          cases hi.symm.trans hi'
          rfl
        · rintro rfl
          exact ⟨pc, hi, hcaptured⟩
      have hstays : ¬ Ends (.callback (.track pc t)) m.env s.manager := by
        rintro ⟨hg | hp, hafter⟩
        · rw [inputStep_callback, (step_frame _ _).2.1, hg] at hafter
          cases hafter
        · cases hp
      have hafter : (inputStep ⟨.callback (.track pc t), m.env⟩ s.manager).1.trackHandlers =
          s.manager.trackHandlers.insert t.id
            ⟨(s.manager.midTypeMap.lookup t.mid).getD t.type, stream⟩ := by
        simp [inputStep_callback, step, stepOf, deliver, hc, addRemoteTrack]
      have hends : ∀ i, m.what = .input i → ¬ Ends i m.env s.manager := by
        intro i' hi'
        cases hi.symm.trans hi'
        exact hstays
      simp only [hafter, Dict.lookup_insert_eq, Joins, Stays, honly, exists_eq_left, forall_eq,
        eq_true hends, and_true]
      by_cases ht : track = t.id
      · simp [ht]
      · simp [ht, Ne.symm ht, Hearing]
    · have hnone (t : Track) : ¬ HandsOver m s t := fun ht => hover ⟨t, ht⟩
      have hcaptured (pc : ℕ) (t : Track) (hi : i = .callback (.track pc t)) :
          s.manager.captured pc = none := by
        by_contra hc
        exact hnone t ⟨pc, by rw [hw, hi], Option.isSome_iff_ne_none.mpr hc⟩
      rcases inputStep_trackHandlers h.seated m.env hcaptured with ⟨hends, hs⟩ | ⟨hends, hs⟩ <;>
        simp [hs, not_joins hnone, Stays, hnone, hw, hends, Hearing]
  | opened t =>
    have hnone (t' : Track) : ¬ HandsOver m s t' := by
      rintro ⟨_, hi, -⟩
      cases hw.symm.trans hi
    have hmanager : (openTurn b t m s).manager = s.manager := by
      rw [openTurn]
      split_ifs <;> rfl
    simp [studioStep_opened hw, Hearing, hmanager, not_joins hnone, Stays, hnone, hw]
  | sample callback =>
    have hnone (t' : Track) : ¬ HandsOver m s t' := by
      rintro ⟨_, hi, -⟩
      cases hw.symm.trans hi
    obtain ⟨hmanager, -⟩ := sampleTurn_frame (m := m) (s := s) callback
    simp [studioStep_sample hw, Hearing, hmanager, not_joins hnone, Stays, hnone, hw]

/-- For every run and whatever comes next: a packet is played if and only if its track has been
handed over as an audio track, with no session ended since, and the launch of the session's player
has given the source. Whether anybody talks is not asked. -/
theorem packets_played (b : Build) (l : List Moment) (m : Moment) (data : List UInt8) :
    let s := ((studioStep b).run l {}).1
    .push data ∈ (studioStep b m s).2 ↔
      (∃ track, m.what = .input (.callback (.trackData track data)) ∧
        (studioStep b).Since (Joins track) (Stays track) l {}) ∧
      (m.gst .audioPlayer).allocated = true ∧ (studioStep b).Since Sounds Lasts l {} := by
  intro s
  have hhearing (track : ℕ) :
      Hearing track s ↔ (studioStep b).Since (Joins track) (Stays track) l {} :=
    Step.run_since (I := Furnished) (fun _ _ h => h.step) (fun m s h => hearing_step track m s h)
      Furnished.new (by simp [Hearing]) l
  have hsounding : Sounding s ↔ (studioStep b).Since Sounds Lasts l {} :=
    Step.run_since (I := Furnished) (fun _ _ h => h.step) (fun m s h => sounding_step m s h)
      Furnished.new (by simp [Sounding, Studio.Has]) l
  have hfurnished : Furnished s := Step.run_invariant (fun _ _ h => h.step) l _ .new
  simp only [← hsounding, ← hhearing]
  cases hw : m.what with
  | input i =>
    rw [studioStep_input hw, inputTurn_sent]
    constructor
    · intro hmem
      cases hs : gstOf b i m s with
      | none => simp [hs] at hmem
      | some o =>
        simp only [hs] at hmem
        split_ifs at hmem with hplays
        · rw [Bool.and_eq_true] at hplays
          obtain ⟨data', hdata, heq⟩ := List.mem_map.mp hmem
          cases heq
          obtain ⟨track, h, rfl, hh, hkind, -⟩ := mem_packets.mp hdata
          exact ⟨⟨track, rfl, h, hh, hkind⟩, hplays.2, o, hs, hplays.1⟩
        · cases hmem
    · rintro ⟨⟨track, hi, h, hh, hkind⟩, hallocated, o, hs, hsource⟩
      cases hi
      have hg : s.manager.gstManager = true := by simpa [hs] using hfurnished.present.symm
      have hgst : gstOf b (.callback (.trackData track data)) m s = some o := hs
      simp only [hgst, hsource, hallocated, Bool.and_self, if_true]
      exact List.mem_map.mpr ⟨data, mem_packets.mpr ⟨track, h, rfl, hh, hkind, hg⟩, rfl⟩
  | opened t => simp [studioStep_opened hw]
  | sample callback =>
    have hno : Delivery.push data ∉ (studioStep b m s).2 := by
      rw [studioStep_sample hw]
      by_cases hhas : s.Has fun o => supplies callback o = true
      · obtain ⟨o, hs, hsupplies⟩ := hhas
        rw [sampleTurn_sent hs hsupplies, Option.mem_toList]
        intro hsent
        obtain ⟨kind, -, hsent⟩ := Option.bind_eq_some_iff.mp hsent
        split_ifs at hsent
        obtain ⟨pc, -, hsent⟩ := Option.bind_eq_some_iff.mp hsent
        obtain ⟨data', -, hsent⟩ := Option.bind_eq_some_iff.mp hsent
        split_ifs at hsent
        cases hsent
      · simp [sampleTurn_silent hhas]
    simp [hno]

end Packets

/-! ### Whose frames are sent -/

section Owners

/-- A local track opens while its connection is open, and is closed with it. -/
def Proper (m : Moment) (s : Studio) : Prop :=
  (∀ t, m.what = .opened t → t.pc ∈ s.manager.openPeers) ∧
    ∀ t, m.isOpen t = true → t.pc ∈ s.manager.openPeers

/-- The tracks that are known belong to sessions that publish, and those that get frames are known.
A player captures nothing. -/
structure Tuned (s : Studio) : Prop where
  furnished : Furnished s
  known : ∀ t ∈ s.localTracks, t.pc < s.manager.nextPc
  role : ∀ t ∈ s.localTracks, t.pc ∈ s.manager.openPeers → s.manager.isOnlyPlayer = false
  wired : ∀ t, Wired t s → t ∈ s.localTracks
  silent : s.manager.isOnlyPlayer = true → ∀ kind : Kind,
    ¬ s.Has fun o => o.pointer kind.medium ≠ none

theorem Tuned.new : Tuned {} :=
  ⟨.new, by simp, by simp, by simp [Wired, Studio.Has], by simp [Studio.Has]⟩

theorem same_pointer (medium : Medium) (o o' : Owner) (hs : Same o o') :
    o'.pointer medium ≠ none ↔ o.pointer medium ≠ none := by
  rw [Owner.pointer, Owner.pointer, hs.1]

theorem Tuned.input (h : Tuned s) : Tuned (inputTurn b i m s).1 := by
  have hadds := inputStep_adds ⟨i, m.env⟩ s.manager
  obtain ⟨hmakes, hrest⟩ := inputStep_role i m.env s.manager
  have hmem {t : LocalTrack} : t ∈ (inputTurn b i m s).1.localTracks ↔ t ∈ s.localTracks ∨
      ∃ c ∈ (inputStep ⟨i, m.env⟩ s.manager).2, localTrack c = some t := by
    simp [inputTurn]
  refine ⟨h.furnished.input, fun t ht => ?_, fun t ht hopen => ?_, fun t ht => ?_, ?_⟩
  · rcases hmem.mp ht with ht | ⟨c, hc, ht⟩
    · exact (h.known t ht).trans_le (nextPc_input ⟨i, m.env⟩ s.manager)
    · obtain ⟨hpc, hlt, -⟩ := hadds c hc t ht
      exact hpc ▸ hlt
  · rcases hmem.mp ht with ht | ⟨c, hc, ht⟩
    · have hbefore := mem_openPeers_input (h.known t ht) hopen
      cases hp : makesGst i s.manager with
      | none => exact (hrest hp).1.trans (h.role t ht hbefore)
      | some p =>
        have hgone : s.manager.gstManager = false := by
          simpa [h.furnished.makes hp] using h.furnished.present.symm
        exact absurd hbefore (h.furnished.seated.not_open hgone t.pc)
    · exact (hadds c hc t ht).2.2
  · obtain ⟨-, ⟨p, -, hnone⟩ | hbefore⟩ := (has_input (same_handlers _ _) h.furnished).mp ht
    · rw [(makeGst_spec b p m.gst).1] at hnone
      cases hnone
    · exact hmem.mpr (.inl (h.wired t hbefore))
  · intro (hplayer : (inputStep ⟨i, m.env⟩ s.manager).1.isOnlyPlayer = true) kind hhas
    obtain ⟨-, ⟨p, hp, hsome⟩ | hbefore⟩ := (has_input (same_pointer _) h.furnished).mp hhas
    · exact hsome ((makeGst_spec b p m.gst).2.2 ((hmakes p hp).symm.trans hplayer) kind)
    · cases hp : makesGst i s.manager with
      | none => exact h.silent ((hrest hp).1.symm.trans hplayer) kind hbefore
      | some p =>
        obtain ⟨o, ho, -⟩ := hbefore
        cases (h.furnished.makes hp).symm.trans ho

theorem Tuned.step (h : Tuned s) (hproper : Proper m s) : Tuned (studioStep b m s).1 := by
  have hfurnished : Furnished (studioStep b m s).1 := h.furnished.step
  cases hw : m.what with
  | input i =>
    rw [studioStep_input hw]
    exact h.input
  | opened t =>
    rw [studioStep_opened hw] at hfurnished ⊢
    by_cases ht : t ∈ s.localTracks
    · have hmanager : (openTurn b t m s).manager = s.manager := by simp [openTurn, ht]
      have htracks : (openTurn b t m s).localTracks = s.localTracks := by simp [openTurn, ht]
      have hpublishes := h.role t ht (hproper.1 t hw)
      refine ⟨hfurnished, ?_, ?_, fun t' ht' => ?_, fun hplayer => ?_⟩
      · rw [htracks, hmanager]
        exact h.known
      · rw [htracks, hmanager]
        exact h.role
      · rw [htracks]
        have hstep := wired_step (b := b) t' m s h.furnished
        rw [studioStep_opened hw] at hstep
        exact (hstep.mp ht').elim (fun hopens => hopens.2.1) fun hkept => h.wired t' hkept.2
      · rw [hmanager, hpublishes] at hplayer
        cases hplayer
    · rwa [openTurn, if_neg ht]
  | sample callback =>
    rw [studioStep_sample hw] at hfurnished ⊢
    obtain ⟨hmanager, htracks⟩ := sampleTurn_frame (m := m) (s := s) callback
    refine ⟨hfurnished, ?_, ?_, fun t' ht' => ?_, fun hplayer kind hhas => ?_⟩
    · rw [htracks, hmanager]
      exact h.known
    · rw [htracks, hmanager]
      exact h.role
    · rw [htracks]
      exact h.wired t' ((has_sample (same_handlers _ _) callback).mp ht')
    · rw [hmanager] at hplayer
      exact h.silent hplayer kind ((has_sample (same_pointer _) callback).mp hhas)

/-- In every run where tracks open and close with their connections: a frame is sent in a session,
one that publishes, on the connection that is stored for a stream. A player captures nothing. -/
theorem frames_owned (b : Build) (l : List Moment) (m : Moment)
    (hproper : (studioStep b).Along Proper (l ++ [m]) {}) :
    let s := ((studioStep b).run l {}).1
    (∀ t data, .frame t data ∈ (studioStep b m s).2 →
      s.manager.isCommunicating = true ∧ s.manager.isOnlyPlayer = false ∧
        ∃ stream, s.manager.pcs.lookup stream = some t.pc) ∧
      (s.manager.isOnlyPlayer = true → ∀ kind : Kind,
        ¬ s.Has fun o => o.pointer kind.medium ≠ none) := by
  intro s
  obtain ⟨hrun, hlast⟩ := Step.along_append.mp hproper
  have hm : Proper m s := (Step.along_cons.mp hlast).1
  have h : Tuned s := Step.run_preserves (fun _ _ h hok => h.step hok) l _ .new hrun
  refine ⟨fun t data hframe => ?_, h.silent⟩
  obtain ⟨-, -, hwired, -, -, hisOpen⟩ := frame_mem_step.mp hframe
  have hopen := hm.2 t hisOpen
  have hg : s.manager.gstManager = true := by
    obtain ⟨o, ho, -⟩ := id hwired
    simpa [ho] using h.furnished.present.symm
  refine ⟨h.furnished.seated.running.symm.trans hg, h.role t (h.wired t hwired) hopen, ?_⟩
  rw [mem_openPeers] at hopen
  cases hp : s.manager.peers[t.pc]? with
  | none => simp [hp] at hopen
  | some p =>
    exact ⟨p.streamId, (h.furnished.seated.linked.stored _ _ hp).mp (by simpa [hp] using hopen)⟩

/-- The libraries do as they are asked, and the tracks of the first connection are open or not. -/
def Occasion.calm (what : Occasion) (isOpen : Bool) : Moment :=
  ⟨what, .calm, fun _ => .calm, fun t => isOpen && t.pc = 0⟩

/-- A session that publishes, with a sample once its track is open. -/
def publishing : List Moment :=
  [(Occasion.input (.api (.setSignalingServerURL "ws"))).calm false,
    (Occasion.input (.api (.start false))).calm false, (Occasion.opened ⟨0, .video⟩).calm true]

theorem proper_calm {what : Occasion} {isOpen : Bool}
    (hopened : ∀ t, what = .opened t → t.pc = 0)
    (hopen : isOpen = true ∨ (∃ t, what = .opened t) → 0 ∈ s.manager.openPeers) :
    Proper (what.calm isOpen) s := by
  constructor
  · intro t (ht : what = .opened t)
    rw [hopened t ht]
    exact hopen (.inr ⟨t, ht⟩)
  · intro t (ht : (isOpen && t.pc = 0) = true)
    rw [Bool.and_eq_true, decide_eq_true_eq] at ht
    rw [ht.2]
    exact hopen (.inl ht.1)

theorem publishing_proper : (studioStep ⟨false, true⟩).Along Proper
    (publishing ++ [(Occasion.sample .onVideoRTPSample).calm true]) {} := by
  refine Step.along_cons.mpr ⟨proper_calm nofun (by simp), Step.along_cons.mpr
    ⟨proper_calm nofun (by simp), Step.along_cons.mpr ⟨proper_calm ?_ fun _ => by decide,
      Step.along_cons.mpr ⟨proper_calm nofun fun _ => by decide, Step.along_nil _ _⟩⟩⟩⟩
  rintro t ⟨⟩
  rfl

/-- The frame of the sample is sent. -/
theorem frames_owned_publishing :
    let b : Build := ⟨false, true⟩
    let s := ((studioStep b).run publishing {}).1
    let m := (Occasion.sample .onVideoRTPSample).calm true
    Delivery.frame ⟨0, .video⟩ [1] ∈ (studioStep b m s).2 ∧
    (∀ t data, .frame t data ∈ (studioStep b m s).2 →
      s.manager.isCommunicating = true ∧ s.manager.isOnlyPlayer = false ∧
        ∃ stream, s.manager.pcs.lookup stream = some t.pc) ∧
      (s.manager.isOnlyPlayer = true → ∀ kind : Kind,
        ¬ s.Has fun o => o.pointer kind.medium ≠ none) :=
  ⟨by decide, frames_owned ⟨false, true⟩ publishing
    ((Occasion.sample .onVideoRTPSample).calm true) publishing_proper⟩

end Owners

end ConferenceCall.Media

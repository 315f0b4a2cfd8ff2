import ConferenceCall.Log.System

/-! What a call can change: the paths it works on, the directories it makes and the files it
opens. -/

namespace ConferenceCall.Log

open Library Program

/-- The paths a command can change. -/
def Command.Changes (d : Disk) : Command → Path → Prop
  | .tar target _ _, p => p = d.path target
  | .rm operands, p => rmPaths d operands p
  | .touch operands, p => ∃ w ∈ operands, p = d.path w
  | .other, _ => False

/-- The paths it can make. -/
def Command.Creates (d : Disk) : Command → Path → Prop
  | .tar target _ _, p => p = d.path target
  | .touch operands, p => ∃ w ∈ operands, p = d.path w
  | _, _ => False

/-- The paths a call can change. -/
def Call.Changes (sh : Text → List (List Text)) (s : State) : Call → Path → Prop
  | .openFile _ path _ _, p | .unlink path, p | .mkdir path, p => p = s.disk.path path
  | .write f _, p => ∃ h ∈ s.opened f, p = h.path
  | .rename old new, p => p = s.disk.path old ∨ p = s.disk.path new
  | .system command, p => ∃ words ∈ sh command, (Command.ofWords words).Changes s.disk p
  | _, _ => False

/-- The paths it can make. -/
def Call.Creates (sh : Text → List (List Text)) (s : State) : Call → Path → Prop
  | .openFile _ path _ _, p | .mkdir path, p => p = s.disk.path path
  | .rename _ new, p => p = s.disk.path new
  | .system command, p => ∃ words ∈ sh command, (Command.ofWords words).Creates s.disk p
  | _, _ => False

/-- What a change of the disk within some paths leaves. -/
structure Within (changes creates : Path → Prop) (d d' : Disk) : Prop where
  cwd : d'.cwd = d.cwd
  node : ∀ p, ¬changes p → d'.node p = d.node p
  made : ∀ p, d'.node p ≠ none → d.node p ≠ none ∨ creates p
  dirs : ∀ p, d'.node p = some .dir → d.node p = some .dir

variable {sh : Text → List (List Text)} {d d' d'' : Disk} {s : State} {x : Choice} {p : Path}
  {changes creates : Path → Prop}

namespace Within

theorem refl (changes creates : Path → Prop) (d : Disk) : Within changes creates d d :=
  ⟨rfl, fun _ _ => rfl, fun _ h => .inl h, fun _ h => h⟩

theorem trans (h : Within changes creates d d') (h' : Within changes creates d' d'') :
    Within changes creates d d'' :=
  ⟨h'.cwd.trans h.cwd, fun p hp => (h'.node p hp).trans (h.node p hp),
    fun p hp => (h'.made p hp).elim (h.made p) .inr, fun p hp => h.dirs p (h'.dirs p hp)⟩

theorem mono {changes' creates' : Path → Prop} (h : Within changes creates d d')
    (hchanges : ∀ p, changes p → changes' p) (hcreates : ∀ p, creates p → creates' p) :
    Within changes' creates' d d' :=
  ⟨h.cwd, fun p hp => h.node p fun hc => hp (hchanges p hc),
    fun p hp => (h.made p hp).imp_right (hcreates p), h.dirs⟩

/-- A file that is put at one of the paths. -/
theorem put {c : List Item} (hchanges : changes p) (hcreates : d.node p ≠ none ∨ creates p) :
    Within changes creates d (d.put p (some (.file c))) := by
  refine ⟨rfl, fun q hq => Disk.put_node_of_ne fun h => hq (h ▸ hchanges), fun q hq => ?_,
    fun q hq => ?_⟩
  · by_cases hqp : q = p
    · rwa [hqp]
    · rw [Disk.put_node_of_ne hqp] at hq
      exact .inl hq
  · by_cases hqp : q = p
    · rw [hqp, Disk.put_node_self] at hq
      cases hq
    · rwa [Disk.put_node_of_ne hqp] at hq

theorem put_none (hchanges : changes p) : Within changes creates d (d.put p none) := by
  have hnone (q : Path) (hq : (d.put p none).node q ≠ none) : (d.put p none).node q = d.node q := by
    refine Disk.put_node_of_ne fun h => hq ?_
    rw [h, Disk.put_node_self]
  refine ⟨rfl, fun q hq => Disk.put_node_of_ne fun h => hq (h ▸ hchanges), fun q hq => ?_,
    fun q hq => ?_⟩
  · rw [hnone q hq] at hq
    exact .inl hq
  · rwa [hnone q (by rw [hq]; simp)] at hq

theorem move {q : Path} {c : List Item} (hp : d.node p = some (.file c)) (hold : changes p)
    (hnew : changes q) (hcreates : creates q) : Within changes creates d (d.move p q) := by
  unfold Disk.move
  split_ifs
  · exact .refl changes creates d
  · rw [hp]
    exact (put hnew (.inr hcreates)).trans (put_none hold)

end Within

theorem within_touched (operands : List Text) (hcwd : d'.cwd = d.cwd) :
    Within (Command.Changes d (.touch operands)) (Command.Creates d (.touch operands)) d'
      (operands.foldl touched d') := by
  have hpath {d' : Disk} (hcwd : d'.cwd = d.cwd) (w : Text) : d'.path w = d.path w := by
    rw [Disk.path, Disk.path, hcwd]
  induction operands generalizing d' with
  | nil => exact .refl _ _ d'
  | cons w operands ih =>
    have hfirst : Within (Command.Changes d (.touch (w :: operands)))
        (Command.Creates d (.touch (w :: operands))) d' (touched d' w) := by
      unfold touched
      split_ifs
      · have hw : ∃ w' ∈ w :: operands, d'.path w = d.path w' := ⟨w, List.mem_cons_self, hpath hcwd w⟩
        exact .put hw (.inr hw)
      · exact .refl _ _ d'
    have hmem {p : Path} (h : ∃ w' ∈ operands, p = d.path w') :
        ∃ w' ∈ w :: operands, p = d.path w' := by
      obtain ⟨w', hw', rfl⟩ := h
      exact ⟨w', List.mem_cons_of_mem w hw', rfl⟩
    exact hfirst.trans ((ih (hfirst.cwd.trans hcwd)).mono (fun _ => hmem) fun _ => hmem)

/-- A command changes its paths only. -/
theorem within_run (command : Command) (tool : Tool) (hcwd : d'.cwd = d.cwd) :
    Within (command.Changes d) (command.Creates d) d' (command.run tool d').1 := by
  have hpath (w : Text) : d'.path w = d.path w := by rw [Disk.path, Disk.path, hcwd]
  cases command with
  | tar target base operands =>
    have hput (c : List Item) : Within (Command.Changes d (.tar target base operands))
        (Command.Creates d (.tar target base operands)) d'
          (d'.put (d'.path target) (some (.file c))) :=
      .put (hpath target) (.inr (hpath target))
    simp only [Command.run]
    split_ifs
    · exact .refl _ _ d'
    · exact hput _
    · split
      · exact .refl _ _ d'
      · exact hput _
  | rm operands =>
    have hrm : ∀ p, rmPaths d' operands p ↔ rmPaths d operands p := by
      simp only [rmPaths, refused, hpath, implies_true]
    refine ⟨rfl, fun p hp => if_neg fun h => hp ((hrm p).mp h.1), fun p hp => .inl ?_,
      fun p hp => ?_⟩
    · simp only [Command.run, Disk.cut] at hp
      split_ifs at hp
      · exact absurd rfl hp
      · exact hp
    · simp only [Command.run, Disk.cut] at hp
      split_ifs at hp
      exact hp
  | touch operands =>
    simp only [Command.run]
    split_ifs
    · exact within_touched operands hcwd
    · exact .refl _ _ d'
  | other => exact .refl _ _ d'

theorem within_runCommands (tools : ℕ → Tool) (k : ℕ) (l : List Command) (hcwd : d'.cwd = d.cwd) :
    Within (fun p => ∃ c ∈ l, c.Changes d p) (fun p => ∃ c ∈ l, c.Creates d p) d'
      (runCommands tools k l d').1 := by
  induction l generalizing d' k with
  | nil => exact .refl _ _ d'
  | cons c l ih =>
    have hfirst := within_run c (tools k) hcwd
    have hrest := ih (k + 1) (hfirst.cwd.trans hcwd)
    refine Within.trans (hfirst.mono (fun p hp => ?_) fun p hp => ?_)
      (hrest.mono (fun p hp => ?_) fun p hp => ?_)
    · exact ⟨c, List.mem_cons_self, hp⟩
    · exact ⟨c, List.mem_cons_self, hp⟩
    · obtain ⟨c', hc', hp⟩ := hp
      exact ⟨c', List.mem_cons_of_mem c hc', hp⟩
    · obtain ⟨c', hc', hp⟩ := hp
      exact ⟨c', List.mem_cons_of_mem c hc', hp⟩

variable (sh x s) in
/-- A call changes its paths only, and makes no directory unless asked to. -/
theorem within_act {c : Call} (hdir : ∀ path, c ≠ .mkdir path) :
    Within (c.Changes sh s) (c.Creates sh s) s.disk (act sh c x s).2.disk := by
  cases c with
  | openFile f path creates appends =>
    rcases act_openFile_cases sh x s f path creates appends with
      hact | ⟨c, -, hact⟩ | ⟨-, -, hact⟩ <;> rw [hact]
    · exact .refl _ _ _
    · exact .refl _ _ _
    · exact .put rfl (.inr rfl)
  | write f text =>
    simp only [act]
    cases ht : s.target f with
    | none => exact .refl _ _ _
    | some g =>
      obtain ⟨h, hh, hm⟩ := Option.bind_eq_some_iff.mp ht
      obtain ⟨c, hc, rfl⟩ := Option.map_eq_some_iff.mp hm
      refine .put ⟨h, hh, rfl⟩ (.inl ?_)
      rw [Disk.content_eq_some.mp hc]
      simp
  | rename old new =>
    rcases act_rename_cases sh x s old new with hact | ⟨c, hl, -, hact⟩ <;> rw [hact]
    · exact .refl _ _ _
    · exact .move (Disk.node_of_lookup hl) (.inl rfl) (.inr rfl) rfl
  | unlink path =>
    rcases act_unlink_cases sh x s path with hact | ⟨c, hl, hact⟩ <;> rw [hact]
    · exact .refl _ _ _
    · exact .put_none rfl
  | mkdir path => exact absurd rfl (hdir path)
  | system command =>
    simp only [act]
    split_ifs
    · exact .refl _ _ _
    · refine (within_runCommands x.tools 0 _ rfl).mono (fun p hp => ?_) fun p hp => ?_
      · obtain ⟨c, hc, hp⟩ := hp
        obtain ⟨words, hwords, rfl⟩ := List.mem_map.mp hc
        exact ⟨words, hwords, hp⟩
      · obtain ⟨c, hc, hp⟩ := hp
        obtain ⟨words, hwords, rfl⟩ := List.mem_map.mp hc
        exact ⟨words, hwords, hp⟩
  | _ => exact .refl _ _ _

variable (sh x s) in
/-- The files that are open were open, or are opened or moved by the call. -/
theorem act_opened (c : Call) {f : Fd} {h : Handle} (hh : h ∈ (act sh c x s).2.opened f) :
    (∃ h' ∈ s.opened f, h.path = h'.path) ∨
      (∃ path creates appends, c = .openFile f path creates appends ∧ h.path = s.disk.path path) ∨
      ∃ old new, c = .rename old new ∧ h.path = s.disk.path new := by
  cases c with
  | openFile g path creates appends =>
    have hopen {o : Option Handle} {d : Disk} (ho : ∀ g' ∈ o, g'.path = s.disk.path path)
        (hm : h ∈ ({ s with disk := d }.setOpen g o).opened f) :
        (∃ h' ∈ s.opened f, h.path = h'.path) ∨ f = g ∧ h.path = s.disk.path path := by
      by_cases hfg : f = g
      · subst hfg
        refine .inr ⟨rfl, ho h ?_⟩
        simpa [State.setOpen] using hm
      · refine .inl ⟨h, ?_, rfl⟩
        simpa [State.setOpen, hfg] using hm
    have hcases : (∃ h' ∈ s.opened f, h.path = h'.path) ∨ f = g ∧ h.path = s.disk.path path := by
      rcases act_openFile_cases sh x s g path creates appends with
        hact | ⟨c, -, hact⟩ | ⟨-, -, hact⟩ <;> rw [hact] at hh
      · exact hopen (by simp) hh
      · exact hopen (by simp) hh
      · exact hopen (by simp) hh
    refine hcases.imp_right ?_
    rintro ⟨rfl, hp⟩
    exact .inl ⟨path, creates, appends, rfl, hp⟩
  | write g text =>
    refine .inl ⟨h, ?_, rfl⟩
    simp only [act] at hh
    cases ht : s.target g with
    | none => simpa only [ht] using hh
    | some g' => simpa only [ht] using hh
  | close g =>
    refine .inl ⟨h, ?_, rfl⟩
    rcases State.mem_setOpen hh with hh | hh
    · exact hh
    · cases hh
  | rename old new =>
    rcases act_rename_cases sh x s old new with hact | ⟨c, -, -, hact⟩ <;> rw [hact] at hh
    · exact .inl ⟨h, hh, rfl⟩
    · obtain ⟨h', hh', hp | hp⟩ := State.mem_move hh
      · exact .inl ⟨h', hh', hp⟩
      · exact .inr (.inr ⟨old, new, rfl, hp⟩)
  | unlink path =>
    rcases act_unlink_cases sh x s path with hact | ⟨c, -, hact⟩ <;> rw [hact] at hh
    · exact .inl ⟨h, hh, rfl⟩
    · exact .inl ⟨h, State.mem_setDisk hh, rfl⟩
  | mkdir path =>
    refine .inl ⟨h, ?_, rfl⟩
    simp only [act] at hh
    split_ifs at hh <;> exact hh
  | system command =>
    refine .inl ⟨h, ?_, rfl⟩
    simp only [act] at hh
    split_ifs at hh
    · exact hh
    · exact State.mem_setDisk hh
  | _ => exact .inl ⟨h, hh, rfl⟩

end ConferenceCall.Log

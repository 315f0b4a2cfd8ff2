import ConferenceCall.Log.Folder
import ConferenceCall.Log.Reading

/-! The generations of a log file in the folder of a day, plain or packed, while lines are written
to it, it is rotated, and the pass over the folder visits one file after the other. -/

namespace ConferenceCall.Log

open Library Program

/-- A step of the system: the log file is given a new content, it is rotated, the log of the pass
is opened, or the pass comes to an entry. -/
inductive Move
  | write (content : List Item)
  | backup (x : ℕ → Choice)
  | openLog (h : Option Handle)
  | visit (d_name : Name) (x : ℕ → Choice)

/-- All system calls of a step succeed. -/
def Move.Succeeds : Move → Prop
  | .backup x | .visit _ x => ∀ n, (x n).Succeeds
  | _ => True

namespace LogFile

variable (log : LogFile) (sh : Text → List (List Text)) (folderPath : Text)

/-- A packed backup. -/
def packed (cwd : Path) (i : ℤ) : Path :=
  log.path cwd (backupFilePath log.name i ++ ".tgz".toList)

/-- The generations that are retained, plain or packed. -/
def generations (d : Disk) : Set ℤ :=
  {i | d.node (log.backup d.cwd i) ≠ none ∨ d.node (log.packed d.cwd i) ≠ none}

def move : Step Move State (Event Call Call.Answer State)
  | .write content, s =>
    ({ s with disk := s.disk.put (log.path s.disk.cwd log.name) (some (.file content)) }, [])
  | .backup x, s =>
    let o := (BackupLogFile log.text).exec (perform sh) x s
    (o.state, o.calls)
  | .openLog h, s => (s.setOpen .logFd h, [])
  | .visit d_name x, s =>
    let o := (visitFile folderPath d_name).exec (perform sh) x s
    (o.state, o.calls)

/-- The pass finds a file too large. -/
def TooLarge (d : Disk) (n : Name) : Prop :=
  ∃ c, d.content (log.path d.cwd n) = some c ∧ needsCompress n = false ∧
    DBG_LOG_SIZE_MAX < (c.map Item.size).sum

/-- A file whose counter or backups can be those of the log. -/
def Shares (n : Name) : Prop :=
  logInfoPath n = logInfoPath log.name ∨
    ∃ i j, backupFilePath n i = backupFilePath log.name j

/-- The oldest backup is not packed when the next rotation has to remove it. -/
def Roomy (d : Disk) : Prop :=
  ∀ logInfo, log.Counter d logInfo → Word.Fits (logInfo.oldestIndex + MAX_LOG_FILE_NUM) ∧
    (¬logInfo.count < MAX_LOG_FILE_NUM → d.node (log.packed d.cwd logInfo.oldestIndex) = none)

/-- A command that leaves the counter alone and packs to no generation that is not retained. -/
def Unharmed (d : Disk) (generations : Set ℤ) : Command → Prop
  | .tar target _ _ => d.path target ≠ log.info d.cwd ∧
    ∀ i, d.path target = log.backup d.cwd i ∨ d.path target = log.packed d.cwd i → i ∈ generations
  | .rm operands => ¬rmPaths d operands (log.info d.cwd)
  | .touch operands => ∀ w ∈ operands, d.path w ≠ log.info d.cwd ∧
    ∀ i, d.path w = log.backup d.cwd i ∨ d.path w = log.packed d.cwd i → i ∈ generations
  | .other => True

/-- The steps that keep the bound. -/
def Regular : Move → State → Prop
  | .write _, _ => True
  | .backup _, s => log.Roomy s.disk
  | .openLog h, s => ∀ h' ∈ h, h'.path ≠ log.info s.disk.cwd
  | .visit d_name _, s =>
    (needsCompress d_name = true → ∀ command ∈ [tarCommand (folderPath ++ '/' :: d_name),
        rmCommand (folderPath ++ '/' :: d_name)], ∀ words ∈ sh command,
      log.Unharmed s.disk (log.generations s.disk) (.ofWords words)) ∧
    (log.TooLarge s.disk d_name →
      if d_name = log.name then log.Roomy s.disk else ¬log.Shares d_name)

/-- The steps that rotate the log. -/
def Rotating : Move → State → Prop
  | .backup _, _ => True
  | .visit d_name _, s => d_name = log.name ∧ log.TooLarge s.disk d_name
  | _, _ => False

/-- What is kept of the log while others are handled: the counter, and no generation more. -/
structure Undisturbing (generations : Set ℤ) (logInfo : LogInfo) (s : State) : Prop where
  dir : s.disk.IsDir (Path.resolve s.disk.cwd log.dir)
  stored : log.Counter s.disk logInfo
  range : log.generations s.disk ⊆ generations
  plain : ∀ i, s.disk.node (log.backup s.disk.cwd i) ≠ some .dir
  opened : ∀ f, ∀ h ∈ s.opened f, h.path ≠ log.info s.disk.cwd

/-- A change of the disk that touches neither the counter nor the directory and adds no
generation. -/
def Benign (generations : Set ℤ) (d d' : Disk) : Prop :=
  d'.cwd = d.cwd ∧ ∀ p, d'.node p = d.node p ∨
    p ≠ log.info d.cwd ∧ (p = Path.resolve d.cwd log.dir → d'.IsDir p) ∧ d'.node p ≠ some .dir ∧
      (d'.node p = none ∨ d.node p ≠ none ∨
        ∀ i, p = log.backup d.cwd i ∨ p = log.packed d.cwd i → i ∈ generations)

/-- A call that leaves the counter alone and adds no generation. -/
def Apart (d : Disk) (generations : Set ℤ) : Call → Prop
  | .openFile _ path _ _ => d.path path ≠ log.info d.cwd ∧
    ∀ i, d.path path ≠ log.backup d.cwd i ∧ d.path path ≠ log.packed d.cwd i
  | .rename old new => d.path old ≠ log.info d.cwd ∧ d.path new ≠ log.info d.cwd ∧
    ∀ i, d.path new ≠ log.backup d.cwd i ∧ d.path new ≠ log.packed d.cwd i
  | .unlink path => d.path path ≠ log.info d.cwd
  | .system command => ∀ words ∈ sh command, log.Unharmed d generations (.ofWords words)
  | .mkdir _ => False
  | _ => True

end LogFile

section Benign

variable {log : LogFile} {generations : Set ℤ} {logInfo : LogInfo} {d d' : Disk} {s t : State}
  {sh : Text → List (List Text)}

theorem LogFile.Benign.refl (d : Disk) : log.Benign generations d d := ⟨rfl, fun _ => .inl rfl⟩

theorem LogFile.Undisturbing.of_benign (h : log.Undisturbing generations logInfo s)
    (hb : log.Benign generations s.disk t.disk)
    (hopened : ∀ f, ∀ h ∈ t.opened f, h.path ≠ log.info s.disk.cwd) :
    log.Undisturbing generations logInfo t := by
  obtain ⟨hcwd, hnode⟩ := hb
  have hinfo : t.disk.node (log.info s.disk.cwd) = s.disk.node (log.info s.disk.cwd) :=
    (hnode _).resolve_right fun hp => hp.1 rfl
  have hdir : t.disk.IsDir (Path.resolve s.disk.cwd log.dir) := by
    rcases hnode (Path.resolve s.disk.cwd log.dir) with hp | ⟨-, hp, -⟩
    · exact (isDir_congr hp).mpr h.dir
    · exact hp rfl
  have hrange (p : Path) (i : ℤ) (hi : p = log.backup s.disk.cwd i ∨ p = log.packed s.disk.cwd i)
      (hp : t.disk.node p ≠ none) : i ∈ generations := by
    have hs (hp : s.disk.node p ≠ none) : i ∈ generations := by
      refine h.range ?_
      rcases hi with rfl | rfl
      · exact .inl hp
      · exact .inr hp
    rcases hnode p with hsame | ⟨-, -, -, hnone | hold | hgen⟩
    · exact hs (hsame ▸ hp)
    · exact absurd hnone hp
    · exact hs hold
    · exact hgen i hi
  refine ⟨by rwa [hcwd], counter_congr h.stored hcwd hinfo (iff_of_true hdir h.dir), fun i hi => ?_,
    fun i => ?_, by rwa [hcwd]⟩
  · rcases hi with hi | hi
    · exact hrange _ i (.inl (by rw [hcwd])) hi
    · exact hrange _ i (.inr (by rw [hcwd])) hi
  · rw [hcwd]
    rcases hnode (log.backup s.disk.cwd i) with hsame | ⟨-, -, hp, -⟩
    · rw [hsame]
      exact h.plain i
    · exact hp

theorem LogFile.Benign.isDir (h : log.Benign generations d d')
    (hdir : d.IsDir (Path.resolve d.cwd log.dir)) : d'.IsDir (Path.resolve d.cwd log.dir) := by
  rcases h.2 (Path.resolve d.cwd log.dir) with hp | ⟨-, hp, -⟩
  · exact (isDir_congr hp).mpr hdir
  · exact hp rfl

theorem LogFile.Benign.trans {d'' : Disk} (h : log.Benign generations d d')
    (h' : log.Benign generations d' d'') : log.Benign generations d d'' := by
  obtain ⟨hcwd, hnode⟩ := h
  obtain ⟨hcwd', hnode'⟩ := h'
  rw [hcwd] at hcwd' hnode'
  refine ⟨hcwd', fun p => ?_⟩
  rcases hnode' p with hp' | ⟨hinfo', hdir', hplain', hgen'⟩
  · rcases hnode p with hp | ⟨hinfo, hdir, hplain, hgen⟩
    · exact .inl (hp'.trans hp)
    · rw [← hp'] at hplain hgen
      exact .inr ⟨hinfo, fun h => (isDir_congr hp').mpr (hdir h), hplain, hgen⟩
  · refine .inr ⟨hinfo', hdir', hplain', ?_⟩
    rcases hnode p with hp | ⟨-, -, -, hgen⟩
    · rwa [hp] at hgen'
    · rcases hgen' with hgone | hold | hgen'
      · exact .inl hgone
      · rcases hgen with hgone | hgen
        · exact absurd hgone hold
        · exact .inr hgen
      · exact .inr (.inr hgen')

/-- A path that is put a file at, or nothing. -/
theorem benign_put {p : Path} {n : Option Node} (hinfo : p ≠ log.info d.cwd)
    (hdir : p = Path.resolve d.cwd log.dir → p = []) (hn : n ≠ some .dir)
    (hgen : n = none ∨ d.node p ≠ none ∨
      ∀ i, p = log.backup d.cwd i ∨ p = log.packed d.cwd i → i ∈ generations) :
    log.Benign generations d (d.put p n) := by
  refine ⟨rfl, fun q => ?_⟩
  by_cases hq : q = p
  · subst hq
    rw [Disk.put_node_self]
    exact .inr ⟨hinfo, fun h => .inl (hdir h), hn, hgen⟩
  · exact .inl (Disk.put_node_of_ne hq)

theorem benign_move {p q : Path} {c : List Item} (hp : d.node p = some (.file c))
    (hpinfo : p ≠ log.info d.cwd) (hqinfo : q ≠ log.info d.cwd)
    (hpdir : p = Path.resolve d.cwd log.dir → p = [])
    (hqdir : q = Path.resolve d.cwd log.dir → q = [])
    (hgen : ∀ i, q ≠ log.backup d.cwd i ∧ q ≠ log.packed d.cwd i) :
    log.Benign generations d (d.move p q) := by
  unfold Disk.move
  split_ifs
  · exact .refl d
  · have hq : log.Benign generations d (d.put q (d.node p)) := by
      refine benign_put hqinfo hqdir (by rw [hp]; simp) (.inr (.inr fun i hi => ?_))
      exact (hi.elim (hgen i).1 (hgen i).2).elim
    exact hq.trans (benign_put hpinfo hpdir (by simp) (.inl rfl))

theorem benign_cut {gone : Path → Prop} [DecidablePred gone] (hinfo : ¬gone (log.info d.cwd))
    (hdir : gone (Path.resolve d.cwd log.dir) → Path.resolve d.cwd log.dir = []) :
    log.Benign generations d (d.cut gone) := by
  refine ⟨rfl, fun p => ?_⟩
  by_cases hp : gone p
  · have hnone : (d.cut gone).node p = none := if_pos hp
    refine .inr ⟨fun h => hinfo (h ▸ hp), fun h => .inl (h ▸ hdir (h ▸ hp)), ?_, .inl hnone⟩
    rw [hnone]
    simp
  · exact .inl (if_neg hp)

/-- The directory is not where a file is, or can be made. -/
theorem ne_dir {path : Text} (hdir : d.IsDir (Path.resolve d.cwd log.dir))
    (hpath : d.isFile path = true ∨ d.Creatable path)
    (h : d.path path = Path.resolve d.cwd log.dir) : d.path path = [] := by
  rw [← h, Disk.IsDir] at hdir
  refine hdir.resolve_right fun hnode => ?_
  rcases hpath with hfile | hnew
  · obtain ⟨c, hc⟩ := Disk.node_of_isFile hfile
    rw [hc] at hnode
    exact hnode
  · rw [hnew.1] at hnode
    exact hnode

/-- A command that leaves the counter alone. -/
theorem benign_run {d₀ : Disk} {command : Command} (tool : Tool) (hcwd : d.cwd = d₀.cwd)
    (hdir : d.IsDir (Path.resolve d.cwd log.dir))
    (h : log.Unharmed d₀ generations command) :
    log.Benign generations d (command.run tool d).1 := by
  have hpath (s : Text) : d₀.path s = d.path s := by rw [Disk.path, Disk.path, hcwd]
  cases command with
  | tar target base operands =>
    obtain ⟨hinfo, hgen⟩ := h
    rw [hpath, ← hcwd] at hinfo hgen
    have hput (c : List Item) (htarget : d.isFile target = true ∨ d.Creatable target) :
        log.Benign generations d (d.put (d.path target) (some (.file c))) :=
      benign_put hinfo (ne_dir hdir htarget) (by simp) (.inr (.inr hgen))
    simp only [Command.run]
    split_ifs with hfails
    · exact .refl d
    · exact hput _ (not_not.mp (not_or.mp hfails).2)
    · split
      · exact .refl d
      · exact hput _ (not_not.mp (not_or.mp hfails).2)
  | rm operands =>
    have hrm (p : Path) : rmPaths d operands p ↔ rmPaths d₀ operands p := by
      simp only [rmPaths, refused, hpath]
    refine benign_cut (fun hgone => h ?_) fun hgone => ?_
    · rw [← hcwd]
      exact (hrm _).mp hgone.1
    · obtain ⟨⟨w, hw, hrefused, hprefix⟩, -⟩ := hgone
      refine absurd ?_ h
      rw [← hrm, ← hcwd]
      exact ⟨w, hw, hrefused, hprefix.trans (List.prefix_append _ _)⟩
  | touch operands =>
    simp only [Command.run]
    split_ifs
    · have hpath' (w : Text) := hpath w
      clear hpath
      induction operands generalizing d with
      | nil => exact .refl d
      | cons w operands ih =>
        obtain ⟨hinfo, hgen⟩ := h w (by simp)
        rw [hpath', ← hcwd] at hinfo hgen
        have hfirst : log.Benign generations d (touched d w) := by
          unfold touched
          split_ifs with hnew
          · exact benign_put hinfo (ne_dir hdir (.inr hnew)) (by simp) (.inr (.inr hgen))
          · exact .refl d
        refine hfirst.trans (ih (hfirst.1.trans hcwd) ?_ (fun w hw => h w (by simp [hw])) fun w => ?_)
        · rw [hfirst.1]
          exact hfirst.isDir hdir
        · rw [hpath', Disk.path, Disk.path, hfirst.1]
    · exact .refl d
  | other => exact .refl d

theorem benign_runCommands {d₀ : Disk} (tools : ℕ → Tool) (n : ℕ) {l : List Command}
    (hcwd : d.cwd = d₀.cwd) (hdir : d.IsDir (Path.resolve d.cwd log.dir))
    (h : ∀ command ∈ l, log.Unharmed d₀ generations command) :
    log.Benign generations d (runCommands tools n l d).1 := by
  induction l generalizing d n with
  | nil => exact .refl d
  | cons command l ih =>
    have hfirst := benign_run (tools n) hcwd hdir (h command (by simp))
    refine hfirst.trans (ih (n + 1) (hfirst.1.trans hcwd) ?_ fun c hc => h c (by simp [hc]))
    rw [hfirst.1]
    exact hfirst.isDir hdir

variable (sh) in
/-- Writing to an open file. -/
theorem benign_write (x : Choice) (f : Fd) (text : Text)
    (h : log.Undisturbing generations logInfo s) :
    log.Benign generations s.disk (act sh (.write f text) x s).2.disk ∧
      (act sh (.write f text) x s).2.opened = s.opened := by
  simp only [act]
  cases ht : s.target f with
  | none => exact ⟨.refl _, rfl⟩
  | some hc =>
    obtain ⟨h', c⟩ := hc
    obtain ⟨h'', hh, hm⟩ := Option.bind_eq_some_iff.mp ht
    obtain ⟨c', hcontent, hpair⟩ := Option.map_eq_some_iff.mp hm
    cases hpair
    rw [Disk.content_eq_some] at hcontent
    refine ⟨benign_put (h.opened f h' hh) (fun hp => ?_) (by simp) (.inr (.inl ?_)), rfl⟩
    · have hdir := h.dir
      rw [← hp, Disk.IsDir, hcontent] at hdir
      exact hdir.resolve_right id
    · rw [hcontent]
      simp

/-- A call that leaves the counter alone. -/
theorem LogFile.Undisturbing.act {d₀ : Disk} {c : Call} {x : Choice}
    (h : log.Undisturbing generations logInfo s) (hcwd : s.disk.cwd = d₀.cwd)
    (hc : log.Apart sh d₀ generations c) :
    log.Undisturbing generations logInfo (act sh c x s).2 ∧
      (Log.act sh c x s).2.disk.cwd = d₀.cwd := by
  have hpath (path : Text) : d₀.path path = s.disk.path path := by
    rw [Disk.path, Disk.path, hcwd]
  have hstep {t : State} (hb : log.Benign generations s.disk t.disk)
      (hopened : ∀ f, ∀ h ∈ t.opened f, h.path ≠ log.info s.disk.cwd) :
      log.Undisturbing generations logInfo t ∧ t.disk.cwd = d₀.cwd :=
    ⟨h.of_benign hb hopened, hb.1.trans hcwd⟩
  have hsame (f : Fd) : ∀ g, ∀ h ∈ (s.setOpen f none).opened g, h.path ≠ log.info s.disk.cwd :=
    fun g h' hm => h.opened g h' ((State.mem_setOpen hm).resolve_right (by simp))
  cases c with
  | openFile f path creates appends =>
    obtain ⟨hinfo, hgen⟩ := hc
    rw [hpath, ← hcwd] at hinfo hgen
    have hopened (d : Disk) (g : Fd) : ∀ h ∈ ({ s with disk := d }.setOpen f
        (some ⟨s.disk.path path, appends⟩)).opened g, h.path ≠ log.info s.disk.cwd := by
      intro h' hm
      rcases State.mem_setOpen hm with hm | hm
      · exact h.opened g h' hm
      · cases hm
        exact hinfo
    rcases act_openFile_cases sh x s f path creates appends with
      hact | ⟨c, -, hact⟩ | ⟨-, hnew, hact⟩ <;> rw [hact]
    · exact hstep (.refl _) (hsame f)
    · exact hstep (.refl _) (hopened s.disk)
    · refine hstep (benign_put hinfo (ne_dir h.dir (.inr hnew)) (by simp) (.inr (.inr ?_)))
        (hopened _)
      exact fun i hi => (hi.elim (hgen i).1 (hgen i).2).elim
  | write f text =>
    obtain ⟨hb, hopened⟩ := benign_write sh x f text h
    exact hstep hb (hopened ▸ h.opened)
  | close f => exact hstep (.refl _) (hsame f)
  | rename old new =>
    obtain ⟨holdinfo, hnewinfo, hgen⟩ := hc
    rw [hpath, ← hcwd] at holdinfo hnewinfo hgen
    rcases act_rename_cases sh x s old new with hact | ⟨c, hold, hnew, hact⟩ <;> rw [hact]
    · exact ⟨h, hcwd⟩
    have hfile : s.disk.isFile old = true := by simp [Disk.isFile, hold]
    refine hstep (benign_move (Disk.node_of_lookup hold) holdinfo hnewinfo
      (ne_dir h.dir (.inl hfile)) (ne_dir h.dir hnew) hgen) fun f h' hm => ?_
    obtain ⟨h'', hs, hp | hp⟩ := State.mem_move hm
    · exact hp ▸ h.opened f h'' hs
    · exact hp ▸ hnewinfo
  | unlink path =>
    rw [LogFile.Apart, hpath, ← hcwd] at hc
    rcases act_unlink_cases sh x s path with hact | ⟨c, hold, hact⟩ <;> rw [hact]
    · exact ⟨h, hcwd⟩
    have hfile : s.disk.isFile path = true := by simp [Disk.isFile, hold]
    exact hstep (benign_put hc (ne_dir h.dir (.inl hfile)) (by simp) (.inl rfl))
      fun f h' hm => h.opened f h' (State.mem_setDisk hm)
  | mkdir path => exact hc.elim
  | system command =>
    simp only [Log.act]
    split_ifs
    · exact ⟨h, hcwd⟩
    · refine hstep (benign_runCommands x.tools 0 hcwd h.dir fun c hm => ?_)
        fun f h' hm => h.opened f h' (State.mem_setDisk hm)
      obtain ⟨words, hwords, rfl⟩ := List.mem_map.mp hm
      exact hc words hwords
  | _ => exact ⟨h, hcwd⟩

variable (sh) in
/-- A program that leaves the counter alone. -/
theorem LogFile.Undisturbing.exec {α : Type} {p : Prog α}
    (h : log.Undisturbing generations logInfo s)
    (hp : p.Makes (log.Apart sh s.disk generations)) (x : ℕ → Choice) :
    log.Undisturbing generations logInfo (p.exec (perform sh) x s).state := by
  have hkeeps : ∀ (c : Call) (y : Choice) (t : State) (r : c.Answer) (u : State),
      log.Apart sh s.disk generations c →
      log.Undisturbing generations logInfo t ∧ t.disk.cwd = s.disk.cwd →
      perform sh c y t = some (r, u) →
      log.Undisturbing generations logInfo u ∧ u.disk.cwd = s.disk.cwd := by
    intro c y t r u hc ht hu
    rw [perform_eq_some] at hu
    simpa only [hu.2] using ht.1.act (x := y) ht.2 hc
  exact (hp.keeps hkeeps x s ⟨h, rfl⟩).1.1

end Benign

end ConferenceCall.Log

import ConferenceCall.Log.Conserved
import ConferenceCall.Log.Marks

/-! Days on which every name is free that a pass gives to a file. Then no file is replaced or
unlinked that holds a line, and nothing but the removal of its day takes a line away. -/

namespace ConferenceCall.Log

open Library Program

/-- The counter of the log is whole, and the names are free on which the next rotation works: that
of the new backup, and that of the oldest one where it is dropped. -/
def LogFile.Rotatable (log : LogFile) (d : Disk) : Prop :=
  ∃ logInfo, log.Counter d logInfo ∧ d.node (log.backup d.cwd logInfo.target) = none ∧
    (MAX_LOG_FILE_NUM ≤ logInfo.count → d.node (log.backup d.cwd logInfo.oldestIndex) = none)

/-- A folder of the log directory that is going to be packed has no archive yet. -/
def FreeFolder (folder : Text) (t : ℤ) (n : Name) (d : Disk) : Prop :=
  ageing t n = .archive → d.node (d.path (folder ++ n ++ ".tgz".toList)) = none

/-- A file of the current day that is going to be packed has no archive yet, and one that is going
to be rotated can be; the pass does not write to its counter. -/
def FreeFile (folderPath : Text) (m : Name) (s : State) : Prop :=
  if needsCompress m then s.disk.node (s.disk.path (folderPath ++ '/' :: m ++ ".tgz".toList)) = none
  else ∀ log : LogFile, log.text = folderPath ++ '/' :: m → ∀ c,
    s.disk.lookup log.text = some (.file c) → DBG_LOG_SIZE_MAX < (c.map Item.size).sum →
      log.Rotatable s.disk ∧ ∀ h ∈ s.opened .logFd, h.path ≠ log.info s.disk.cwd

/-- What holds of the entries a pass comes to, of the log directory and of the current day. -/
def Unused (folder : Text) (t : ℤ) : Event Call Call.Answer State → Prop
  | ⟨.readdir path n, d_type, s, _⟩ =>
    (path = folder → d_type = some .DT_DIR → FreeFolder folder t n s.disk) ∧
      (path ≠ folder → d_type = some .DT_REG → FreeFile path n s)
  | _ => True

/-- No line is lost. -/
def Sparing (sh : Text → List (List Text)) (e : Event Call Call.Answer State) : Prop :=
  ∀ line, ¬Loses sh line e

variable {sh : Text → List (List Text)} {folder : Text} {t : ℤ} {s : State} {log : LogFile}

theorem Call.Adds.sparing {e : Event Call Call.Answer State} (h : e.call.Adds) : Sparing sh e :=
  fun _ => h.not_loses

theorem not_stands {line : Text} {d : Disk} {path : Text} (h : d.node (d.path path) = none) :
    ¬Stands line d path := by
  rintro ⟨c, hc, -⟩
  rw [Disk.content_eq_some, h] at hc
  cases hc

/-- A directory stays one when a file is written. -/
theorem isDir_write {f : Fd} {text : Text} {x : Choice} {p : Path} (h : s.disk.IsDir p) :
    (act sh (.write f text) x s).2.disk.IsDir p := by
  simp only [act]
  cases ht : s.target f with
  | none => exact h
  | some g =>
    obtain ⟨g, c⟩ := g
    obtain ⟨g', -, hm⟩ := Option.bind_eq_some_iff.mp ht
    obtain ⟨c', hc, hpair⟩ := Option.map_eq_some_iff.mp hm
    cases hpair
    refine h.imp_right fun hdir => ?_
    have hne : p ≠ g.path := by
      rintro rfl
      rw [Disk.content_eq_some.mp hc] at hdir
      exact hdir
    rwa [Disk.put_node_of_ne hne]

/-- A counter to which nothing is written stays what it is. -/
theorem LogFile.Rotatable.write (h : log.Rotatable s.disk)
    (hinfo : ∀ h ∈ s.opened .logFd, h.path ≠ log.info s.disk.cwd) (text : Text) (x : Choice) :
    log.Rotatable (act sh (.write .logFd text) x s).2.disk := by
  obtain ⟨logInfo, hcounter, hfree, holdest⟩ := h
  have hw := within_act sh s x (c := .write .logFd text) (by simp)
  have hnode : (act sh (.write .logFd text) x s).2.disk.node (log.info s.disk.cwd) =
      s.disk.node (log.info s.disk.cwd) := by
    refine hw.node _ ?_
    rintro ⟨h, hh, hpath⟩
    exact hinfo h hh hpath.symm
  refine ⟨logInfo, ?_, ?_, ?_⟩
  · cases hcounter with
    | missing hnone hdir =>
      refine .missing ?_ ?_
      · rw [hw.cwd]
        exact hnode.trans hnone
      · rw [hw.cwd]
        exact isDir_write hdir
    | stored hstored hcount hindex =>
      refine .stored ?_ hcount hindex
      rw [hw.cwd]
      exact hnode.trans hstored
  · rw [hw.cwd, write_node_none]
    exact hfree
  · intro hcount
    rw [hw.cwd, write_node_none]
    exact holdest hcount

/-- What a run of good choices over entries with free names ends in, without a line lost. -/
abbrev Frees (sh : Text → List (List Text)) (folder : Text) (t : ℤ) {α : Type} (p : Prog α)
    (Q : α → State → Trace → Prop) (s : State) : Prop :=
  Assures (perform sh) Choice.Succeeds (fun e => Orderly e ∧ Unused folder t e) (Sparing sh) p Q s

section Rules

variable {α : Type}

theorem frees_call {c : Call} {next : c.Answer → Prog α} {Q : α → State → Trace → Prop}
    (h : ∀ x : Choice, x.Succeeds → Orderly (event sh c x s) → Unused folder t (event sh c x s) →
      Sparing sh (event sh c x s) ∧ Frees sh folder t (next (act sh c x s).1)
        (fun a u l => Q a u (event sh c x s :: l)) (act sh c x s).2) :
    Frees sh folder t (.call c next) Q s := by
  refine assures_call perform_total fun x r u hx hperform hfair => ?_
  obtain ⟨-, hact⟩ := (perform_eq_some sh).mp hperform
  have hevent : event sh c x s = ⟨c, r, s, u⟩ := by rw [event, hact]
  rw [← hevent] at hfair ⊢
  have hnext := h x hx hfair.1 hfair.2
  rwa [hact] at hnext

/-- A call that takes no file away. -/
theorem frees_step {c : Call} {next : c.Answer → Prog α} {Q : α → State → Trace → Prop}
    (hc : c.Adds) (h : ∀ x : Choice, Frees sh folder t (next (act sh c x s).1)
      (fun a u l => Q a u (event sh c x s :: l)) (act sh c x s).2) :
    Frees sh folder t (.call c next) Q s :=
  frees_call fun x _ _ _ => ⟨Call.Adds.sparing hc, h x⟩

theorem frees_makes {p : Prog α} (hp : p.Makes Call.Adds) :
    Frees sh folder t p (fun _ _ _ => True) s :=
  assures_makes_fair perform_total hp (I := fun _ => True)
    (fun _ _ _ _ _ hc _ _ _ _ => ⟨Call.Adds.sparing hc, trivial⟩) trivial

theorem frees_yields {p : Prog α} {R : α → State → Prop} (hp : p.Makes Call.Adds)
    (h : Yields sh p R s) : Frees sh folder t p (fun a u _ => R a u) s := by
  intro x hx _
  obtain ⟨a, ha, hR⟩ := h x hx
  exact ⟨⟨a, ha, hR⟩, fun e he => (hp.exec (perform sh) x s e he).sparing⟩

end Rules

section Programs

theorem counting_adds {P : Text → Prop} {c : Call} (h : log.Counting P c) : c.Adds := by
  cases c with
  | rename old new => exact h.elim
  | unlink path => exact h.elim
  | system command => exact h.elim
  | _ => trivial

theorem put_none_free {d : Disk} {p q : Path} (h : d.node q = none) :
    (d.put p none).node q = none := by
  by_cases hqp : q = p
  · rw [hqp]
    exact Disk.put_node_self
  · rw [Disk.put_node_of_ne hqp, h]

/-- A rotation whose names are free. -/
theorem frees_BackupLogFile (h : log.Rotatable s.disk) :
    Frees sh folder t (BackupLogFile log.text) (fun _ _ _ => True) s := by
  obtain ⟨logInfo, hcounter, hfree, holdest⟩ := h
  have hstored {i : ℤ} (hi : s.disk.node (log.backup s.disk.cwd i) = none) :
      (log.store logInfo s.disk).node (log.backup s.disk.cwd i) = none := by
    rw [log.store_node_of_ne (backup_ne_info log _ _), hi]
  have hwrite (logInfo : LogInfo) : (WriteLogInfo log.text logInfo).Makes Call.Adds :=
    (makes_WriteLogInfo log logInfo).mono fun _ => counting_adds
  rw [BackupLogFile]
  refine assures_bind ((frees_yields ((makes_ReadLogInfo log).mono fun _ => counting_adds)
    (yields_ReadLogInfo hcounter)).mono ?_)
  rintro read _ l ⟨rfl, rfl⟩
  simp only [rotate, request_bind]
  have hnew (i : ℤ) {u : State} (hu : u.disk.node (log.backup u.disk.cwd i) = none) :
      ∀ line, ¬Stands line u.disk (backupFilePath log.text i) :=
    fun line => not_stands (by rw [backup_text, hu])
  split_ifs with hcount
  · rw [LogInfo.target, if_pos hcount] at hfree
    refine frees_call fun x _ _ _ => ⟨fun line hlost => ?_, frees_makes (hwrite _)⟩
    exact hnew _ (hstored hfree) line hlost.2
  · rw [LogInfo.target, if_neg hcount] at hfree
    refine frees_call fun x _ _ _ => ⟨fun line hlost => ?_, frees_call fun y _ _ _ =>
      ⟨fun line hlost => ?_, frees_makes (hwrite _)⟩⟩
    · exact hnew _ (hstored (holdest (not_lt.mp hcount))) line hlost.2
    · refine hnew _ ?_ line hlost.2
      rcases act_unlink_cases sh x _ (backupFilePath log.text read.oldestIndex) with
        hact | ⟨c, -, hact⟩ <;> rw [hact]
      · exact hstored hfree
      · exact put_none_free (hstored hfree)

/-- A command that packs to a free name. -/
theorem sparing_pack {command : Text} {words : List Text} {target base operand : Text} {x : Choice}
    (hsh : sh command = [words]) (hwords : Command.ofWords words = .tar target base [operand])
    (hfree : s.disk.node (s.disk.path target) = none) :
    Sparing sh (event sh (.system command) x s) := by
  rintro line ⟨w, hw, target', htarget, hstands⟩
  rw [hsh, List.mem_singleton] at hw
  rw [hw, hwords] at htarget
  cases htarget
  exact not_stands hfree hstands

/-- A command that removes. -/
theorem sparing_remove {command operand : Text} {x : Choice}
    (hsh : sh command = [["rm".toList, "-rf".toList, operand]]) :
    Sparing sh (event sh (.system command) x s) := by
  rintro line ⟨w, hw, target, htarget, -⟩
  rw [hsh, List.mem_singleton] at hw
  rw [hw] at htarget
  cases htarget

/-- A name is as free after a file was written as before. -/
theorem free_write {f : Fd} {text path : Text} {x : Choice}
    (h : s.disk.node (s.disk.path path) = none) :
    (act sh (.write f text) x s).2.disk.node ((act sh (.write f text) x s).2.disk.path path) =
      none := by
  have hcwd : (act sh (.write f text) x s).2.disk.cwd = s.disk.cwd := act_cwd _ x s
  rw [write_node_none, Disk.path, hcwd]
  exact h

section Files

variable {folderPath : Text} {m : Name}

theorem frees_compress (hwhole : (Entry.backup folderPath m).Whole sh)
    (hfree : s.disk.node (s.disk.path (folderPath ++ '/' :: m ++ ".tgz".toList)) = none) :
    Frees sh folder t (compress (folderPath ++ '/' :: m)) (fun _ _ _ => True) s := by
  refine frees_step trivial fun x => ?_
  refine frees_call fun y _ _ _ =>
    ⟨sparing_pack hwhole.1 (ofWords_backup folderPath m) (free_write hfree), ?_⟩
  refine frees_step trivial fun _ => ?_
  refine frees_call fun _ _ _ _ => ⟨sparing_remove hwhole.2, ?_⟩
  exact frees_step trivial fun _ => assures_pure trivial

/-- What the pass does with a file of the current day. -/
theorem frees_HandleFile (hwhole : (Entry.backup folderPath m).Whole sh) (hm : Path.Proper m)
    {c : List Item} (hc : s.disk.lookup (folderPath ++ '/' :: m) = some (.file c))
    (hfree : FreeFile folderPath m s) :
    Frees sh folder t (HandleFile folderPath m) (fun _ _ _ => True) s := by
  unfold HandleFile
  split_ifs with hpacks
  · rw [FreeFile, if_pos hpacks] at hfree
    exact frees_compress hwhole hfree
  · rw [FreeFile, if_neg hpacks] at hfree
    simp only [get_file_size, request_bind, call_bind, Program.pure_bind]
    refine frees_step trivial fun x => ?_
    have hsize : (act sh (.stat (folderPath ++ '/' :: m)) x s).1.getD 0 =
        (c.map Item.size).sum := by
      simp only [act, hc]
      rfl
    rw [hsize]
    split_ifs with hlarge
    · have htext := folderLog_text folderPath m hm
      obtain ⟨hrotatable, hinfo⟩ := hfree _ htext c (htext ▸ hc) hlarge
      refine frees_step trivial fun y => ?_
      rw [← htext]
      exact frees_BackupLogFile (hrotatable.write hinfo _ y)
    · exact assures_pure trivial

end Files

variable (hsh : SplitsWords sh) (hclean : Clean folder)
include hsh hclean

/-- The files of the current day. -/
theorem frees_currentFolder {n : Name} (hn : Path.Proper n ∧ Clean n) :
    Frees sh folder t (HandleCurrentApLogFolder (folder ++ n)) (fun _ _ _ => True) s := by
  have hne : folder ++ n ≠ [] := by simp [hn.1.1]
  have hother : folder ++ n ≠ folder := by simp [hn.1.1]
  have hfile (m : Name) (u : State) (_ : True) :
      Frees sh folder t (visitFile (folder ++ n) m) (fun _ _ _ => True) u := by
    rw [visitFile, request_bind]
    refine frees_call fun x _ horderly hunused => ⟨fun _ hlost => hlost, ?_⟩
    split_ifs with hreg
    · obtain ⟨hproper, c, hc⟩ := readdir_reg hne hreg
      have hname : Clean m := horderly (by rw [hreg]; simp)
      have hwhole : (Entry.backup (folder ++ n) m).Whole sh :=
        whole_backup hsh (clean_append.mpr ⟨hclean, hn.2⟩) hname
      exact frees_HandleFile hwhole hproper hc (hunused.2 hother hreg)
    · exact assures_pure trivial
  rw [HandleCurrentApLogFolder, request_bind]
  refine frees_step trivial fun x => ?_
  cases (act sh (.opendir (folder ++ n)) x s).1 with
  | none => exact frees_step trivial fun _ => assures_pure trivial
  | some names =>
    refine assures_bind ((assures_each hfile names trivial).mono fun _ _ _ _ => ?_)
    exact frees_step trivial fun _ => assures_pure trivial

/-- The removal of the oldest entry replaces and unlinks nothing. -/
theorem frees_RemoveTheOldestLog :
    Frees sh folder t (RemoveTheOldestLog folder) (fun _ _ _ => True) s := by
  have hscan (oldest : ℤ × Text) (n : Name) (u : State) (holdest : Named folder oldest.2) :
      Frees sh folder t (do
        let d_type ← Sys.readdir folder n
        return if d_type.isSome then takeOlder folder oldest n else oldest)
        (fun a _ _ => Named folder a.2) u := by
    rw [request_bind]
    refine frees_call fun x _ horderly _ => ⟨fun _ hlost => hlost, assures_pure ?_⟩
    split_ifs with hsome
    · obtain ⟨d_type, htype⟩ := Option.isSome_iff_exists.mp hsome
      have hname : Clean n := horderly (by rw [htype]; simp)
      exact named_takeOlder ⟨(readdir_some htype).1, hname⟩ holdest
    · exact holdest
  simp only [RemoveTheOldestLog, request_bind]
  refine frees_step trivial fun x => ?_
  refine frees_step trivial fun y => ?_
  generalize (act sh (.opendir folder) y _).1 = names
  cases names with
  | none =>
    refine frees_step trivial fun _ => ?_
    exact frees_step trivial fun _ => assures_pure trivial
  | some names =>
    refine assures_bind ((assures_fold_keeps (I := fun a _ => Named folder a.2) hscan names
      (.inl rfl)).mono ?_)
    rintro ⟨time, path⟩ u l hpath
    dsimp only at hpath ⊢
    split_ifs with hremoves
    · obtain ⟨n, hn, hname, rfl⟩ := hpath.resolve_left hremoves.2
      refine frees_step trivial fun _ => ?_
      refine frees_step trivial fun _ => ?_
      refine frees_call fun _ _ _ _ =>
        ⟨sparing_remove (split_removal hsh hclean ⟨hn, hname⟩), ?_⟩
      refine frees_step trivial fun _ => ?_
      exact frees_step trivial fun _ => assures_pure trivial
    · exact frees_step trivial fun _ => assures_pure trivial

variable (hne : folder ≠ [])
include hne

/-- A folder of an older day. -/
theorem frees_archiveFolder {n : Name} (hn : Path.Proper n ∧ Clean n) (timeString : Text)
    (hfree : s.disk.node (s.disk.path (folder ++ n ++ ".tgz".toList)) = none) :
    Frees sh folder t (archiveFolder folder timeString t n) (fun _ _ _ => True) s := by
  have hwhole : (Entry.day folder n).Whole sh := whole_day hsh hclean hne hn.2 hn.1.1
  refine frees_step trivial fun _ => ?_
  refine frees_step trivial fun _ => ?_
  refine frees_step trivial fun _ => ?_
  refine frees_call fun _ _ _ _ => ⟨sparing_pack hwhole.1 (ofWords_day folder n)
    (free_write (free_write (free_write hfree))), ?_⟩
  refine frees_step trivial fun _ => ?_
  refine frees_step trivial fun _ => ?_
  refine frees_call fun _ _ _ _ => ⟨sparing_remove hwhole.2, ?_⟩
  exact frees_step trivial fun _ => assures_pure trivial

/-- A folder of the log directory. -/
theorem frees_HandleDay {n : Name} (hn : Path.Proper n ∧ Clean n) (timeString : Text)
    (hfree : FreeFolder folder t n s.disk) :
    Frees sh folder t (HandleDay folder timeString t n) (fun _ _ _ => True) s := by
  unfold HandleDay
  cases hageing : ageing t n with
  | archive => exact frees_archiveFolder hsh hclean hne hn timeString (hfree hageing)
  | current => exact frees_currentFolder hsh hclean hn
  | leave => exact assures_pure trivial

/-- The folders of the log directory. -/
theorem frees_HandleOldLog {path : Text} (hpath : path ++ APP_LOG_PATH = folder) :
    Frees sh folder t (HandleOldLog path t) (fun _ _ _ => True) s := by
  subst hpath
  have hday (n : Name) (u : State) (_ : True) : Frees sh (path ++ APP_LOG_PATH) t
      (visitDay (path ++ APP_LOG_PATH) (GetDebugLogPayload t) t n) (fun _ _ _ => True) u := by
    rw [visitDay, request_bind]
    refine frees_call fun x _ horderly hunused => ⟨fun _ hlost => hlost, ?_⟩
    split_ifs with hdir
    · have hname : Clean n := horderly (by rw [hdir]; simp)
      exact frees_HandleDay hsh hclean hne ⟨(readdir_some hdir).1, hname⟩ _ (hunused.1 rfl hdir)
    · exact assures_pure trivial
  rw [HandleOldLog, request_bind]
  refine frees_step trivial fun x => ?_
  cases (act sh (.opendir (path ++ APP_LOG_PATH)) x s).1 with
  | none =>
    refine frees_step trivial fun _ => ?_
    exact frees_step trivial fun _ => assures_pure trivial
  | some names =>
    refine assures_bind ((assures_each hday names trivial).mono fun _ _ _ _ => ?_)
    exact frees_step trivial fun _ => assures_pure trivial

/-- What the pass does when its log is open. -/
theorem frees_opened {path : Text} (hpath : path ++ APP_LOG_PATH = folder) :
    Frees sh folder t (do
      HandleOldLog path t
      let size ← GetTotalFolderSizeMb folder
      if MAX_APLOG_RESERVED_SIZE < size then
        RemoveTheOldestLog folder
      Sys.close .logFd
      Sys.quiet
      return (0 : ℤ)) (fun _ _ _ => True) s := by
  refine assures_bind ((frees_HandleOldLog hsh hclean hne hpath).mono fun _ u _ _ => ?_)
  simp only [GetTotalFolderSizeMb, request_bind, call_bind, Program.pure_bind]
  refine frees_step trivial fun x => ?_
  split_ifs
  · refine assures_bind ((frees_RemoveTheOldestLog hsh hclean).mono fun _ _ _ _ => ?_)
    refine frees_step trivial fun _ => ?_
    exact frees_step trivial fun _ => assures_pure trivial
  · refine frees_step trivial fun _ => ?_
    exact frees_step trivial fun _ => assures_pure trivial

/-- A pass that comes only to entries with free names loses no line. -/
theorem sparing_DBGHandleOldLog {path filename : Text} (hpath : path ++ APP_LOG_PATH = folder)
    {x : ℕ → Choice} (hx : ∀ k, (x k).Succeeds)
    (hfair : ∀ e ∈ ((DBGHandleOldLog path filename).exec (perform sh) x s).calls,
      Orderly e ∧ Unused folder (x 0).now e) :
    ∀ e ∈ ((DBGHandleOldLog path filename).exec (perform sh) x s).calls, Sparing sh e := by
  simp only [DBGHandleOldLog, request_bind, hpath] at hfair ⊢
  rw [exec_call_of_succeeds hx] at hfair ⊢
  intro e he
  rcases List.mem_append.mp he with he | he
  · rw [List.mem_singleton.mp he]
    exact fun _ => id
  · refine ((?_ : Frees sh folder (x 0).now _ (fun _ _ _ => True) _) (fun n => x (n + 1))
      (fun n => hx (n + 1)) fun e he => hfair e (List.mem_append_right _ he)).2 e he
    refine frees_step trivial fun _ => ?_
    refine frees_step trivial fun y => ?_
    split_ifs
    · exact frees_step trivial fun _ => assures_pure trivial
    · exact frees_opened hsh hclean hne hpath

end Programs

section Days

variable (sh) (path : Text)

/-- The calls of the day succeed, its names need no quotes, its line goes to the folder of its day,
and a pass comes to entries with free names. -/
def Careful (i : DayCall × (ℕ → Choice)) (s : State) : Prop :=
  Favoured sh path i s ∧ ∀ filename, i.1 = .pass filename →
    ∀ e ∈ (daily sh path i s).2, Unused (path ++ APP_LOG_PATH) (i.2 0).now e

/-- Every line that was reported as written is there, or the entry of its day was removed since. -/
def LinesKept (l : List (DayCall × (ℕ → Choice))) (s : State) : Prop :=
  ∀ l₁ dbgStr filename x l₂, l = l₁ ++ (.publish (some dbgStr) filename, x) :: l₂ →
    ((DBGLogAndPublish (some dbgStr) path filename).exec (perform sh) x
      ((daily sh path).run l₁ s).1).value = some 0 →
    Present (s.disk.path (path ++ APP_LOG_PATH)) (payloadLog ((x 1).now, (x 1).usec) ++ dbgStr)
        ((daily sh path).run l s).1.disk ∨
      Dropped (path ++ APP_LOG_PATH) (dayName (x 1).now) ((daily sh path).run l₂
        ((daily sh path).run (l₁ ++ [(.publish (some dbgStr) filename, x)]) s).1).2

variable {sh path}

theorem adds_DBGLogAndPublish (dbgStr : Option Text) (filename : Text) :
    (DBGLogAndPublish dbgStr path filename).Makes Call.Adds := by
  cases dbgStr with
  | none => trivial
  | some dbgStr =>
    exact ⟨trivial, fun tv => ⟨trivial, fun _ => ⟨trivial, fun _ => makes_publishTo
      (makes_mkdirs (fun _ => trivial) (fun _ => trivial) _) trivial trivial trivial trivial⟩⟩⟩

/-- A careful call loses no line. -/
theorem Careful.sparing (hsh : SplitsWords sh) (hclean : Clean path)
    {i : DayCall × (ℕ → Choice)} (hi : Careful sh path i s) :
    ∀ e ∈ (daily sh path i s).2, Sparing sh e := by
  obtain ⟨call, x⟩ := i
  obtain ⟨⟨hx, horderly, -⟩, hunused⟩ := hi
  cases call with
  | publish dbgStr filename =>
    exact fun e he => ((adds_DBGLogAndPublish dbgStr filename).exec (perform sh) x s e he).sparing
  | pass filename =>
    exact sparing_DBGHandleOldLog hsh (clean_append.mpr ⟨hclean, by decide⟩)
      (by simp [APP_LOG_PATH]) rfl hx fun e he => ⟨horderly e he, hunused filename rfl e he⟩

/-- As long as the passes come to entries with free names, whatever the clock does, no line is lost
but by the removal of its day. -/
theorem days_conserved (hsh : SplitsWords sh) (hclean : Clean path)
    {l : List (DayCall × (ℕ → Choice))} {d : Disk}
    (hl : (daily sh path).Along (Careful sh path) l { disk := d }) :
    LinesKept sh path l { disk := d } := by
  rintro l₁ dbgStr filename x l₂ rfl hvalue
  rcases traced_run hsh hclean (fun l₁ i l₂ h => (hl l₁ i l₂ h).1) hvalue with
    (hheld | hdropped) | ⟨e, he, hlost⟩
  · exact .inl hheld.present
  · exact .inr hdropped
  · have hlater := (Step.along_cons.mp (Step.along_append.mp hl).2).2
    have hstep (i : DayCall × (ℕ → Choice)) (s : State) (o : Trace) (ho : ∀ e ∈ o, Sparing sh e)
        (hi : Careful sh path i s) : ∀ e ∈ o ++ (daily sh path i s).2, Sparing sh e :=
      List.forall_mem_append.mpr ⟨ho, hi.sparing hsh hclean⟩
    have hsparing := Step.run_records (R := fun _ o => ∀ e ∈ o, Sparing sh e) hstep l₂ _ []
      (by simp) hlater
    rw [Step.run_append] at he
    exact absurd hlost (hsparing e he _)

/-- The files a character can be in after a run. -/
theorem marked_daily {ch : Char} {M : List Path} {l : List (DayCall × (ℕ → Choice))}
    (h : Marked ch M s.disk) (hl : (daily sh path).Along (Favoured sh path) l s) :
    Marked ch (((daily sh path).run l s).2.foldl (marks sh ch) M)
      ((daily sh path).run l s).1.disk := by
  have hstep (i : DayCall × (ℕ → Choice)) (s : State) (o : Trace)
      (ho : Marked ch (o.foldl (marks sh ch) M) s.disk) (hi : Favoured sh path i s) :
      Marked ch ((o ++ (daily sh path i s).2).foldl (marks sh ch) M)
        (daily sh path i s).1.disk := by
    rw [List.foldl_append]
    exact ho.exec _ hi.1 hi.2.1
  have hstart : Marked ch (([] : Trace).foldl (marks sh ch) M) s.disk := h
  exact Step.run_records (R := fun s o => Marked ch (o.foldl (marks sh ch) M) s.disk) hstep l s []
    hstart hl

end Days

/-- The clock steps back, and the day is packed onto its archive: a line is lost although no call
fails, no file is rotated and nothing is removed as the oldest. -/
theorem earlier_line_lost : ¬ ∀ (l : List (DayCall × (ℕ → Choice))) (d : Disk),
    (daily splitWords "/tmp".toList).Along (Favoured splitWords "/tmp".toList) l { disk := d } →
    (∀ e ∈ ((daily splitWords "/tmp".toList).run l { disk := d }).2, e.call.isRename = false) →
    LinesKept splitWords "/tmp".toList l { disk := d } := by
  intro h
  have hrotations : ∀ e ∈ ((daily splitWords "/tmp".toList).run steppedBack
      { disk := bootDisk }).2, e.call.isRename = false := by
    decide +kernel
  have hkept := h steppedBack bootDisk steppedBack_favoured hrotations
  rcases hkept [] ['!'] "a.txt".toList (dayChoice 1709164800)
    [passSecond, publishFirst '?', passSecond] rfl (by decide +kernel) with
      ⟨p, c, -, hc, hline⟩ | ⟨e, he, n, hn, hcall⟩
  · have hnone : Marked '!' [] bootDisk := by
      intro p c hc
      rw [Disk.content_eq_some] at hc
      simp only [bootDisk] at hc
      split_ifs at hc
      cases hc
    have hmarks : ((daily splitWords "/tmp".toList).run steppedBack
        { disk := bootDisk }).2.foldl (marks splitWords '!') [] = [] := by
      decide +kernel
    have hmarked := marked_daily (s := { disk := bootDisk }) hnone steppedBack_favoured
    rw [hmarks] at hmarked
    exact absurd (hmarked p c hc (hline.char (by simp))) List.not_mem_nil
  · have hdropped : ∀ e ∈ ((daily splitWords "/tmp".toList).run
        [passSecond, publishFirst '?', passSecond] ((daily splitWords "/tmp".toList).run
          [publishFirst '!'] { disk := bootDisk }).1).2,
        ∀ n ∈ ["2024-02-29".toList, "2024-02-29.tgz".toList],
          e.call ≠ .system ("rm -rf ".toList ++ ("/tmp/APLog/".toList ++ n)) := by
      decide +kernel
    have hday : dayName (dayChoice 1709164800 1).now = "2024-02-29".toList := by decide +kernel
    rw [hday] at hn
    refine hdropped e he n ?_ hcall
    rcases hn with rfl | rfl
    · exact List.mem_cons_self
    · exact List.mem_cons_of_mem _ List.mem_cons_self

/-- A file that is small, or whose first rotation finds its names free. -/
def Unrotated (text : Text) (s : State) : Prop :=
  (match s.disk.lookup text with
    | some (.file c) => (c.map Item.size).sum
    | _ => 0) ≤ DBG_LOG_SIZE_MAX ∨
  s.disk.Creatable (logInfoPath text) ∧
    (s.disk.node (s.disk.path (backupFilePath text 0))).isNone = true ∧
    ∀ h ∈ s.opened .logFd, h.path ≠ s.disk.path (logInfoPath text)

instance (text : Text) (s : State) : Decidable (Unrotated text s) :=
  inferInstanceAs (Decidable (_ ∨ _))

/-- The entry has a free name, and was not rotated yet if it is a log. -/
def comesFree (folder : Text) (t : ℤ) : Event Call Call.Answer State → Bool
  | ⟨.readdir path n, d_type, s, _⟩ =>
    let newPath := if path = folder then folder ++ n else path ++ '/' :: n
    let free := (s.disk.node (s.disk.path (newPath ++ ".tgz".toList))).isNone
    if path = folder then d_type != some .DT_DIR || ageing t n != .archive || free
    else d_type != some .DT_REG || if needsCompress n then free else Unrotated newPath s
  | _ => true

theorem Unrotated.rotatable (h : Unrotated log.text s) {c : List Item}
    (hc : s.disk.lookup log.text = some (.file c))
    (hlarge : DBG_LOG_SIZE_MAX < (c.map Item.size).sum) :
    log.Rotatable s.disk ∧ ∀ h ∈ s.opened .logFd, h.path ≠ log.info s.disk.cwd := by
  rw [Unrotated, hc] at h
  obtain ⟨⟨hinfo, -, -, hdir⟩, hbackup, hopened⟩ := h.resolve_left (not_le.mpr hlarge)
  rw [info_text] at hinfo hdir hopened
  rw [backup_text, Option.isNone_iff_eq_none] at hbackup
  have hfolder : (log.info s.disk.cwd).dropLast = Path.resolve s.disk.cwd log.dir := by
    rw [LogFile.info, LogFile.path, List.dropLast_concat]
  rw [hfolder] at hdir
  exact ⟨⟨⟨0, 0⟩, .missing hinfo hdir, hbackup, fun hcount => absurd hcount (by decide)⟩, hopened⟩

theorem unused_of_comesFree {e : Event Call Call.Answer State} (h : comesFree folder t e = true) :
    Unused folder t e := by
  obtain ⟨call, d_type, s, u⟩ := e
  cases call with
  | readdir path n =>
    refine ⟨?_, fun hother hreg => ?_⟩
    · rintro rfl hdir hageing
      simpa [comesFree, hdir, hageing] using h
    · rw [FreeFile]
      split_ifs with hpacks
      · simpa [comesFree, hother, hreg, hpacks] using h
      · have hunrotated : Unrotated (path ++ '/' :: n) s := by
          simpa [comesFree, hother, hreg, hpacks] using h
        intro log htext c hc hlarge
        exact (htext ▸ hunrotated).rotatable hc hlarge
  | _ => trivial

/-- The log of the second day is large already. -/
def grownDisk : Disk where
  cwd := []
  node p :=
    if p = ["tmp".toList, "APLog".toList, "2024-03-01".toList, "a.txt".toList] then
      some (.file [.archive (DBG_LOG_SIZE_MAX + 1) fun _ => none])
    else bootDisk.node p

/-- The clock and what the directories may hold. -/
def anyChoice (now : ℤ) (_ : ℕ) : Choice where
  now := now
  names := ["a.txt".toList, "a.txt-0".toList, "2024-02-29".toList, "2024-03-01".toList,
    "2024-03-02".toList]

/-- The clock steps back between the passes: a log is rotated and its backup packed on the second
day, and on the third one that day and the day before are packed. -/
def outOfOrder : List (DayCall × (ℕ → Choice)) :=
  [(.publish (some ['!']) "a.txt".toList, anyChoice 1709251200),
   (.pass "b.txt".toList, anyChoice 1709251200),
   (.publish (some ['?']) "a.txt".toList, anyChoice 1709164800),
   (.publish (some ['#']) "a.txt".toList, anyChoice 1709337600),
   (.pass "b.txt".toList, anyChoice 1709337600)]

/-- A step of the run. -/
theorem careful_anyChoice {call : DayCall} {t : ℤ}
    (horderly : ∀ e ∈ (daily splitWords "/tmp".toList (call, anyChoice t) s).2, Orderly e)
    (hfree : ∀ e ∈ (daily splitWords "/tmp".toList (call, anyChoice t) s).2,
      comesFree ("/tmp".toList ++ APP_LOG_PATH) t e = true)
    (hlands : ∀ d, call.Lands "/tmp".toList t d) :
    Careful splitWords "/tmp".toList (call, anyChoice t) s :=
  ⟨⟨fun _ => ⟨rfl, fun _ => rfl⟩, horderly, hlands _⟩,
    fun _ _ e he => unused_of_comesFree (hfree e he)⟩

/-- What is published lands in its day. -/
theorem lands_days {ch : Char} {t : ℤ} (ht : t ∈ [1709164800, 1709251200, 1709337600]) (d : Disk) :
    (DayCall.publish (some [ch]) "a.txt".toList).Lands "/tmp".toList t d := by
  have hfiled (day : Name) : Filed ["tmp".toList, "APLog".toList] day
      ["tmp".toList, "APLog".toList, day, "a.txt".toList] :=
    ⟨[], "a.txt".toList, rfl, not_isCounter (by decide)⟩
  simp only [List.mem_cons, List.not_mem_nil, or_false] at ht
  rcases ht with rfl | rfl | rfl
  · exact hfiled "2024-02-29".toList
  · exact hfiled "2024-03-01".toList
  · exact hfiled "2024-03-02".toList

theorem days_conserved_outOfOrder :
    LinesKept splitWords "/tmp".toList outOfOrder { disk := grownDisk } := by
  refine days_conserved splits_splitWords (by decide) ?_
  simp only [outOfOrder, Step.along_cons]
  refine ⟨careful_anyChoice ?_ ?_ (lands_days (by decide)),
    careful_anyChoice ?_ ?_ fun _ => trivial,
    careful_anyChoice ?_ ?_ (lands_days (by decide)),
    careful_anyChoice ?_ ?_ (lands_days (by decide)),
    careful_anyChoice ?_ ?_ fun _ => trivial, Step.along_nil _ _⟩ <;> decide +kernel

end ConferenceCall.Log

import ConferenceCall.Log.Held

/-! The lines of a day and the pass over the log directory. They stand in the files of its folder
or in its archive; a pass packs before it removes, and only the removal of the oldest entry takes
them away. -/

namespace ConferenceCall.Log

open Library Program

/-- The name of a counter. -/
def IsCounter (n : Name) : Prop := ∃ t, n = t ++ LOG_INFO_EXTENSION_NAME

/-- A file below the folder of a day that is no counter. -/
def Filed (D : Path) (day : Name) (p : Path) : Prop :=
  ∃ r n, p = D ++ day :: (r ++ [n]) ∧ ¬IsCounter n

/-- Where the lines of a day are: in a file of its folder or in its archive. -/
def Keeper (D : Path) (day : Name) (p : Path) : Prop :=
  p = D ++ [day ++ ".tgz".toList] ∨ Filed D day p

/-- The oldest entry was removed, and it was one of the day. The command has no newline at its end,
other than the one that removes a packed folder. -/
def Dropped (folder : Text) (day : Name) (l : Trace) : Prop :=
  ∃ e ∈ l, ∃ n, (n = day ∨ n = day ++ ".tgz".toList) ∧
    e.call = .system ("rm -rf ".toList ++ (folder ++ n))

section Names

variable {D p : Path} {day n m : Name}

theorem isCounter_logInfoPath (m : Name) : IsCounter (logInfoPath m) := by
  obtain ⟨t, ht, -⟩ := logInfoPath_suffix m
  exact ⟨t, ht⟩

theorem not_isCounter (h : n.getLast? ≠ some 'o') : ¬IsCounter n := by
  rintro ⟨t, rfl⟩
  exact h (by rw [List.getLast?_append]; rfl)

theorem not_isCounter_tgz (m : Name) : ¬IsCounter (m ++ ".tgz".toList) :=
  not_isCounter (by simp)

theorem not_isCounter_backup (m : Name) (i : ℤ) : ¬IsCounter (backupFilePath m i) := by
  obtain ⟨v, c, hv, hc⟩ := Decimal.print_concat 0 i
  refine not_isCounter ?_
  rw [backupFilePath, hv, ← List.cons_append, ← List.append_assoc, List.getLast?_concat]
  rintro ⟨⟩
  exact absurd hc (by decide)

theorem isArchive_entry : IsArchive (D ++ [n, m]) ↔ ∃ k, m = k ++ ".tgz".toList := by
  constructor
  · rintro ⟨q, k, h⟩
    have hlast : (D ++ [n]) ++ [m] = q ++ [k ++ ".tgz".toList] := by
      rw [← h, List.append_assoc]
      rfl
    exact ⟨k, List.singleton_injective (List.append_inj' hlast rfl).2⟩
  · rintro ⟨k, rfl⟩
    exact ⟨D ++ [n], k, by simp⟩

theorem keeper_file : Keeper D day (D ++ [n, m]) ↔ n = day ∧ ¬IsCounter m := by
  constructor
  · rintro (h | ⟨r, k, h, hk⟩)
    · simp at h
    · obtain ⟨rfl, hr⟩ := List.cons.inj (List.append_cancel_left h)
      have hlast : ([] : Path) ++ [m] = r ++ [k] := hr
      obtain ⟨-, hm⟩ := List.append_inj' hlast rfl
      rw [List.singleton_injective hm]
      exact ⟨rfl, hk⟩
  · rintro ⟨rfl, hm⟩
    exact .inr ⟨[], m, rfl, hm⟩

/-- What is below an entry and is kept for a day. -/
theorem Keeper.of_start (h : Keeper D day p) (hp : D ++ [n] <+: p) : n = day ∨ p = D ++ [n] := by
  obtain ⟨r, rfl⟩ := hp
  rcases h with h | ⟨r', k, h, -⟩
  · rw [List.append_assoc, List.singleton_append] at h
    obtain ⟨rfl, rfl⟩ := List.cons.inj (List.append_cancel_left h)
    exact .inr (List.append_nil _)
  · rw [List.append_assoc, List.singleton_append] at h
    exact .inl (List.cons.inj (List.append_cancel_left h)).1

end Names

/-- What a run of good choices and calls that conserve the line ends in. -/
abbrev Conserves (sh : Text → List (List Text)) (line : Text) {α : Type} (p : Prog α)
    (Q : α → State → Trace → Prop) (s : State) : Prop :=
  Assures (perform sh) Choice.Succeeds (Conserving sh line) (fun _ => True) p Q s

section Rules

variable {α : Type} {sh : Text → List (List Text)} {cwd : Path} {P : Path → Prop} {line : Text}
  {s : State}

theorem conserves_call {c : Call} {next : c.Answer → Prog α} {Q : α → State → Trace → Prop}
    (h : ∀ x : Choice, x.Succeeds → Conserving sh line (event sh c x s) →
      Conserves sh line (next (act sh c x s).1) (fun a u l => Q a u (event sh c x s :: l))
        (act sh c x s).2) : Conserves sh line (.call c next) Q s := by
  refine assures_call perform_total fun x r t hx hperform hfair => ⟨trivial, ?_⟩
  obtain ⟨-, hact⟩ := (perform_eq_some sh).mp hperform
  have hevent : event sh c x s = ⟨c, r, s, t⟩ := by rw [event, hact]
  rw [← hevent] at hfair ⊢
  have hnext := h x hx hfair
  rwa [hact] at hnext

theorem conserves_step {c : Call} {next : c.Answer → Prog α} {Q : α → State → Trace → Prop}
    (hc : c.Gentle cwd P) (hs : Held cwd P line s) (h : ∀ x t, Held cwd P line t →
      Conserves sh line (next (act sh c x s).1) (fun a u l => Q a u (event sh c x s :: l)) t) :
    Conserves sh line (.call c next) Q s :=
  conserves_call fun x _ hfair => h x _ (hs.of_act sh x hc hfair)

end Rules

section Programs

variable {α : Type} {sh : Text → List (List Text)} {cwd : Path} {P : Path → Prop} {line : Text}
  {s : State} {folder : Text} {day n m : Name}

theorem conserves_makes {p : Prog α} (hp : p.Makes (Call.Gentle cwd P)) (hs : Held cwd P line s) :
    Conserves sh line p (fun _ t _ => Held cwd P line t) s := by
  refine assures_makes_fair perform_total hp (fun c x s r t hc hx hfair hs hperform => ?_) hs
  obtain ⟨-, hact⟩ := (perform_eq_some sh).mp hperform
  have hevent : event sh c x s = ⟨c, r, s, t⟩ := by rw [event, hact]
  rw [← hevent] at hfair
  have ht := hs.of_act sh x hc hfair
  rw [hact] at ht
  exact ⟨trivial, ht⟩

theorem conserves_any (p : Prog α) : Conserves sh line p (fun _ _ _ => True) s := by
  induction p generalizing s with
  | done a => exact assures_pure trivial
  | call c next ih => exact conserves_call fun x _ _ => ih _

section Files

theorem path_backup (hfolder : Path.Folder folder) (hn : Path.Proper n) (hm : Path.Proper m)
    (i : ℤ) :
    Path.resolve cwd (backupFilePath (folder ++ n ++ '/' :: m) i) =
      Path.resolve cwd folder ++ [n, backupFilePath m i] := by
  have htext : backupFilePath (folder ++ n ++ '/' :: m) i =
      folder ++ n ++ '/' :: backupFilePath m i := List.append_assoc ..
  rw [htext, path_file hfolder hn (proper_backupFilePath hm i)]

theorem path_info (hfolder : Path.Folder folder) (hn : Path.Proper n) (hm : Path.Proper m) :
    Path.resolve cwd (logInfoPath (folder ++ n ++ '/' :: m)) =
      Path.resolve cwd folder ++ [n, logInfoPath m] := by
  have htext : folder ++ n ++ '/' :: m = folder ++ n ++ ['/'] ++ m := by simp
  have hinfo : logInfoPath (folder ++ n ++ ['/'] ++ m) = folder ++ n ++ '/' :: logInfoPath m := by
    rw [logInfoPath_append (.inr ⟨_, rfl⟩) hm.2.2.2]
    exact List.append_assoc ..
  rw [htext, hinfo, path_file hfolder hn (proper_logInfoPath hm)]

variable (hfolder : Path.Folder folder) (hn : Path.Proper n) (hm : Path.Proper m)
include hfolder hn hm

/-- A rotation keeps the lines in the folder, under another name. -/
theorem gentle_BackupLogFile : (BackupLogFile (folder ++ n ++ '/' :: m)).Makes
    (Call.Gentle cwd (Keeper (Path.resolve cwd folder) day)) := by
  rw [← folderLog_text (folder ++ n) m hm]
  refine makes_rotation _ (fun Q c hc => ?_) (fun i => ?_) fun i => trivial
  · cases c with
    | openFile f path creates appends =>
      obtain ⟨rfl, rfl⟩ := hc
      rw [Call.Gentle, folderLog_text, path_info hfolder hn hm, keeper_file, isArchive_entry]
      refine ⟨fun h => h.2 (isCounter_logInfoPath m), ?_⟩
      rintro ⟨k, hk⟩
      exact logInfoPath_ne_tgz m k hk
    | rename old new => exact hc.elim
    | system command => exact hc.elim
    | _ => trivial
  · rw [Call.Gentle, folderLog_text, path_file hfolder hn hm, path_backup hfolder hn hm,
      keeper_file, keeper_file, isArchive_entry]
    refine ⟨fun h => ?_, fun h => ⟨h.1, not_isCounter_backup m i⟩, ?_⟩
    · have hlast := List.append_cancel_left h
      simp only [List.cons.injEq, and_true, true_and] at hlast
      exact backupFilePath_ne m i hlast.symm
    · rintro ⟨k, hk⟩
      exact backupFilePath_ne_tgz m i k hk

variable (hsh : SplitsWords sh) (hclean : Clean folder) (hnames : Clean n ∧ Clean m)
include hsh hclean hnames

/-- A backup is packed and removed. -/
theorem conserves_compress (hs : Held cwd (Keeper (Path.resolve cwd folder) day) line s) :
    Conserves sh line (compress (folder ++ n ++ '/' :: m))
      (fun _ t _ => Held cwd (Keeper (Path.resolve cwd folder) day) line t) s := by
  have hwhole : (Entry.backup (folder ++ n) m).Whole sh :=
    whole_backup hsh (clean_append.mpr ⟨hclean, hnames.1⟩) hnames.2
  have hpath : Path.resolve cwd (folder ++ n ++ '/' :: m) = Path.resolve cwd folder ++ [n, m] :=
    path_file hfolder hn hm
  have htarget : Path.resolve cwd (folder ++ n ++ '/' :: m ++ ".tgz".toList) =
      Path.resolve cwd folder ++ [n, m ++ ".tgz".toList] := by
    rw [← path_file hfolder hn (proper_tgz hm), List.append_assoc, List.append_assoc,
      List.append_assoc, List.cons_append]
  have hapart : ¬Path.resolve cwd folder ++ [n, m] <+:
      Path.resolve cwd folder ++ [n, m ++ ".tgz".toList] := by
    simp [List.prefix_append_right_inj]
  refine conserves_step trivial hs fun _ t ht => ?_
  refine conserves_call fun x hx hfair => ?_
  have hpacked := ht.pack (Q := fun p => Keeper (Path.resolve cwd folder) day p ∧
      ¬Path.resolve cwd folder ++ [n, m] <+: p) hwhole.1 (ofWords_backup (folder ++ n) m)
    (by rw [Path.resolve_nil, hpath]) hx hfair (htarget ▸ isArchive_entry.mpr ⟨m, rfl⟩)
    (fun p hp hprefix => ?_) fun p hp hprefix => ⟨hp, hprefix⟩
  · refine conserves_step trivial hpacked fun _ u hu => ?_
    refine conserves_call fun y hy _ => ?_
    have hrm : sh (rmCommand (folder ++ n ++ '/' :: m)) =
        [["rm".toList, "-rf".toList, folder ++ n ++ ['/'] ++ m]] := by
      rw [List.append_assoc (folder ++ n)]
      exact hwhole.2
    have hentry : Path.resolve cwd (folder ++ n ++ ['/']) ++ [m] =
        Path.resolve cwd folder ++ [n, m] := by
      rw [← Path.resolve_proper cwd (.inr ⟨_, rfl⟩) hm, List.append_assoc (folder ++ n)]
      exact hpath
    have hslash : Path.Folder (folder ++ n ++ ['/']) := .inr ⟨_, rfl⟩
    have hremoved := (hentry ▸ hu).remove hslash hm hrm hy
    exact conserves_step trivial hremoved fun _ v hv => assures_pure hv
  · have hday : n = day := by
      have hfirst : Path.resolve cwd folder ++ [n] <+: p := by
        refine .trans ⟨[m], ?_⟩ hprefix
        rw [List.append_assoc]
        rfl
      refine (hp.of_start hfirst).resolve_right ?_
      rintro rfl
      have hle := hprefix.length_le
      simp at hle
    rw [htarget]
    exact ⟨keeper_file.mpr ⟨hday, not_isCounter_tgz m⟩, hapart⟩

/-- What the pass does with a file of the current day. -/
theorem conserves_HandleFile (hs : Held cwd (Keeper (Path.resolve cwd folder) day) line s) :
    Conserves sh line (HandleFile (folder ++ n) m)
      (fun _ t _ => Held cwd (Keeper (Path.resolve cwd folder) day) line t) s := by
  unfold HandleFile
  split_ifs
  · exact conserves_compress hfolder hn hm hsh hclean hnames hs
  · refine conserves_makes ?_ hs
    simp only [get_file_size, request_bind, call_bind, Program.pure_bind]
    refine ⟨trivial, fun size => ?_⟩
    beta_reduce
    split_ifs
    · exact ⟨trivial, fun _ => gentle_BackupLogFile hfolder hn hm⟩
    · trivial

end Files

section Days

/-- What is listed as a directory is one. -/
theorem readdir_dir {path : Text} {x : Choice}
    (h : (act sh (.readdir path n) x s).1 = some .DT_DIR) :
    s.disk.node (s.disk.path path ++ [n]) = some .dir := by
  simp only [act] at h
  split_ifs at h with hn
  obtain ⟨node, hnode, hdir⟩ := Option.map_eq_some_iff.mp h
  cases node with
  | dir => exact hnode
  | file c => cases hdir

variable (hfolder : Path.Folder folder) (hsh : SplitsWords sh) (hclean : Clean folder)
include hfolder hsh hclean

/-- The archive of the folder of a day takes its place. -/
theorem conserves_archiveFolder (hne : folder ≠ []) (hn : Path.Proper n ∧ Clean n)
    (timeString : Text) (t : ℤ) (hs : Held cwd (Keeper (Path.resolve cwd folder) day) line s)
    (hdir : s.disk.node (Path.resolve cwd folder ++ [n]) = some .dir) :
    Conserves sh line (archiveFolder folder timeString t n)
      (fun _ u _ => Held cwd (Keeper (Path.resolve cwd folder) day) line u) s := by
  have hwhole : (Entry.day folder n).Whole sh := whole_day hsh hclean hne hn.2 hn.1.1
  have hpath : Path.resolve (Path.resolve cwd folder) n = Path.resolve cwd folder ++ [n] := by
    have hname := Path.resolve_proper (Path.resolve cwd folder) (.inl rfl) hn.1
    rwa [List.nil_append, Path.resolve_nil] at hname
  have htarget : Path.resolve cwd (folder ++ n ++ ".tgz".toList) =
      Path.resolve cwd folder ++ [n ++ ".tgz".toList] := by
    rw [List.append_assoc, Path.resolve_proper cwd hfolder (proper_tgz hn.1)]
  have hapart : ¬Path.resolve cwd folder ++ [n] <+:
      Path.resolve cwd folder ++ [n ++ ".tgz".toList] := by
    simp [List.prefix_append_right_inj]
  refine conserves_step trivial (hs.narrow hdir) fun _ u hu => ?_
  refine conserves_step trivial hu fun _ v hv => ?_
  refine conserves_step trivial hv fun _ w hw => ?_
  refine conserves_call fun x hx hfair => ?_
  have hpacked := hw.pack (Q := fun p => Keeper (Path.resolve cwd folder) day p ∧
      ¬Path.resolve cwd folder ++ [n] <+: p) hwhole.1 (ofWords_day folder n) hpath hx hfair
    (htarget ▸ ⟨_, n, rfl⟩) (fun p hp hprefix => ?_)
    fun p hp hprefix => ⟨hp.1, hprefix⟩
  · refine conserves_step trivial hpacked fun _ a ha => ?_
    refine conserves_step trivial ha fun _ b hb => ?_
    refine conserves_call fun y hy _ => ?_
    have hremoved := hb.remove hfolder hn.1 hwhole.2 hy
    exact conserves_step trivial hremoved fun _ e he => assures_pure he
  · obtain rfl : n = day := (hp.1.of_start hprefix).resolve_right hp.2
    rw [htarget]
    exact ⟨.inl rfl, hapart⟩

/-- The files of the current day. -/
theorem conserves_currentFolder (hn : Path.Proper n ∧ Clean n)
    (hs : Held cwd (Keeper (Path.resolve cwd folder) day) line s) :
    Conserves sh line (HandleCurrentApLogFolder (folder ++ n))
      (fun _ u _ => Held cwd (Keeper (Path.resolve cwd folder) day) line u) s := by
  rw [HandleCurrentApLogFolder, request_bind]
  refine conserves_step trivial hs fun x t ht => ?_
  have hfile (m : Name) (u : State) (hu : Held cwd (Keeper (Path.resolve cwd folder) day) line u) :
      Conserves sh line (do
        let d_type ← Sys.readdir (folder ++ n) m
        if d_type = some .DT_REG then HandleFile (folder ++ n) m)
      (fun _ v _ => Held cwd (Keeper (Path.resolve cwd folder) day) line v) u := by
    rw [request_bind]
    refine conserves_call fun x hx hfair => ?_
    split_ifs with hreg
    · have hname : Clean m := hfair.1 (by rw [hreg]; simp)
      exact conserves_HandleFile hfolder hn.1 (readdir_some hreg).1 hsh hclean ⟨hn.2, hname⟩ hu
    · exact assures_pure hu
  cases (act sh (.opendir (folder ++ n)) x s).1 with
  | none => exact conserves_step trivial ht fun _ u hu => assures_pure hu
  | some names =>
    refine assures_bind ((assures_each hfile names ht).mono fun _ u _ hu => ?_)
    exact conserves_step trivial hu fun _ v hv => assures_pure hv

/-- A folder of the log directory. -/
theorem conserves_HandleDay (hne : folder ≠ []) (hn : Path.Proper n ∧ Clean n) (timeString : Text)
    (t : ℤ) (hs : Held cwd (Keeper (Path.resolve cwd folder) day) line s)
    (hdir : s.disk.node (Path.resolve cwd folder ++ [n]) = some .dir) :
    Conserves sh line (HandleDay folder timeString t n)
      (fun _ u _ => Held cwd (Keeper (Path.resolve cwd folder) day) line u) s := by
  unfold HandleDay
  cases ageing t n with
  | archive => exact conserves_archiveFolder hfolder hsh hclean hne hn timeString t hs hdir
  | current => exact conserves_currentFolder hfolder hsh hclean hn hs
  | leave => exact assures_pure hs

/-- The folders of the log directory. -/
theorem conserves_HandleOldLog {path : Text} (hpath : path ++ APP_LOG_PATH = folder)
    (hne : folder ≠ []) (t : ℤ) (hs : Held cwd (Keeper (Path.resolve cwd folder) day) line s) :
    Conserves sh line (HandleOldLog path t)
      (fun _ u _ => Held cwd (Keeper (Path.resolve cwd folder) day) line u) s := by
  subst hpath
  rw [HandleOldLog, request_bind]
  refine conserves_step trivial hs fun x u hu => ?_
  have hday (n : Name) (v : State)
      (hv : Held cwd (Keeper (Path.resolve cwd (path ++ APP_LOG_PATH)) day) line v) :
      Conserves sh line (do
        let d_type ← Sys.readdir (path ++ APP_LOG_PATH) n
        if d_type = some .DT_DIR then
          HandleDay (path ++ APP_LOG_PATH) (GetDebugLogPayload t) t n)
      (fun _ w _ => Held cwd (Keeper (Path.resolve cwd (path ++ APP_LOG_PATH)) day) line w) v := by
    rw [request_bind]
    refine conserves_call fun x hx hfair => ?_
    split_ifs with hdir
    · have hname : Clean n := hfair.1 (by rw [hdir]; simp)
      have hnode := readdir_dir hdir
      rw [Disk.path, hv.cwd] at hnode
      exact conserves_HandleDay hfolder hsh hclean hne ⟨(readdir_some hdir).1, hname⟩ _ t hv hnode
    · exact assures_pure hv
  cases (act sh (.opendir (path ++ APP_LOG_PATH)) x s).1 with
  | none =>
    refine conserves_step trivial hu fun _ v hv => ?_
    exact conserves_step trivial hv fun _ w hw => assures_pure hw
  | some names =>
    refine assures_bind ((assures_each hday names hu).mono fun _ v _ hv => ?_)
    exact conserves_step trivial hv fun _ w hw => assures_pure hw

end Days

end Programs

section Passes

variable {sh : Text → List (List Text)} {cwd : Path} {line : Text} {s : State}
  {path folder filename : Text} {day : Name}

/-- The line is kept, or the entry of its day was removed. -/
def Lasts (cwd : Path) (folder : Text) (day : Name) (line : Text) (t : State) (l : Trace) : Prop :=
  Held cwd (Keeper (Path.resolve cwd folder) day) line t ∨ Dropped folder day l

theorem Dropped.append_left {l : Trace} (h : Dropped folder day l) (l' : Trace) :
    Dropped folder day (l' ++ l) := by
  obtain ⟨e, he, hn⟩ := h
  exact ⟨e, List.mem_append_right l' he, hn⟩

theorem Dropped.append_right {l : Trace} (h : Dropped folder day l) (l' : Trace) :
    Dropped folder day (l ++ l') := by
  obtain ⟨e, he, hn⟩ := h
  exact ⟨e, List.mem_append_left l' he, hn⟩

/-- No entry, or one of the directory whose name needs no quotes. -/
def Named (folder path : Text) : Prop :=
  path = [] ∨ ∃ n, Path.Proper n ∧ Clean n ∧ path = folder ++ n

theorem named_takeOlder {oldest : ℤ × Text} {n : Name} (hn : Path.Proper n ∧ Clean n)
    (holdest : Named folder oldest.2) : Named folder (takeOlder folder oldest n).2 := by
  unfold takeOlder
  cases folderTime n with
  | none => exact holdest
  | some time =>
    dsimp only
    split_ifs
    · exact .inr ⟨n, hn.1, hn.2, rfl⟩
    · exact holdest

/-- A round of the loop that looks for the oldest entry. -/
theorem conserves_scan {P : Path → Prop} (oldest : ℤ × Text) (d_name : Name)
    (hs : Held cwd P line s) (holdest : Named folder oldest.2) :
    Conserves sh line (do
      let d_type ← Sys.readdir folder d_name
      return if d_type.isSome then takeOlder folder oldest d_name else oldest)
      (fun a t _ => Held cwd P line t ∧ Named folder a.2) s := by
  rw [request_bind]
  refine conserves_call fun x hx hfair => ?_
  refine assures_pure ⟨hs, ?_⟩
  split_ifs with hsome
  · obtain ⟨d_type, htype⟩ := Option.isSome_iff_exists.mp hsome
    have hname : Clean d_name := hfair.1 (by rw [htype]; simp)
    exact named_takeOlder ⟨(readdir_some htype).1, hname⟩ holdest
  · exact holdest

variable (hfolder : Path.Folder folder) (hsh : SplitsWords sh) (hclean : Clean folder)
include hfolder hsh hclean

/-- The oldest entry is removed. -/
theorem conserves_RemoveTheOldestLog (hs : Held cwd (Keeper (Path.resolve cwd folder) day) line s) :
    Conserves sh line (RemoveTheOldestLog folder)
      (fun _ t l => Lasts cwd folder day line t l) s := by
  simp only [RemoveTheOldestLog, request_bind]
  refine conserves_step trivial hs fun x t ht => ?_
  refine conserves_step trivial ht fun y u hu => ?_
  cases (act sh (.opendir folder) y t).1 with
  | none =>
    refine conserves_step trivial hu fun _ v hv => ?_
    exact conserves_step trivial hv fun _ w hw => assures_pure (.inl hw)
  | some names =>
    refine assures_bind ((assures_fold_keeps (fun oldest d_name s h =>
      conserves_scan oldest d_name h.1 h.2) names ⟨hu, .inl rfl⟩).mono ?_)
    rintro ⟨time, path⟩ v l ⟨hv, hpath⟩
    dsimp only at hpath ⊢
    split_ifs with hremoves
    · obtain ⟨n, hn, hname, rfl⟩ := hpath.resolve_left hremoves.2
      refine conserves_step trivial hv fun _ w hw => ?_
      refine conserves_step trivial hw fun _ a ha => ?_
      by_cases hday : n = day ∨ n = day ++ ".tgz".toList
      · refine conserves_call fun z _ _ => ?_
        refine (conserves_any _).mono fun _ b l' _ => .inr ?_
        exact ⟨event sh (.system ("rm -rf ".toList ++ (folder ++ n))) z a, by simp, n, hday, rfl⟩
      · have hother : Held cwd (fun p => Keeper (Path.resolve cwd folder) day p ∧
            ¬Path.resolve cwd folder ++ [n] <+: p) line a := by
          refine ha.mono fun p hp => ⟨hp, fun hprefix => hday ?_⟩
          refine (hp.of_start hprefix).imp_right fun hpn => ?_
          subst hpn
          rcases hp with hp | ⟨r, m, hp, -⟩
          · exact List.singleton_injective (List.append_cancel_left hp)
          · have hlen := congrArg List.length (List.append_cancel_left hp)
            simp at hlen
        refine conserves_call fun z hz _ => ?_
        have hremoved := hother.remove hfolder hn (split_removal hsh hclean ⟨hn, hname⟩) hz
        refine conserves_step trivial hremoved fun _ b hb => ?_
        exact conserves_step trivial hb fun _ d hd => assures_pure (.inl hd)
    · exact conserves_step trivial hv fun _ w hw => assures_pure (.inl hw)

/-- What the pass does when its log is open. -/
theorem conserves_opened (hpath : path ++ APP_LOG_PATH = folder) (hne : folder ≠ []) (t : ℤ)
    (hs : Held cwd (Keeper (Path.resolve cwd folder) day) line s) :
    Conserves sh line (do
      HandleOldLog path t
      let size ← GetTotalFolderSizeMb folder
      if MAX_APLOG_RESERVED_SIZE < size then
        RemoveTheOldestLog folder
      Sys.close .logFd
      Sys.quiet
      return (0 : ℤ)) (fun _ u l => Lasts cwd folder day line u l) s := by
  refine assures_bind ((conserves_HandleOldLog hfolder hsh hclean hpath hne t hs).mono ?_)
  rintro - u l hu
  simp only [GetTotalFolderSizeMb, request_bind, call_bind, Program.pure_bind]
  refine conserves_step trivial hu fun x v hv => ?_
  split_ifs
  · refine assures_bind ((conserves_RemoveTheOldestLog hfolder hsh hclean hv).mono ?_)
    rintro - w l' (hw | hdropped)
    · refine conserves_step trivial hw fun _ a ha => ?_
      exact conserves_step trivial ha fun _ b hb => assures_pure (.inl hb)
    · refine (conserves_any _).mono fun _ a l'' _ => .inr ?_
      exact ((hdropped.append_right l'').append_left [_]).append_left l
  · refine conserves_step trivial hv fun _ w hw => ?_
    exact conserves_step trivial hw fun _ a ha => assures_pure (.inl ha)

theorem conserves_DBGHandleOldLog (hpath : path ++ APP_LOG_PATH = folder) (hne : folder ≠ [])
    (hs : Held cwd (Keeper (Path.resolve cwd folder) day) line s) :
    Conserves sh line (DBGHandleOldLog path filename)
      (fun _ t l => Lasts cwd folder day line t l) s := by
  simp only [DBGHandleOldLog, request_bind, hpath]
  refine conserves_step trivial hs fun x t ht => ?_
  refine conserves_step trivial ht fun _ u hu => ?_
  refine conserves_step rfl hu fun y v hv => ?_
  split_ifs
  · exact conserves_step trivial hv fun _ w hw => assures_pure (.inl hw)
  · refine (conserves_opened hfolder hsh hclean hpath hne _ hv).mono ?_
    rintro - w l (hw | hdropped)
    · exact .inl hw
    · exact .inr (hdropped.append_left [_, _, _])

end Passes

section Lines

variable {sh : Text → List (List Text)} {cwd : Path} {P : Path → Prop} {line : Text} {s : State}

theorem gentle_mkdirs (muldir : Text) : (mkdirs muldir).Makes (Call.Gentle cwd P) :=
  makes_mkdirs (fun _ => trivial) (fun _ => trivial) muldir

theorem gentle_DBGLogAndPublish (dbgStr : Option Text) (path filename : Text) :
    (DBGLogAndPublish dbgStr path filename).Makes (Call.Gentle cwd P) := by
  cases dbgStr with
  | none => trivial
  | some dbgStr =>
    exact ⟨trivial, fun tv => ⟨trivial, fun _ => ⟨trivial, fun _ =>
      makes_publishTo (gentle_mkdirs _) rfl trivial trivial trivial⟩⟩⟩

/-- Making directories opens no file. -/
theorem conserves_mkdirs (muldir : Text) (hcwd : s.disk.cwd = cwd)
    (hopened : s.opened = fun _ => none) : Conserves sh line (mkdirs muldir)
      (fun _ t _ => t.disk.cwd = cwd ∧ t.opened = fun _ => none) s := by
  let P (c : Call) : Prop := (∃ path, c = .access path) ∨ ∃ path, c = .mkdir path
  have hmakes : (mkdirs muldir).Makes P :=
    makes_mkdirs (fun path => .inl ⟨path, rfl⟩) (fun path => .inr ⟨path, rfl⟩) muldir
  refine assures_makes_fair perform_total hmakes ?_ ⟨hcwd, hopened⟩
  rintro c x t r u hc - - ht hperform
  refine ⟨trivial, ?_⟩
  obtain ⟨-, hact⟩ := (perform_eq_some sh).mp hperform
  obtain rfl : (act sh c x t).2 = u := congrArg Prod.snd hact
  rcases hc with ⟨path, rfl⟩ | ⟨path, rfl⟩
  · exact ht
  · simp only [act]
    split_ifs
    · exact ht
    · exact ht

/-- The line stands in the file it was written to. -/
theorem Held.of_write {p : Path} {c : List Item} (hcwd : s.disk.cwd = cwd) (hP : P p)
    (hopened : s.opened = Function.update (fun _ => none) .logFd (some ⟨p, true⟩))
    (hc : s.disk.content p = some (c ++ Item.ofText line)) : Held cwd P line s := by
  have hhandle {f : Fd} {h : Handle} (hm : h ∈ s.opened f) : f = .logFd ∧ h = ⟨p, true⟩ := by
    rw [hopened] at hm
    cases f with
    | logFd => exact ⟨rfl, (Option.some.inj hm).symm⟩
    | fd => cases hm
  refine ⟨hcwd, fun h hm => ?_, fun h hm => ?_, fun f h hm => ?_, p, c ++ Item.ofText line, hP, hc,
    ?_, fun h hm => ?_⟩
  · rw [(hhandle hm).2]
  · cases (hhandle hm).1
  · rw [(hhandle hm).2, Disk.content_eq_some.mp hc]
    simp
  · have hline : Item.Holds line (c ++ Item.ofText line ++ []) := .bytes c []
    rwa [List.append_nil] at hline
  · cases (hhandle hm).1

/-- What follows when the file of the line is open. -/
theorem conserves_write {p : Path} {c : List Item} (hcwd : s.disk.cwd = cwd) (hP : P p)
    (hopened : s.opened = Function.update (fun _ => none) .logFd (some ⟨p, true⟩))
    (hc : s.disk.content p = some c) : Conserves sh line (do
      let _ ← Sys.write .logFd line
      Sys.close .logFd
      Sys.quiet
      return (0 : ℤ)) (fun _ t _ => Held cwd P line t) s := by
  have htarget : s.target .logFd = some (⟨p, true⟩, c) := by
    simp [State.target, hopened, hc]
  simp only [request_bind]
  refine conserves_call fun x hx _ => ?_
  rw [act_write hx.1 htarget]
  have hwritten : Held cwd P line
      { s with disk := s.disk.put p (some (.file (c ++ Item.ofText line))) } := by
    refine .of_write hcwd hP hopened (c := c) ?_
    rw [Disk.content_eq_some]
    exact Disk.put_node_self
  refine conserves_step trivial hwritten fun _ t ht => ?_
  exact conserves_step trivial ht fun _ u hu => assures_pure hu

/-- A line that was published is there. -/
theorem conserves_publishTo {newPath filename : Text} (hcwd : s.disk.cwd = cwd)
    (hopened : s.opened = fun _ => none) (hP : P (Path.resolve cwd (newPath ++ filename))) :
    Conserves sh line (publishTo newPath filename line)
      (fun a t _ => a = 0 → Held cwd P line t) s := by
  refine assures_bind ((conserves_mkdirs newPath hcwd hopened).mono ?_)
  rintro - t l ⟨rfl, hopened⟩
  simp only [request_bind]
  refine conserves_call fun x _ _ => ?_
  rcases act_openFile_cases sh x t .logFd (newPath ++ filename) true true with
    hact | ⟨c, hl, hact⟩ | ⟨-, hnew, hact⟩ <;> rw [hact]
  · refine conserves_call fun _ _ _ => assures_pure fun h => ?_
    cases h
  · refine (conserves_write (c := c) rfl hP ?_ ?_).mono fun _ _ _ hu _ => hu
    · rw [← hopened]
      rfl
    · exact Disk.content_eq_some.mpr (Disk.node_of_lookup hl)
  · refine (conserves_write (c := []) rfl hP ?_ ?_).mono fun _ _ _ hu _ => hu
    · rw [← hopened]
      rfl
    · rw [Disk.content_eq_some]
      exact Disk.put_node_self

end Lines

end ConferenceCall.Log

import ConferenceCall.Log.Quota

/-! What the parts of a pass do to the entries of the log directory. The files of the current day
are packed or rotated below their entry, the folder of an old day becomes an archive. -/

namespace ConferenceCall.Log

open Library Program

variable {sh : Text → List (List Text)} {cwd D : Path} {today : ℤ} {s : State} {folder : Text}
  {n m : Name}

variable (sh D today) in
/-- A run in which every call succeeds and every event is fair comes to an end in `Q`, and removes
no entry of the current day or a later one. -/
abbrev Handles {α : Type} (p : Prog α) (Q : α → State → Trace → Prop) (s : State) : Prop :=
  Assures (perform sh) Choice.Succeeds (Fair today) (KeepsLater D today) p Q s

theorem perform_total (c : Call) (x : Choice) (s : State) (hx : x.Succeeds) :
    perform sh c x s ≠ none := by
  simp [perform, hx.1]

theorem handles_call {α : Type} {c : Call} {next : c.Answer → Prog α}
    {Q : α → State → Trace → Prop} (h : ∀ x : Choice, x.Succeeds → Fair today (event sh c x s) →
      KeepsLater D today (event sh c x s) ∧ Handles sh D today (next (act sh c x s).1)
        (fun a u l => Q a u (event sh c x s :: l)) (act sh c x s).2) :
    Handles sh D today (.call c next) Q s := by
  refine assures_call perform_total fun x r t hx hperform hfair => ?_
  obtain ⟨-, hact⟩ := (perform_eq_some sh).mp hperform
  have hevent : event sh c x s = ⟨c, r, s, t⟩ := by rw [event, hact]
  rw [← hevent] at hfair ⊢
  have hnext := h x hx hfair
  rwa [hact] at hnext

/-- A program whose calls spare the entries. -/
theorem handles_makes {α : Type} {p : Prog α} (hp : p.Makes (Call.Tends sh cwd D today))
    (hs : Tended cwd D today s) : Handles sh D today p (fun _ t _ => Tended cwd D today t ∧
      oldEntries D today t.disk = oldEntries D today s.disk) s := by
  refine assures_makes perform_total hp ?_ ⟨hs, rfl⟩
  rintro c x t r u hc - ⟨ht, hold⟩ hperform
  obtain ⟨-, hact⟩ := (perform_eq_some sh).mp hperform
  obtain rfl : (act sh c x t).2 = u := congrArg Prod.snd hact
  obtain ⟨hu, hspared⟩ := ht.of_act sh x hc
  exact ⟨hspared.keepsLater, hu, hspared.oldEntries_eq.trans hold⟩

/-- A call that spares the entries, before a program. -/
theorem handles_step {α : Type} {c : Call} {next : c.Answer → Prog α} {R : α → State → Prop}
    (hc : c.Tends sh cwd D today) (hs : Tended cwd D today s)
    (h : ∀ r t, Tended cwd D today t → oldEntries D today t.disk = oldEntries D today s.disk →
      Handles sh D today (next r) (fun a u _ => R a u) t) :
    Handles sh D today (.call c next) (fun a u _ => R a u) s := by
  refine handles_call fun x hx _ => ?_
  obtain ⟨ht, hspared⟩ := hs.of_act sh x hc
  exact ⟨hspared.keepsLater, h _ _ ht hspared.oldEntries_eq⟩

section Files

/-- A path of a file below an entry. -/
theorem path_file (hfolder : Path.Folder folder) (hn : Path.Proper n) (hm : Path.Proper m) :
    Path.resolve cwd (folder ++ n ++ '/' :: m) = Path.resolve cwd folder ++ [n, m] := by
  have hne : folder ++ n ≠ [] := by simp [hn.1]
  have htext : folder ++ n ++ '/' :: m = (folder ++ n ++ ['/']) ++ m := by simp
  rw [htext, Path.resolve_proper cwd (.inr ⟨_, rfl⟩) hm, Path.resolve_concat hne,
    Path.resolve_proper cwd hfolder hn, List.append_assoc]
  rfl

theorem loggable_file (hn : Clean n) (hm : Clean m) : Loggable D today (D ++ [n, m]) := by
  intro k r h
  obtain ⟨rfl, rfl⟩ := List.cons.inj (List.append_cancel_left h)
  refine ⟨fun w hw => ?_, fun hr => absurd hr (List.cons_ne_nil m [])⟩
  rcases List.mem_cons.mp hw with rfl | hw
  · exact hn
  · rwa [List.mem_singleton.mp hw]

/-- The archive of a file. -/
theorem proper_tgz (hn : Path.Proper n) : Path.Proper (n ++ ".tgz".toList) := by
  refine proper_of_length (by simp) fun hs => ?_
  rcases List.mem_append.mp hs with hs | hs
  · exact hn.2.2.2 hs
  · exact absurd hs (by decide)

variable (hfolder : Path.Folder folder) (hn : Path.Proper n ∧ Clean n) (hm : Path.Proper m ∧ Clean m)
include hfolder hn hm

/-- A backup is packed and removed inside its entry. -/
theorem makes_tends_compress (hsh : SplitsWords sh) (hclean : Clean folder) :
    (compress (folder ++ n ++ '/' :: m)).Makes
      (Call.Tends sh cwd (Path.resolve cwd folder) today) := by
  have hwhole : (Entry.backup (folder ++ n) m).Whole sh :=
    whole_backup hsh (clean_append.mpr ⟨hclean, hn.2⟩) hm.2
  have htarget : folder ++ n ++ '/' :: m ++ ".tgz".toList =
      folder ++ n ++ '/' :: (m ++ ".tgz".toList) := by simp
  have hpacks : Call.Tends sh cwd (Path.resolve cwd folder) today
      (.system (tarCommand (folder ++ n ++ '/' :: m))) := by
    intro d hd words hwords
    have hsplit : sh (tarCommand (folder ++ n ++ '/' :: m)) = [_] := hwhole.1
    rw [hsplit, List.mem_singleton] at hwords
    subst hd hwords
    rw [ofWords_backup, htarget]
    have hpath : Path.resolve d.cwd (folder ++ n ++ '/' :: (m ++ ".tgz".toList)) = _ :=
      path_file hfolder hn.1 (proper_tgz hm.1)
    refine ⟨fun p hp => ?_, fun p hp => ?_⟩
    · obtain rfl : p = Path.resolve d.cwd _ := hp
      rw [hpath]
      exact ⟨n, _, [], rfl⟩
    · obtain rfl : p = Path.resolve d.cwd _ := hp
      rw [hpath]
      exact loggable_file hn.2 (clean_tgz hm.2)
  have hremoves : Call.Tends sh cwd (Path.resolve cwd folder) today
      (.system (rmCommand (folder ++ n ++ '/' :: m))) := by
    intro d hd words hwords
    have hsplit : sh (rmCommand (folder ++ n ++ '/' :: m)) = [_] := hwhole.2
    rw [hsplit, List.mem_singleton] at hwords
    subst hd hwords
    rw [ofWords_rmWords]
    refine ⟨fun p hp => ?_, fun p hp => hp.elim⟩
    obtain ⟨w, hw, -, r, rfl⟩ := hp
    rw [List.mem_singleton.mp hw, Disk.path, Entry.path, path_file hfolder hn.1 hm.1]
    exact ⟨n, m, r, List.append_assoc ..⟩
  exact ⟨trivial, fun _ => ⟨hpacks, fun _ => ⟨trivial, fun _ => ⟨hremoves, fun _ =>
    ⟨trivial, fun _ => trivial⟩⟩⟩⟩⟩

/-- A file is rotated inside its entry. -/
theorem makes_tends_BackupLogFile : (BackupLogFile (folder ++ n ++ '/' :: m)).Makes
    (Call.Tends sh cwd (Path.resolve cwd folder) today) := by
  let log := folderLog (folder ++ n) m hm.1
  have htext : folder ++ n ++ '/' :: m = log.text := (folderLog_text _ m hm.1).symm
  have hlog {k : Name} (hk : Path.Proper k) : Path.resolve cwd (log.dir ++ k) =
      Path.resolve cwd folder ++ [n, k] := by
    rw [← path_file hfolder hn.1 hk]
    exact congrArg (Path.resolve cwd) (List.append_assoc ..)
  have hbackup (i : ℤ) : Path.resolve cwd (backupFilePath log.text i) =
      Path.resolve cwd folder ++ [n, backupFilePath m i] := by
    rw [log.backupFilePath_text]
    exact hlog (proper_backupFilePath hm.1 i)
  have hinfo : Path.resolve cwd (logInfoPath log.text) =
      Path.resolve cwd folder ++ [n, logInfoPath m] := by
    rw [log.logInfoPath_text]
    exact hlog (proper_logInfoPath hm.1)
  have hpath : Path.resolve cwd log.text = Path.resolve cwd folder ++ [n, m] := hlog hm.1
  rw [htext]
  refine makes_rotation log (fun Q c hc => ?_) (fun i => ⟨?_, ?_, ?_⟩) fun i => ?_
  · cases c with
    | openFile f path creates appends =>
      obtain ⟨-, rfl⟩ := hc
      rw [Call.Tends, hinfo]
      exact loggable_file hn.2 (clean_logInfoPath hm.2)
    | rename old new => exact hc.elim
    | unlink path => exact hc.elim
    | mkdir path => exact hc.elim
    | system command => exact hc.elim
    | _ => trivial
  · rw [hpath]
    exact ⟨n, m, [], rfl⟩
  · rw [hbackup]
    exact ⟨n, _, [], rfl⟩
  · rw [hbackup]
    exact loggable_file hn.2 (clean_backupFilePath hm.2 i)
  · rw [Call.Tends, hbackup]
    exact ⟨n, _, [], rfl⟩

/-- What the pass does with a file of the current day. -/
theorem makes_tends_HandleFile (hsh : SplitsWords sh) (hclean : Clean folder) :
    (HandleFile (folder ++ n) m).Makes (Call.Tends sh cwd (Path.resolve cwd folder) today) := by
  simp only [HandleFile, get_file_size, request_bind, call_bind, Program.pure_bind]
  split_ifs
  · exact makes_tends_compress hfolder hn hm hsh hclean
  · refine ⟨trivial, fun size => ?_⟩
    beta_reduce
    split_ifs
    · exact ⟨trivial, fun _ => makes_tends_BackupLogFile hfolder hn hm⟩
    · trivial

end Files

/-- A command opens no file. -/
theorem Tended.opened_system {x : Choice} {command : Text} (h : Tended cwd D today s) (f : Fd) :
    ∀ g ∈ (act sh (.system command) x s).2.opened f, Loggable D today g.path := by
  intro g hg
  rcases act_opened sh s x (.system command) hg with ⟨g', hg', hpath⟩ |
    ⟨_, _, _, hc, -⟩ | ⟨_, _, hc, -⟩
  · rw [hpath]
    exact h.opened f g' hg'
  · cases hc
  · cases hc

section Days

variable (hfolder : Path.Folder folder) (hn : Path.Proper n)
include hfolder hn

/-- `rm` takes the name of an entry. -/
theorem not_refused_entry (d : Disk) : refused d (folder ++ n) = false := by
  have hpath : d.path (folder ++ n) ≠ [] := by
    rw [Disk.path, Path.resolve_proper d.cwd hfolder hn]
    simp
  have hsplit : ∃ l, (folder ++ n).splitOn '/' = l ++ [n] := by
    rcases hfolder with rfl | ⟨t, rfl⟩
    · exact ⟨[], by rw [List.nil_append, List.splitOn_eq_singleton hn.2.2.2, List.nil_append]⟩
    · refine ⟨t.splitOn '/', ?_⟩
      rw [List.append_assoc, List.singleton_append, List.splitOn_append_cons_self,
        List.splitOn_eq_singleton hn.2.2.2]
  have hlast : (((folder ++ n).splitOn '/').filter (· ≠ [])).getLast? = some n := by
    obtain ⟨l, hl⟩ := hsplit
    simp [hl, List.filter_append, hn.1]
  simp only [refused, hlast, decide_eq_false_iff_not, not_or]
  refine ⟨by simp [hn.1], hpath, ?_⟩
  simp [hn.2.1, hn.2.2.1]

variable (x : Choice) {command : Text}

/-- An entry that is removed goes with all that is below it. -/
theorem node_removed (hx : x.Succeeds)
    (hsplit : sh command = [["rm".toList, "-rf".toList, folder ++ n]])
    (hcwd : s.disk.cwd = cwd) (p : Path) : (act sh (.system command) x s).2.disk.node p =
      if Path.resolve cwd folder ++ [n] <+: p then none else s.disk.node p := by
  have hrm : Command.ofWords ["rm".toList, "-rf".toList, folder ++ n] = .rm [folder ++ n] := by
    simp [Command.ofWords]
  have hpaths : rmPaths s.disk [folder ++ n] p ↔ Path.resolve cwd folder ++ [n] <+: p := by
    simp only [rmPaths, List.mem_singleton, exists_eq_left, not_refused_entry hfolder hn, true_and,
      Disk.path, hcwd, Path.resolve_proper cwd hfolder hn]
  have hfails : x.fate ≠ .fails := by simp [hx.1]
  simp only [act, if_neg hfails, hsplit, List.map_cons, List.map_nil, hrm, runCommands, Command.run,
    State.setDisk, Disk.cut, hx.2, true_or, and_true, hpaths]

/-- The removal of an old entry. -/
theorem Tended.remove (h : Tended cwd (Path.resolve cwd folder) today s)
    (hbefore : Before today n) (hx : x.Succeeds)
    (hsplit : sh command = [["rm".toList, "-rf".toList, folder ++ n]]) :
    KeepsLater (Path.resolve cwd folder) today (event sh (.system command) x s) ∧
      Tended cwd (Path.resolve cwd folder) today (act sh (.system command) x s).2 ∧
      oldEntries (Path.resolve cwd folder) today (act sh (.system command) x s).2.disk =
        oldEntries (Path.resolve cwd folder) today s.disk \ {n} := by
  have hnode := node_removed hfolder hn x hx hsplit h.cwd
  have hentry (m : Name) : (act sh (.system command) x s).2.disk.node
      (Path.resolve cwd folder ++ [m]) = if m = n then none else
        s.disk.node (Path.resolve cwd folder ++ [m]) := by
    have hprefix : Path.resolve cwd folder ++ [n] <+: Path.resolve cwd folder ++ [m] ↔ m = n := by
      simp [List.prefix_append_right_inj, eq_comm]
    simp only [hnode, hprefix]
  have hdir : (act sh (.system command) x s).2.disk.node (Path.resolve cwd folder) =
      s.disk.node (Path.resolve cwd folder) := by
    rw [hnode, if_neg]
    intro hp
    have hle := hp.length_le
    simp at hle
  have hwithin := within_act sh s x (c := .system command) (by simp)
  refine ⟨fun m time htime hle hm => ?_, ⟨?_, ?_, ?_, ?_⟩, ?_⟩
  · have hne : m ≠ n := by
      rintro rfl
      obtain ⟨time', htime', hlt⟩ := hbefore
      rw [Option.mem_unique htime htime'] at hle
      exact absurd hlt (not_lt.mpr hle)
    have hkept := hentry m
    rw [if_neg hne] at hkept
    exact hkept.symm ▸ hm
  · exact hwithin.cwd.trans h.cwd
  · exact isDir_of_node h.dir hdir
  · intro m r hm
    rw [hnode] at hm
    split_ifs at hm
    · exact absurd rfl hm
    · exact h.clean m r hm
  · exact h.opened_system
  · ext m
    have hm := hentry m
    by_cases hmn : m = n
    · subst hmn
      simp [oldEntries, hm]
    · simp [oldEntries, hm, hmn]

/-- The archive of an old entry. -/
theorem Tended.pack (hclean : Clean folder) (hne : folder ≠ []) (hsh : SplitsWords sh)
    (h : Tended cwd (Path.resolve cwd folder) today s)
    (hmem : n ∈ oldEntries (Path.resolve cwd folder) today s.disk) :
    KeepsLater (Path.resolve cwd folder) today (event sh (.system (tarFolderCommand folder n)) x s) ∧
      Tended cwd (Path.resolve cwd folder) today
        (act sh (.system (tarFolderCommand folder n)) x s).2 ∧
      n ∈ oldEntries (Path.resolve cwd folder) today
        (act sh (.system (tarFolderCommand folder n)) x s).2.disk ∧
      oldEntries (Path.resolve cwd folder) today
        (act sh (.system (tarFolderCommand folder n)) x s).2.disk ⊆
          insert (n ++ ".tgz".toList) (oldEntries (Path.resolve cwd folder) today s.disk) := by
  have hname : Clean n := h.clean n [] hmem.2.1 n List.mem_cons_self
  have hwords : sh (tarFolderCommand folder n) = [(Entry.day folder n).tarWords] :=
    (whole_day hsh hclean hne hname hn.1).1
  have htarget : s.disk.path (folder ++ n ++ ".tgz".toList) =
      Path.resolve cwd folder ++ [n ++ ".tgz".toList] := by
    rw [Disk.path, h.cwd, List.append_assoc, Path.resolve_proper cwd hfolder (proper_tgz hn)]
  have hpaths {p : Path} (hp : ∃ words ∈ sh (tarFolderCommand folder n),
      (Command.ofWords words).Creates s.disk p ∨ (Command.ofWords words).Changes s.disk p) :
      p = Path.resolve cwd folder ++ [n ++ ".tgz".toList] := by
    obtain ⟨words, hmem, hp⟩ := hp
    rw [hwords, List.mem_singleton] at hmem
    subst hmem
    rw [ofWords_day] at hp
    rw [← htarget]
    exact hp.elim id id
  have hwithin : Within (· = Path.resolve cwd folder ++ [n ++ ".tgz".toList])
      (· = Path.resolve cwd folder ++ [n ++ ".tgz".toList]) s.disk
        (act sh (.system (tarFolderCommand folder n)) x s).2.disk := by
    refine (within_act sh s x (by simp)).mono ?_ ?_
    · rintro p ⟨words, hmem, hp⟩
      exact hpaths ⟨words, hmem, .inr hp⟩
    · rintro p ⟨words, hmem, hp⟩
      exact hpaths ⟨words, hmem, .inl hp⟩
  have hkept (p : Path) (hp : s.disk.node p ≠ none) :
      (act sh (.system (tarFolderCommand folder n)) x s).2.disk.node p ≠ none := by
    intro hgone
    rcases act_deletes hp hgone rfl with ⟨path, hc, -⟩ | ⟨c, operands, hc, ⟨words, hmem, hrm⟩, -⟩
    · cases hc
    · cases hc
      rw [hwords, List.mem_singleton] at hmem
      exact ofWords_tarWords (.day folder n) operands (hmem ▸ hrm)
  refine ⟨fun m _ _ _ hm => hkept _ hm, ⟨?_, ?_, ?_, ?_⟩, ⟨hn, hkept _ hmem.2.1, hmem.2.2⟩, ?_⟩
  · exact hwithin.cwd.trans h.cwd
  · exact isDir_of_node h.dir (hwithin.node _ (by simp))
  · intro m r hm
    rcases hwithin.made _ hm with hm | hm
    · exact h.clean m r hm
    · obtain ⟨rfl, rfl⟩ := List.cons.inj (List.append_cancel_left hm)
      simpa using clean_tgz hname
  · exact h.opened_system
  · rintro m ⟨hproper, hm, hbefore⟩
    rcases hwithin.made _ hm with hm | hm
    · exact .inr ⟨hproper, hm, hbefore⟩
    · exact .inl (List.singleton_injective (List.append_cancel_left hm))

end Days

section Passes

/-- What is listed with a type is there. -/
theorem readdir_some {path : Text} {x : Choice} {d_type : DType}
    (h : (act sh (.readdir path n) x s).1 = some d_type) :
    Path.Proper n ∧ s.disk.node (s.disk.path path ++ [n]) ≠ none := by
  simp only [act] at h
  split_ifs at h with hn
  refine ⟨hn, fun hnone => ?_⟩
  rw [hnone] at h
  cases h

variable (hfolder : Path.Folder folder) (hclean : Clean folder) (hsh : SplitsWords sh)
include hfolder hclean hsh

/-- The archive of the folder of an old day takes its place. -/
theorem handles_archiveFolder (hne : folder ≠ []) (timeString : Text) (t : ℤ)
    (hs : Tended cwd (Path.resolve cwd folder) today s)
    (hmem : n ∈ oldEntries (Path.resolve cwd folder) today s.disk) :
    Handles sh (Path.resolve cwd folder) today (archiveFolder folder timeString t n)
      (fun _ u _ => Tended cwd (Path.resolve cwd folder) today u ∧
        (oldEntries (Path.resolve cwd folder) today u.disk).encard ≤
          (oldEntries (Path.resolve cwd folder) today s.disk).encard) s := by
  have hname : Clean n := hs.clean n [] hmem.2.1 n List.mem_cons_self
  have hrm : sh (rmCommand (folder ++ n)) = [(Entry.day folder n).rmWords] :=
    (whole_day hsh hclean hne hname hmem.1.1).2
  refine handles_step trivial hs fun _ u hu hold => ?_
  refine handles_step trivial hu fun _ v hv hold' => ?_
  refine handles_step trivial hv fun _ w hw hold'' => ?_
  have hsame := hold''.trans (hold'.trans hold)
  refine handles_call fun x hx _ => ?_
  obtain ⟨hkeeps, hpacked, hstays, hsub⟩ :=
    hw.pack hfolder hmem.1 x hclean hne hsh (hsame.symm ▸ hmem)
  refine ⟨hkeeps, ?_⟩
  generalize (act sh (.system (tarFolderCommand folder n)) x w).2 = a at hpacked hstays hsub
  refine handles_step trivial hpacked fun _ b hb holda => ?_
  refine handles_step trivial hb fun _ c hc holdb => ?_
  refine handles_call fun x hx _ => ?_
  obtain ⟨hkeeps, hremoved, hgone⟩ := hc.remove hfolder hmem.1 x hmem.2.2 hx hrm
  refine ⟨hkeeps, handles_step trivial hremoved fun _ e he holde => assures_pure ⟨he, ?_⟩⟩
  rw [holde, hgone, holdb.trans holda]
  rw [hsame] at hsub
  have hreplaced : oldEntries (Path.resolve cwd folder) today a.disk \ {n} ⊆
      insert (n ++ ".tgz".toList) (oldEntries (Path.resolve cwd folder) today s.disk \ {n}) := by
    rintro m ⟨hm, hne⟩
    exact (hsub hm).imp_right fun hm => ⟨hm, hne⟩
  calc (oldEntries (Path.resolve cwd folder) today a.disk \ {n}).encard
      ≤ (insert (n ++ ".tgz".toList)
          (oldEntries (Path.resolve cwd folder) today s.disk \ {n})).encard :=
        Set.encard_le_encard hreplaced
    _ ≤ (oldEntries (Path.resolve cwd folder) today s.disk \ {n}).encard + 1 :=
        Set.encard_insert_le _ _
    _ = (oldEntries (Path.resolve cwd folder) today s.disk).encard :=
        Set.encard_sdiff_singleton_add_one hmem

/-- The files of the current day. -/
theorem handles_currentFolder (hs : Tended cwd (Path.resolve cwd folder) today s)
    (hn : Path.Proper n ∧ Clean n) :
    Handles sh (Path.resolve cwd folder) today (HandleCurrentApLogFolder (folder ++ n))
      (fun _ u _ => Tended cwd (Path.resolve cwd folder) today u ∧
        oldEntries (Path.resolve cwd folder) today u.disk =
          oldEntries (Path.resolve cwd folder) today s.disk) s := by
  rw [HandleCurrentApLogFolder, request_bind]
  refine handles_step trivial hs fun names t ht hold => ?_
  have hfile (m : Name) (u : State) (hu : Tended cwd (Path.resolve cwd folder) today u ∧
      oldEntries (Path.resolve cwd folder) today u.disk =
        oldEntries (Path.resolve cwd folder) today s.disk) :
      Handles sh (Path.resolve cwd folder) today (do
        let d_type ← Sys.readdir (folder ++ n) m
        if d_type = some .DT_REG then HandleFile (folder ++ n) m)
      (fun _ v _ => Tended cwd (Path.resolve cwd folder) today v ∧
        oldEntries (Path.resolve cwd folder) today v.disk =
          oldEntries (Path.resolve cwd folder) today s.disk) u := by
    rw [request_bind]
    refine handles_call fun x hx _ => ⟨fun _ _ _ _ hm => hm, ?_⟩
    split_ifs with hreg
    · obtain ⟨hm, hnode⟩ := readdir_some hreg
      rw [Disk.path, hu.1.cwd, Path.resolve_proper cwd hfolder hn.1, List.append_assoc] at hnode
      have hclean' : Clean m := hu.1.clean n [m] hnode m (by simp)
      exact (handles_makes (makes_tends_HandleFile hfolder hn ⟨hm, hclean'⟩ hsh hclean) hu.1).mono
        fun _ v _ hv => ⟨hv.1, hv.2.trans hu.2⟩
    · exact assures_pure hu
  cases names with
  | none => exact handles_step trivial ht fun _ u hu hold' => assures_pure ⟨hu, hold'.trans hold⟩
  | some names =>
    refine assures_bind ((assures_each hfile names ⟨ht, hold⟩).mono fun _ u _ hu => ?_)
    exact handles_step trivial hu.1 fun _ v hv hold' => assures_pure ⟨hv, hold'.trans hu.2⟩

/-- A folder of the log directory. -/
theorem handles_HandleDay (hne : folder ≠ []) (timeString : Text) {t : ℤ} (ht : midnight t = today)
    (hs : Tended cwd (Path.resolve cwd folder) today s) (hn : Path.Proper n)
    (hnode : s.disk.node (Path.resolve cwd folder ++ [n]) ≠ none) :
    Handles sh (Path.resolve cwd folder) today (HandleDay folder timeString t n)
      (fun _ u _ => Tended cwd (Path.resolve cwd folder) today u ∧
        (oldEntries (Path.resolve cwd folder) today u.disk).encard ≤
          (oldEntries (Path.resolve cwd folder) today s.disk).encard) s := by
  have hname : Clean n := hs.clean n [] hnode n List.mem_cons_self
  cases htime : folderTime n with
  | none =>
    have hleave : ageing t n = .leave := by simp only [ageing, htime]
    rw [HandleDay, hleave]
    exact assures_pure ⟨hs, le_rfl⟩
  | some time =>
    rcases lt_trichotomy time (midnight t) with hlt | heq | hgt
    · have harchive : ageing t n = .archive := by simp only [ageing, htime, if_pos hlt]
      rw [HandleDay, harchive]
      exact handles_archiveFolder hfolder hclean hsh hne timeString t hs
        ⟨hn, hnode, time, htime, ht ▸ hlt⟩
    · have hcurrent : ageing t n = .current := by
        simp only [ageing, htime, heq, lt_irrefl, if_false, if_true]
      rw [HandleDay, hcurrent]
      exact (handles_currentFolder hfolder hclean hsh hs ⟨hn, hname⟩).mono
        fun _ u _ hu => ⟨hu.1, hu.2.symm ▸ le_rfl⟩
    · have hleave : ageing t n = .leave := by
        simp only [ageing, htime, if_neg hgt.not_gt, if_neg hgt.ne]
      rw [HandleDay, hleave]
      exact assures_pure ⟨hs, le_rfl⟩

/-- The folders of the log directory. -/
theorem handles_HandleOldLog {path : Text} (hpath : path ++ APP_LOG_PATH = folder)
    (hne : folder ≠ []) {t : ℤ} (ht : midnight t = today)
    (hs : Tended cwd (Path.resolve cwd folder) today s) :
    Handles sh (Path.resolve cwd folder) today (HandleOldLog path t)
      (fun _ u _ => Tended cwd (Path.resolve cwd folder) today u ∧
        (oldEntries (Path.resolve cwd folder) today u.disk).encard ≤
          (oldEntries (Path.resolve cwd folder) today s.disk).encard) s := by
  subst hpath
  rw [HandleOldLog, request_bind]
  refine handles_step trivial hs fun names u hu hold => ?_
  rw [← hold]
  have hday (n : Name) (v : State) (hv : Tended cwd (Path.resolve cwd (path ++ APP_LOG_PATH)) today v ∧
      (oldEntries (Path.resolve cwd (path ++ APP_LOG_PATH)) today v.disk).encard ≤
        (oldEntries (Path.resolve cwd (path ++ APP_LOG_PATH)) today u.disk).encard) :
      Handles sh (Path.resolve cwd (path ++ APP_LOG_PATH)) today (do
        let d_type ← Sys.readdir (path ++ APP_LOG_PATH) n
        if d_type = some .DT_DIR then
          HandleDay (path ++ APP_LOG_PATH) (GetDebugLogPayload t) t n)
      (fun _ w _ => Tended cwd (Path.resolve cwd (path ++ APP_LOG_PATH)) today w ∧
        (oldEntries (Path.resolve cwd (path ++ APP_LOG_PATH)) today w.disk).encard ≤
          (oldEntries (Path.resolve cwd (path ++ APP_LOG_PATH)) today u.disk).encard) v := by
    rw [request_bind]
    refine handles_call fun x hx _ => ⟨fun _ _ _ _ hm => hm, ?_⟩
    split_ifs with hdir
    · obtain ⟨hn, hnode⟩ := readdir_some hdir
      rw [Disk.path, hv.1.cwd] at hnode
      exact (handles_HandleDay hfolder hclean hsh hne _ ht hv.1 hn hnode).mono
        fun _ w _ hw => ⟨hw.1, hw.2.trans hv.2⟩
    · exact assures_pure hv
  cases names with
  | none =>
    refine handles_step trivial hu fun _ v hv hold' => ?_
    refine handles_step trivial hv fun _ w hw hold'' => assures_pure ⟨hw, ?_⟩
    rw [hold'', hold']
  | some names =>
    refine assures_bind ((assures_each hday names ⟨hu, le_rfl⟩).mono fun _ v _ hv => ?_)
    refine handles_step trivial hv.1 fun _ w hw hold' => assures_pure ⟨hw, ?_⟩
    rw [hold']
    exact hv.2

end Passes

end ConferenceCall.Log

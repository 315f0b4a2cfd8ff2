import ConferenceCall.Log.Faults
import ConferenceCall.Log.Footprint
import ConferenceCall.Log.Newest

/-! Two logs that are rotated in turn. A rotation works on the log, its counter and its backups, so
that two logs without a common file do not notice each other; two with the same counter mix up
their indices. -/

namespace ConferenceCall.Log

open Library Program

/-- The files a rotation works on. -/
def LogFile.Files (log : LogFile) (cwd p : Path) : Prop :=
  p = log.path cwd log.name ∨ p = log.info cwd ∨ ∃ i, Word.Fits i ∧ p = log.backup cwd i

section Makes

variable (log : LogFile) (cwd : Path)

theorem on_text : log.Files cwd (Path.resolve cwd log.text) :=
  .inl (LogFile.path_text (d := ⟨cwd, fun _ => none⟩) log.proper)

theorem on_info : log.Files cwd (Path.resolve cwd (logInfoPath log.text)) :=
  .inr (.inl (info_text ⟨cwd, fun _ => none⟩))

theorem on_backup {i : ℤ} (h : Word.Fits i) :
    log.Files cwd (Path.resolve cwd (backupFilePath log.text i)) :=
  .inr (.inr ⟨i, h, backup_text ⟨cwd, fun _ => none⟩ i⟩)

theorem makes_on_WriteLogInfo (logInfo : LogInfo) :
    (WriteLogInfo log.text logInfo).Makes (Call.On cwd (log.Files cwd)) := by
  refine ⟨⟨rfl, on_info log cwd⟩, fun opened => ?_⟩
  cases opened with
  | false => trivial
  | true => exact ⟨rfl, fun _ => ⟨rfl, fun _ => trivial⟩⟩

theorem makes_on_ReadLogInfo :
    (ReadLogInfo log.text).Makes (Call.On cwd (log.Files cwd)) := by
  refine ⟨on_info log cwd, fun found => ?_⟩
  cases found with
  | none =>
    refine ⟨⟨rfl, on_info log cwd⟩, fun opened => ?_⟩
    cases opened with
    | false => trivial
    | true => exact ⟨rfl, fun _ => ⟨rfl, fun _ => trivial⟩⟩
  | some size =>
    refine ⟨trivial, fun memory => ⟨⟨rfl, on_info log cwd⟩, fun opened => ?_⟩⟩
    cases opened with
    | false => trivial
    | true => exact ⟨rfl, fun _ => ⟨rfl, fun _ => trivial⟩⟩

/-- Whatever the file of the counter holds, two words are read. -/
theorem returns_ReadLogInfo (origFilePath : Text) : (ReadLogInfo origFilePath).Returns
    fun logInfo => Word.Fits logInfo.count ∧ Word.Fits logInfo.oldestIndex := by
  have hzero : Word.Fits 0 ∧ Word.Fits 0 := by decide
  have hread (s : Text) :
      Word.Fits (LogInfo.ofBytes s).count ∧ Word.Fits (LogInfo.ofBytes s).oldestIndex := by
    simp only [LogInfo.ofBytes, Word.fits_ofBytes, and_self]
  intro found
  cases found with
  | none =>
    intro opened
    cases opened with
    | false => exact hzero
    | true => exact fun _ _ => hzero
  | some size =>
    intro memory opened
    cases opened with
    | false => exact hread memory
    | true => exact fun s _ => hread _

/-- A rotation works on the files of the log. -/
theorem makes_on_BackupLogFile :
    (BackupLogFile log.text).Makes (Call.On cwd (log.Files cwd)) := by
  rw [BackupLogFile]
  refine (makes_on_ReadLogInfo log cwd).bind_of_returns (returns_ReadLogInfo log.text) ?_
  rintro logInfo ⟨hcount, hindex⟩
  have hwrite := makes_on_WriteLogInfo log cwd
  rw [rotate]
  split_ifs
  · exact ⟨⟨on_text log cwd, on_backup log cwd hcount⟩, fun _ => hwrite _⟩
  · exact ⟨on_backup log cwd hindex, fun _ =>
      ⟨⟨on_text log cwd, on_backup log cwd (Word.fits_int32 _)⟩, fun _ => hwrite _⟩⟩

end Makes

/-- Write the log file anew, if it can be. -/
def LogFile.recreate (log : LogFile) (content : Option (List Item)) (d : Disk) : Disk :=
  match content with
  | none => d
  | some c =>
    if d.isFile log.text = true ∨ d.Creatable log.text then
      d.put (d.path log.text) (some (.file c))
    else d

/-- A rotation of one of two logs, after it may have been written anew. -/
structure LogTurn where
  which : Bool
  content : Option (List Item)
  choices : ℕ → Choice

/-- Two logs take turns. -/
def turn (sh : Text → List (List Text)) (logs : Bool → LogFile) :
    Step LogTurn State (Outcome State (Event Call Call.Answer State) Unit) := fun i s =>
  invoke sh (BackupLogFile (logs i.which).text, i.choices)
    { disk := (logs i.which).recreate i.content s.disk }

/-- The two logs are different, and neither is the counter or a backup of the other. -/
structure Distinct (cwd : Path) (logs : Bool → LogFile) : Prop where
  name : (logs false).path cwd (logs false).name ≠ (logs true).path cwd (logs true).name
  info : ∀ k, (logs k).path cwd (logs k).name ≠ (logs !k).info cwd
  backup : ∀ k i, Word.Fits i → (logs k).path cwd (logs k).name ≠ (logs !k).backup cwd i

/-- The counters and the backups are different files. -/
structure Unshared (cwd : Path) (logs : Bool → LogFile) : Prop where
  info : (logs false).info cwd ≠ (logs true).info cwd
  backup : ∀ i j, Word.Fits i → Word.Fits j →
    (logs false).backup cwd i ≠ (logs true).backup cwd j

/-- The backups of each log are those of a run without the turns of the other. -/
def Separated (sh : Text → List (List Text)) (logs : Bool → LogFile) (l : List LogTurn)
    (s : State) : Prop :=
  ∀ k i, Word.Fits i →
    ((turn sh logs).run l s).1.disk.node ((logs k).backup s.disk.cwd i) =
      ((turn sh logs).run (l.filter (·.which == k)) s).1.disk.node ((logs k).backup s.disk.cwd i)

variable {sh : Text → List (List Text)} {logs : Bool → LogFile} {cwd : Path} {s t : State}

/-- No counter is a backup. -/
theorem info_ne_backup (a b : LogFile) (cwd : Path) (i : ℤ) : a.info cwd ≠ b.backup cwd i := by
  intro hsame
  refine logInfoPath_ne_backup a.name b.name i (List.singleton_injective ?_)
  exact List.append_inj_right' hsame rfl

/-- Logs with different counters and backups have no file in common. -/
theorem files_disjoint (hd : Distinct cwd logs) (h : Unshared cwd logs) (k : Bool) {p : Path}
    (hp : (logs k).Files cwd p) : ¬(logs !k).Files cwd p := by
  have hname : (logs k).path cwd (logs k).name ≠ (logs !k).path cwd (logs !k).name := by
    cases k with
    | false => exact hd.name
    | true => exact hd.name.symm
  have hinfo : (logs k).info cwd ≠ (logs !k).info cwd := by
    cases k with
    | false => exact h.info
    | true => exact h.info.symm
  have hbackup (i j : ℤ) (hi : Word.Fits i) (hj : Word.Fits j) :
      (logs k).backup cwd i ≠ (logs !k).backup cwd j := by
    cases k with
    | false => exact h.backup i j hi hj
    | true => exact (h.backup j i hj hi).symm
  have hinfo' := hd.info !k
  have hbackup' := hd.backup !k
  rw [Bool.not_not] at hinfo' hbackup'
  rintro (rfl | rfl | ⟨j, hj, rfl⟩)
  · rcases hp with hp | hp | ⟨i, hi, hp⟩
    · exact hname hp.symm
    · exact hinfo' hp
    · exact hbackup' i hi hp
  · rcases hp with hp | hp | ⟨i, hi, hp⟩
    · exact hd.info k hp.symm
    · exact hinfo hp.symm
    · exact info_ne_backup _ _ _ _ hp
  · rcases hp with hp | hp | ⟨i, hi, hp⟩
    · exact hd.backup k j hj hp.symm
    · exact info_ne_backup _ _ _ _ hp.symm
    · exact hbackup i j hi hj hp.symm

/-- Writing a log anew changes no other file and no directory. -/
theorem recreate_other {A : Path → Prop} (log : LogFile) (content : Option (List Item)) {d : Disk}
    (h : ¬A (d.path log.text)) : SameOn A d (log.recreate content d) := by
  unfold LogFile.recreate
  split
  · exact .refl A d
  · split_ifs with hfree
    · refine .put_other h ?_ (by simp)
      rcases hfree with hfile | hnew
      · obtain ⟨c, hc⟩ := Disk.node_of_isFile hfile
        rw [hc]
        simp
      · rw [hnew.1]
        simp
    · exact .refl A d

theorem SameOn.recreate {A : Path → Prop} {d d' : Disk} (h : SameOn A d d') (log : LogFile)
    (content : Option (List Item)) (hA : A (d.path log.text)) :
    SameOn A (log.recreate content d) (log.recreate content d') := by
  unfold LogFile.recreate
  cases content with
  | none => exact h
  | some c =>
    simp only [h.isFile hA, h.creatable hA, h.path]
    split_ifs
    · exact h.put _
    · exact h

/-- A turn of the log does the same to disks that agree on its files. -/
theorem SameOn.turn {k : Bool} (hcwd : s.disk.cwd = cwd)
    (h : SameOn ((logs k).Files cwd) s.disk t.disk) (i : LogTurn) (hi : i.which = k) :
    SameOn ((logs k).Files cwd) (Log.turn sh logs i s).1.disk (Log.turn sh logs i t).1.disk := by
  subst hi hcwd
  have hrecreate := h.recreate (logs i.which) i.content (on_text (logs i.which) s.disk.cwd)
  have hcwd : ((logs i.which).recreate i.content s.disk).cwd = s.disk.cwd :=
    (recreate_other (A := fun _ => False) (logs i.which) i.content not_false).cwd
  have hmakes : (BackupLogFile (logs i.which).text).Makes
      (Call.On ((logs i.which).recreate i.content s.disk).cwd ((logs i.which).Files s.disk.cwd)) := by
    rw [hcwd]
    exact makes_on_BackupLogFile (logs i.which) s.disk.cwd
  exact (Alike.exec sh (s := { disk := (logs i.which).recreate i.content s.disk })
    (t := { disk := (logs i.which).recreate i.content t.disk }) ⟨hrecreate, rfl, by simp⟩ hmakes
    i.choices).disk

variable (sh logs) in
/-- A turn changes the files of its log only. -/
theorem turn_apart (i : LogTurn) (s : State) : SameOn (fun p => ¬(logs i.which).Files s.disk.cwd p)
    s.disk (Log.turn sh logs i s).1.disk := by
  have hrecreate := recreate_other (A := fun p => ¬(logs i.which).Files s.disk.cwd p)
    (logs i.which) i.content (not_not.mpr (on_text (logs i.which) s.disk.cwd))
  have hmakes : (BackupLogFile (logs i.which).text).Makes
      (Call.On ((logs i.which).recreate i.content s.disk).cwd ((logs i.which).Files s.disk.cwd)) := by
    rw [hrecreate.cwd]
    exact makes_on_BackupLogFile (logs i.which) s.disk.cwd
  exact hrecreate.trans (Confined.exec sh
    (s := { disk := (logs i.which).recreate i.content s.disk }) (by simp) hmakes i.choices).disk

variable (sh) in
/-- A turn of the other log leaves the files of the log alone. -/
theorem sameOn_turn_other (hcwd : s.disk.cwd = cwd) (hd : Distinct cwd logs)
    (hu : Unshared cwd logs) {k : Bool} (i : LogTurn) (hi : i.which ≠ k) :
    SameOn ((logs k).Files cwd) s.disk (Log.turn sh logs i s).1.disk := by
  subst hcwd
  have hother : i.which = !k := by
    cases k <;> simpa using hi
  have hturn := turn_apart sh logs i s
  refine ⟨hturn.cwd, fun p hp => hturn.node p ?_, hturn.dirs⟩
  rw [hother]
  exact files_disjoint hd hu k hp

/-- Logs without a common file are rotated as if each were alone. -/
theorem separated_of_unshared (hd : Distinct s.disk.cwd logs) (hu : Unshared s.disk.cwd logs)
    (l : List LogTurn) : Separated sh logs l s := by
  intro k i hi
  let R (s' : State) (_ : List (Outcome State (Event Call Call.Answer State) Unit)) (t' : State)
      (_ : List (Outcome State (Event Call Call.Answer State) Unit)) : Prop :=
    s'.disk.cwd = s.disk.cwd ∧ SameOn ((logs k).Files s.disk.cwd) s'.disk t'.disk
  have hkeep (j : LogTurn) (s' o t' p) (h : R s' o t' p) (_ : True) (hj : (j.which == k) = true) :
      R (turn sh logs j s').1 (o ++ (turn sh logs j s').2) (turn sh logs j t').1
        (p ++ (turn sh logs j t').2) :=
    ⟨(turn_apart sh logs j s').cwd.trans h.1, h.2.turn h.1 j (beq_iff_eq.mp hj)⟩
  have hskip (j : LogTurn) (s' o t' p) (h : R s' o t' p) (_ : True) (hj : (j.which == k) = false) :
      R (turn sh logs j s').1 (o ++ (turn sh logs j s').2) t' p := by
    have hother := sameOn_turn_other sh h.1 hd hu j (beq_eq_false_iff_ne.mp hj)
    exact ⟨(turn_apart sh logs j s').cwd.trans h.1, hother.symm.trans h.2⟩
  have hrun := Step.run_filter (turn sh logs) (fun j => j.which == k) hkeep hskip l s [] s []
    ⟨rfl, .refl _ _⟩ fun _ _ _ _ => trivial
  exact (hrun.2.node _ (.inr (.inr ⟨i, hi, rfl⟩))).symm

/-! ### Logs that share a file -/

/-- A turn in which every call succeeds. -/
def plainTurn (k : Bool) : LogTurn := ⟨k, some [], fun _ => {}⟩

variable (sh) in
/-- Such a turn makes the next backup. -/
theorem turn_rotated {k : Bool} {d : Disk} {logInfo : LogInfo}
    (hcounter : (logs k).Counter d logInfo) (hown : logInfoPath (logs k).name ≠ (logs k).name)
    (hdir : d.IsDir (Path.resolve d.cwd (logs k).dir))
    (hfile : d.node ((logs k).path d.cwd (logs k).name) = none)
    (hfree : d.node ((logs k).backup d.cwd logInfo.target) = none) :
    (turn sh logs (plainTurn k) { disk := d }).1.disk =
      (logs k).rotated logInfo (d.put ((logs k).path d.cwd (logs k).name) (some (.file []))) := by
  have hpath : d.path (logs k).text = (logs k).path d.cwd (logs k).name :=
    LogFile.path_text (logs k).proper
  have hnew : d.Creatable (logs k).text :=
    (LogFile.creatable_text (logs k).proper).mpr ⟨hfile, hdir⟩
  have hrecreate : (logs k).recreate (some []) d =
      d.put ((logs k).path d.cwd (logs k).name) (some (.file [])) := by
    rw [← hpath]
    exact if_pos (.inr hnew)
  have hinfo : (logs k).path d.cwd (logInfoPath (logs k).name) ≠
      (logs k).path d.cwd (logs k).name := by
    rwa [Ne, (logs k).path_inj]
  have hdir' : (d.put ((logs k).path d.cwd (logs k).name) (some (.file []))).IsDir
      (Path.resolve d.cwd (logs k).dir) :=
    (Disk.isDir_put_of_ne ((logs k).path_ne_dir _ _)).mpr hdir
  have hfree' : (d.put ((logs k).path d.cwd (logs k).name) (some (.file []))).node
      ((logs k).path d.cwd (backupFilePath (logs k).name logInfo.target)) = none := by
    rw [Disk.put_node_of_ne path_name_ne_backup.symm]
    exact hfree
  have hrun : Yields sh (BackupLogFile (logs k).text) _
      { disk := d.put ((logs k).path d.cwd (logs k).name) (some (.file [])) } :=
    yields_BackupLogFile (hcounter.put hinfo ((logs k).path_ne_dir _ _)) hdir' hown hfree'
  obtain ⟨_, -, hdisk, -⟩ := hrun (fun _ => {}) succeeds_default
  simp only [turn, plainTurn, invoke, hrecreate]
  exact hdisk

/-- A disk with one directory. -/
def bareDisk (cwd D : Path) : Disk where
  cwd := cwd
  node p := if p = D then some .dir else none

theorem bareDisk_isDir (cwd D : Path) : (bareDisk cwd D).IsDir D :=
  Disk.isDir_of_node (if_pos rfl)

theorem bareDisk_node {D p : Path} (h : p ≠ D) : (bareDisk cwd D).node p = none := if_neg h

/-- What follows a turn depends on the disk it leaves. -/
theorem turn_disk (i : LogTurn) (s : State) :
    turn sh logs i s = turn sh logs i { disk := s.disk } := rfl

section Bare

variable {k : Bool} {D p : Path} (hfolder : Path.resolve cwd (logs k).dir = D)
  (hown : logInfoPath (logs k).name ≠ (logs k).name)
include hfolder hown

/-- A first turn on a disk without files. -/
theorem turn_bare : (turn sh logs (plainTurn k) { disk := bareDisk cwd D }).1.disk =
    (logs k).rotated ⟨0, 0⟩
      ((bareDisk cwd D).put ((logs k).path cwd (logs k).name) (some (.file []))) := by
  have hnone (n : Name) : (bareDisk cwd D).node ((logs k).path cwd n) = none :=
    bareDisk_node (hfolder ▸ ((logs k).path_ne_dir cwd n).symm)
  have hdir : (bareDisk cwd D).IsDir (Path.resolve cwd (logs k).dir) :=
    hfolder ▸ bareDisk_isDir cwd D
  exact turn_rotated sh (.missing (hnone _) hdir) hown hdir (hnone _) (hnone _)

theorem turn_bare_none (hdir : p ≠ D) (hinfo : p ≠ (logs k).info cwd)
    (hfile : p ≠ (logs k).path cwd (logs k).name) (hbackup : p ≠ (logs k).backup cwd 0) :
    (turn sh logs (plainTurn k) { disk := bareDisk cwd D }).1.disk.node p = none := by
  rw [turn_bare hfolder hown, rotated_other hinfo hfile hbackup (.inl (by decide)),
    Disk.put_node_of_ne hfile]
  exact bareDisk_node hdir

theorem turn_bare_info : (turn sh logs (plainTurn k) { disk := bareDisk cwd D }).1.disk.node
    ((logs k).info cwd) = some (.file (Item.ofText (LogInfo.bytes ⟨1, 0⟩))) := by
  rw [turn_bare hfolder hown]
  exact rotated_info

theorem turn_bare_backup : (turn sh logs (plainTurn k) { disk := bareDisk cwd D }).1.disk.node
    ((logs k).backup cwd 0) = some (.file []) := by
  rw [turn_bare hfolder hown]
  exact rotated_target hown Disk.put_node_self

end Bare

/-- The backups of two logs with one counter are mixed up. -/
theorem not_separated_of_info (hd : Distinct cwd logs)
    (hinfo : (logs false).info cwd = (logs true).info cwd) :
    ¬Separated sh logs [plainTurn true, plainTurn false]
      { disk := bareDisk cwd (Path.resolve cwd (logs false).dir) } := by
  intro h
  have hfolder : Path.resolve cwd (logs true).dir = Path.resolve cwd (logs false).dir :=
    List.append_inj_left' hinfo.symm rfl
  have hown : logInfoPath (logs false).name ≠ (logs false).name := by
    intro hown
    refine hd.info false ?_
    rw [Bool.not_false, ← hinfo, LogFile.info, hown]
  have hown' : logInfoPath (logs true).name ≠ (logs true).name := by
    intro hown
    refine hd.info true ?_
    rw [Bool.not_true, hinfo, LogFile.info, hown]
  have hname {n : Name} := (logs false).path_ne_dir cwd n
  have hzero : (logs false).backup cwd 0 ≠ (logs true).backup cwd 0 := by
    intro hsame
    have hnames := List.singleton_injective (List.append_inj_right' hsame rfl)
    refine hd.name ?_
    rw [LogFile.path, LogFile.path, hfolder, List.append_cancel_right hnames]
  have hone : (logs false).backup cwd 1 ≠ (logs true).backup cwd 0 := by
    intro hsame
    have hnames := List.singleton_injective (List.append_inj_right' hsame rfl)
    have hlast := congrArg List.getLast? hnames
    have hprint : Decimal.print 0 0 = ['0'] ∧ Decimal.print 0 1 = ['1'] := by decide
    rw [backupFilePath, backupFilePath, hprint.1, hprint.2, List.getLast?_append,
      List.getLast?_append] at hlast
    cases hlast
  let d := (turn sh logs (plainTurn true)
    { disk := bareDisk cwd (Path.resolve cwd (logs false).dir) }).1.disk
  have hsame := turn_apart sh logs (plainTurn true)
    { disk := bareDisk cwd (Path.resolve cwd (logs false).dir) }
  have hcwd : d.cwd = cwd := hsame.cwd
  -- The first log finds the counter that the turn of the second has stored.
  have hstored : (logs false).Counter d ⟨1, 0⟩ := by
    refine .stored ?_ (by decide) (by decide)
    change d.node ((logs false).info d.cwd) = _
    rw [hcwd, hinfo]
    exact turn_bare_info hfolder hown'
  have hdir : d.IsDir (Path.resolve d.cwd (logs false).dir) := by
    rw [hcwd]
    exact (hsame.isDir _).mpr (bareDisk_isDir _ _)
  have hfile : d.node ((logs false).path d.cwd (logs false).name) = none := by
    rw [hcwd]
    exact turn_bare_none hfolder hown' hname.symm (hd.info false) hd.name
      (hd.backup false 0 (by decide))
  have hfree : d.node ((logs false).backup d.cwd 1) = none := by
    rw [hcwd]
    exact turn_bare_none hfolder hown' hname.symm (info_ne_backup _ _ _ _).symm
      (hd.backup true 1 (by decide)).symm hone
  have hmixed : ((turn sh logs).run [plainTurn true, plainTurn false]
      { disk := bareDisk cwd (Path.resolve cwd (logs false).dir) }).1.disk.node
        ((logs false).backup cwd 0) = none := by
    rw [Step.run_cons, Step.run_cons, Step.run_nil, turn_disk (plainTurn false),
      turn_rotated sh hstored hown hdir hfile hfree, ← hcwd]
    have hindex : (logs false).backup d.cwd 0 ≠ (logs false).backup d.cwd 1 := by
      rw [LogFile.backup, LogFile.backup, Ne, (logs false).path_inj, backupFilePath_inj]
      decide
    refine (rotated_other path_backup_ne_info path_name_ne_backup.symm ?_ (.inl ?_)).trans ?_
    · exact hindex
    · decide
    refine (Disk.put_node_of_ne path_name_ne_backup.symm).trans ?_
    rw [hcwd]
    exact turn_bare_none hfolder hown' hname.symm (info_ne_backup _ _ _ _).symm
      (hd.backup true 0 (by decide)).symm hzero
  have halone : ((turn sh logs).run [plainTurn false]
      { disk := bareDisk cwd (Path.resolve cwd (logs false).dir) }).1.disk.node
        ((logs false).backup cwd 0) = some (.file []) := turn_bare_backup rfl hown
  have hsep := h false 0 (by decide)
  exact Option.some_ne_none _ ((halone.symm.trans hsep.symm).trans hmixed)

/-- Two logs that are their own counters do not share a backup. -/
theorem name_eq_of_own {n m : Name} {i j : ℤ} (hn : logInfoPath n = n) (hm : logInfoPath m = m)
    (h : backupFilePath n i = backupFilePath m j) : n = m := by
  have hlast {n : Name} (hn : logInfoPath n = n) : n.getLast? = some 'o' := by
    obtain ⟨t, ht, -⟩ := logInfoPath_suffix n
    rw [← hn, ht, List.getLast?_append]
    rfl
  have hletter (i : ℤ) : 'o' ∉ '-' :: Decimal.print 0 i := by
    intro ho
    rcases List.mem_cons.mp ho with ho | ho
    · exact absurd ho (by decide)
    · rcases Decimal.mem_print ho with ho | ho <;> exact absurd ho (by decide)
  have hnil {s t u : Text} (hs : (s ++ t).getLast? = some 'o') (hu : 'o' ∉ t ++ u) : t = [] := by
    by_contra ht
    rw [List.getLast?_append_of_ne_nil s ht] at hs
    exact hu (List.mem_append_left u (List.mem_of_getLast? hs))
  rcases List.append_eq_append_iff.mp h with ⟨t, rfl, hp⟩ | ⟨t, rfl, hp⟩
  · rw [hnil (hlast hm) (hp ▸ hletter i), List.append_nil]
  · rw [hnil (hlast hn) (hp ▸ hletter j), List.append_nil]

/-- A counter whose next index is given. -/
def counterAt (i : ℤ) : LogInfo := if i < MAX_LOG_FILE_NUM then ⟨i, 0⟩ else ⟨63, i - 63⟩

theorem counterAt_target {i : ℤ} (h : Word.Fits i) : (counterAt i).target = i ∧
    Word.Fits (counterAt i).count ∧ Word.Fits (counterAt i).oldestIndex := by
  have hzero : Word.Fits 0 := by decide
  have hmax : Word.Fits 63 := by decide
  have hfull : ¬(63 : ℤ) < MAX_LOG_FILE_NUM := by decide
  by_cases hlt : i < MAX_LOG_FILE_NUM
  · rw [counterAt, if_pos hlt]
    exact ⟨if_pos hlt, h, hzero⟩
  · rw [counterAt, if_neg hlt]
    refine ⟨?_, hmax, ?_⟩
    · rw [LogInfo.target, if_neg hfull, Int.sub_add_cancel, Word.int32_of_fits h]
    · simp only [Word.Fits, MAX_LOG_FILE_NUM] at h hlt ⊢
      omega

/-- A backup of one log appears among those of the other. -/
theorem not_separated_of_backup {k : Bool} {i j : ℤ} (hi : Word.Fits i) (hj : Word.Fits j)
    (hsame : (logs k).backup cwd i = (logs !k).backup cwd j)
    (hown : logInfoPath (logs k).name ≠ (logs k).name) :
    ¬Separated sh logs [plainTurn k]
      { disk := (logs k).store (counterAt i) (bareDisk cwd (Path.resolve cwd (logs k).dir)) } := by
  intro h
  obtain ⟨htarget, hcount, hindex⟩ := counterAt_target hi
  let d := (logs k).store (counterAt i) (bareDisk cwd (Path.resolve cwd (logs k).dir))
  have hnone {n : Name} (hn : n ≠ logInfoPath (logs k).name) :
      d.node ((logs k).path cwd n) = none := by
    refine ((logs k).store_node_of_ne fun h => hn ?_).trans
      (bareDisk_node ((logs k).path_ne_dir cwd n).symm)
    exact (logs k).path_inj.mp h
  have hstored : (logs k).Counter d (counterAt i) := .stored Disk.put_node_self hcount hindex
  have hdir : d.IsDir (Path.resolve d.cwd (logs k).dir) :=
    (logs k).store_isDir.mpr (bareDisk_isDir _ _)
  have hbackup : d.node ((logs k).backup cwd i) = none := hnone (logInfoPath_ne_backup _ _ _).symm
  have hturn := turn_rotated sh hstored hown hdir (hnone hown.symm) (htarget.symm ▸ hbackup)
  have hmade : (turn sh logs (plainTurn k) { disk := d }).1.disk.node ((logs k).backup cwd i) =
      some (.file []) := by
    rw [hturn]
    have hnode : ((logs k).rotated (counterAt i)
        (d.put ((logs k).path d.cwd (logs k).name) (some (.file [])))).node
          ((logs k).backup cwd (counterAt i).target) = some (.file []) :=
      rotated_target hown Disk.put_node_self
    rwa [htarget] at hnode
  have hsep := h (!k) j hj
  rw [List.filter_cons_of_neg (by simp [plainTurn]), List.filter_nil, Step.run_nil, Step.run_cons,
    Step.run_nil] at hsep
  change (turn sh logs (plainTurn k) { disk := d }).1.disk.node ((logs !k).backup cwd j) =
    d.node ((logs !k).backup cwd j) at hsep
  rw [← hsame, hmade, hbackup] at hsep
  cases hsep

/-- In every run of whole rotations of two logs, in every order and whatever fails, the backups of
each log are those of its own rotations alone, exactly when the two logs have different counters
and no backup name in common. -/
theorem rotations_separate_iff (sh : Text → List (List Text)) (hd : Distinct cwd logs) :
    (∀ d : Disk, d.cwd = cwd → ∀ l, Separated sh logs l { disk := d }) ↔ Unshared cwd logs := by
  constructor
  · intro h
    refine ⟨fun hinfo => ?_, fun i j hi hj hsame => ?_⟩
    · exact not_separated_of_info hd hinfo (h _ rfl _)
    · by_cases hown : logInfoPath (logs false).name = (logs false).name
      · refine not_separated_of_backup (k := true) hj hi hsame.symm (fun hown' => ?_) (h _ rfl _)
        have hfolder : Path.resolve cwd (logs false).dir = Path.resolve cwd (logs true).dir :=
          List.append_inj_left' hsame rfl
        have hnames := List.singleton_injective (List.append_inj_right' hsame rfl)
        refine hd.name ?_
        rw [LogFile.path, LogFile.path, hfolder, name_eq_of_own hown hown' hnames]
      · exact not_separated_of_backup (k := false) hi hj hsame hown (h _ rfl _)
  · rintro hu d rfl l
    exact separated_of_unshared hd hu l

/-- Two logs in `/tmp`. -/
def tmpLogs (n m : Name) (hn : Path.Proper n) (hm : Path.Proper m) (k : Bool) : LogFile :=
  if k then tmpLog m hm else tmpLog n hn

/-- None of their names starts the other. -/
theorem distinct_tmpLogs {n m : Name} (hn : Path.Proper n) (hm : Path.Proper m) (hne : n ≠ m)
    (hinfo : n ≠ logInfoPath m) (hinfo' : m ≠ logInfoPath n) (hbackup : ¬n <+: m)
    (hbackup' : ¬m <+: n) : Distinct [] (tmpLogs n m hn hm) := by
  have hpath {n m n' m' : Name} {hn : Path.Proper n} {hm : Path.Proper m} (h : n' ≠ m') :
      (tmpLog n hn).path [] n' ≠ (tmpLog m hm).path [] m' :=
    fun hsame => h (List.singleton_injective (List.append_inj_right' hsame rfl))
  refine ⟨hpath hne, fun k => ?_, fun k i _ => ?_⟩
  · cases k with
    | false => exact hpath hinfo
    | true => exact hpath hinfo'
  · cases k with
    | false => exact hpath fun hsame => hbackup' ⟨_, hsame.symm⟩
    | true => exact hpath fun hsame => hbackup ⟨_, hsame.symm⟩

theorem separate_tmpLogs : (∀ d : Disk, d.cwd = [] → ∀ l, Separated (fun _ => [])
      (tmpLogs "a.txt".toList "b.txt".toList (by decide) (by decide)) l { disk := d }) ↔
    Unshared [] (tmpLogs "a.txt".toList "b.txt".toList (by decide) (by decide)) :=
  rotations_separate_iff (fun _ => [])
    (distinct_tmpLogs _ _ (by decide) (by decide) (by decide) (by decide) (by decide))

/-- `log.txt` and `log.csv` have one counter: after a rotation of the one the first backup of the
other is `log.txt-1`. -/
theorem extensions_mixed : ¬ ∀ (cwd : Path) (logs : Bool → LogFile), Distinct cwd logs →
    ∀ d : Disk, d.cwd = cwd → ∀ l, Separated (fun _ => []) logs l { disk := d } := by
  intro h
  have hd := distinct_tmpLogs (n := "log.txt".toList) (m := "log.csv".toList) (by decide)
    (by decide) (by decide) (by decide) (by decide) (by decide) (by decide)
  exact not_separated_of_info hd (by decide) (h _ _ hd _ rfl _)

end ConferenceCall.Log

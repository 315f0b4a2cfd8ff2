import ConferenceCall.Library.Guarded
import ConferenceCall.Log.Reading

/-! A rotation beside callers that append to the file, when every call succeeds and the file is
there to be renamed. The others leave the counter and the set of the backups alone; the rotation
takes away the oldest of 63 backups and overwrites none. -/

namespace ConferenceCall.Log

open Library Program

namespace LogFile

variable (log : LogFile)

/-- The log file or one of its backups. -/
def Keeps (cwd p : Path) : Prop := p = log.path cwd log.name ∨ ∃ k, p = log.backup cwd k

/-- The backups are 63, from this one on. -/
def AtLimit (d : Disk) (k : ℤ) : Prop :=
  ∀ j, log.Retains d j ↔ k ≤ j ∧ j < k + MAX_LOG_FILE_NUM

/-- The backups of a range, with something at the path of the counter. -/
structure Ranges (lo hi : ℤ) (n : Option Node) (d : Disk) : Prop where
  dir : d.IsDir (Path.resolve d.cwd log.dir)
  plain : ∀ p, log.Keeps d.cwd p → d.node p ≠ some .dir
  retained : ∀ k, log.Retains d k ↔ lo ≤ k ∧ k < hi
  info : d.node (log.info d.cwd) = n

/-- The backups are those a counter tells. -/
structure Whole (logInfo : LogInfo) (d : Disk) : Prop where
  counter : log.Counter d logInfo
  count : 0 ≤ logInfo.count ∧ logInfo.count ≤ MAX_LOG_FILE_NUM
  first : logInfo.count < MAX_LOG_FILE_NUM → logInfo.oldestIndex = 0
  ranges : log.Ranges logInfo.oldestIndex (logInfo.oldestIndex + logInfo.count)
    (d.node (log.info d.cwd)) d

/-- What the others do beside a rotation. -/
structure Beside (s u : State) : Prop where
  cwd : u.disk.cwd = s.disk.cwd
  info : u.disk.node (log.info s.disk.cwd) = s.disk.node (log.info s.disk.cwd)
  backups : ∀ k, log.Retains u.disk k ↔ log.Retains s.disk k
  dirs : ∀ p, u.disk.node p = some .dir ↔ s.disk.node p = some .dir
  opened : s.opened .fd = some ⟨log.info s.disk.cwd, false⟩ →
    s.disk.node (log.info s.disk.cwd) ≠ none → u.opened .fd = s.opened .fd

/-- The calls of a rotation and their effects. -/
inductive Fair : Event Call Call.Answer State → Prop
  | counting {c : Call} {r : c.Answer} {s t : State} (hc : log.Counting (fun _ => True) c)
      (hcwd : t.disk.cwd = s.disk.cwd)
      (hnode : ∀ p, p ≠ log.info s.disk.cwd → t.disk.node p = s.disk.node p)
      (hopened : t.opened .logFd = s.opened .logFd) : Fair ⟨c, r, s, t⟩
  | rename {s : State} {k : ℤ} {c : List Item}
      (hfile : s.disk.node (log.path s.disk.cwd log.name) = some (.file c))
      (hnew : s.disk.Creatable (backupFilePath log.text k)) :
      Fair ⟨.rename log.text (backupFilePath log.text k), true, s,
        s.move (log.path s.disk.cwd log.name) (log.backup s.disk.cwd k)⟩
  | unlink {s : State} {k : ℤ} {c : List Item} (hlimit : log.AtLimit s.disk k)
      (hfile : s.disk.lookup (backupFilePath log.text k) = some (.file c)) :
      Fair ⟨.unlink (backupFilePath log.text k), true, s,
        s.setDisk (s.disk.put (log.backup s.disk.cwd k) none)⟩

/-- The call succeeds, and the file is there to be renamed. -/
def Allowed (c : Call) (x : Choice) (s : State) : Prop :=
  x.Succeeds ∧ ∀ old new, c = .rename old new →
    s.disk.node (log.path s.disk.cwd log.name) ≠ none

end LogFile

variable {log : LogFile} {s t u : State} {lo hi : ℤ} {n : Option Node} {logInfo : LogInfo}

theorem LogFile.Beside.refl (s : State) : log.Beside s s :=
  ⟨rfl, rfl, fun _ => Iff.rfl, fun _ => Iff.rfl, fun _ _ => rfl⟩

theorem LogFile.Beside.trans (h : log.Beside s t) (h' : log.Beside t u) : log.Beside s u where
  cwd := h'.cwd.trans h.cwd
  info := by rw [← h.cwd, h'.info, h.cwd, h.info]
  backups k := (h'.backups k).trans (h.backups k)
  dirs p := (h'.dirs p).trans (h.dirs p)
  opened hopened hnode := by
    have hu := h.opened hopened hnode
    rw [← h.info] at hnode
    rw [← h.cwd] at hopened hnode
    exact (h'.opened (hu.trans hopened) hnode).trans hu

/-- The others keep what a rotation knows. -/
theorem LogFile.Ranges.beside (h : log.Ranges lo hi n s.disk) (hu : log.Beside s u) :
    log.Ranges lo hi n u.disk where
  dir := by
    have hdir := h.dir
    rw [hu.cwd]
    unfold Disk.IsDir at hdir ⊢
    refine hdir.imp_right fun hdir => ?_
    rcases hn : s.disk.node (Path.resolve s.disk.cwd log.dir) with _ | _ | c
    · simp [hn] at hdir
    · rw [(hu.dirs _).mpr hn]
      trivial
    · simp [hn] at hdir
  plain p hp hdir := by
    rw [hu.cwd] at hp
    exact h.plain p hp ((hu.dirs p).mp hdir)
  retained k := (hu.backups k).trans (h.retained k)
  info := by rw [hu.cwd, hu.info, h.info]

section Ranges

variable {d d' : Disk} {c : List Item}

theorem LogFile.Keeps.ne_info (hown : logInfoPath log.name ≠ log.name) {cwd p : Path}
    (h : log.Keeps cwd p) : p ≠ log.info cwd := by
  rcases h with rfl | ⟨k, rfl⟩
  · rw [LogFile.info, Ne, log.path_inj]
    exact hown.symm
  · exact backup_ne_info log cwd k

/-- Only the counter changes. -/
theorem LogFile.Ranges.counting (hown : logInfoPath log.name ≠ log.name)
    (h : log.Ranges lo hi n d) (hcwd : d'.cwd = d.cwd)
    (hnode : ∀ p, p ≠ log.info d.cwd → d'.node p = d.node p) :
    log.Ranges lo hi (d'.node (log.info d.cwd)) d' where
  dir := by
    rw [hcwd]
    exact (isDir_congr (hnode _ (log.path_ne_dir _ _))).mpr h.dir
  plain p hp := by
    rw [hcwd] at hp
    rw [hnode p (hp.ne_info hown)]
    exact h.plain p hp
  retained k := by
    rw [LogFile.Retains, hcwd, hnode _ (backup_ne_info log _ k)]
    exact h.retained k
  info := by rw [hcwd]

/-- The file becomes the backup after the last one. -/
theorem LogFile.Ranges.rename (hown : logInfoPath log.name ≠ log.name)
    (h : log.Ranges lo hi n d) (hle : lo ≤ hi)
    (hfile : d.node (log.path d.cwd log.name) = some (.file c)) :
    log.Ranges lo (hi + 1) n (d.move (log.path d.cwd log.name) (log.backup d.cwd hi)) := by
  have hne : log.path d.cwd log.name ≠ log.backup d.cwd hi := path_name_ne_backup
  have hother {p : Path} (hp : p ≠ log.path d.cwd log.name) (hp' : p ≠ log.backup d.cwd hi) :
      (d.move (log.path d.cwd log.name) (log.backup d.cwd hi)).node p = d.node p :=
    Disk.move_node_of_ne hp hp'
  refine ⟨?_, fun p hp => ?_, fun k => ?_, ?_⟩
  · rw [Disk.move_cwd]
    exact (isDir_congr (hother (log.path_ne_dir _ _) (log.path_ne_dir _ _))).mpr h.dir
  · rw [Disk.move_cwd] at hp
    by_cases hname : p = log.path d.cwd log.name
    · rw [hname, Disk.move_node_old hne]
      simp
    by_cases hnew : p = log.backup d.cwd hi
    · rw [hnew, Disk.move_node_new hne, hfile]
      simp
    · rw [hother hname hnew]
      exact h.plain p hp
  · rw [LogFile.Retains, Disk.move_cwd]
    by_cases hk : k = hi
    · rw [hk, Disk.move_node_new hne, hfile]
      simp only [ne_eq, reduceCtorEq, not_false_eq_true, true_iff]
      omega
    · have hbackup : log.backup d.cwd k ≠ log.backup d.cwd hi := by
        rwa [LogFile.backup, LogFile.backup, Ne, log.path_inj, backupFilePath_inj]
      rw [hother (p := log.backup d.cwd k) path_name_ne_backup.symm hbackup]
      refine (h.retained k).trans ?_
      omega
  · rw [Disk.move_cwd, hother (p := log.info d.cwd) ?_ (backup_ne_info log _ _).symm, h.info]
    rw [LogFile.info, Ne, log.path_inj]
    exact hown

/-- The first backup is removed. -/
theorem LogFile.Ranges.unlink (h : log.Ranges lo hi n d) :
    log.Ranges (lo + 1) hi n (d.put (log.backup d.cwd lo) none) := by
  refine ⟨(Disk.isDir_put_of_ne (log.path_ne_dir _ _)).mpr h.dir, fun p hp => ?_, fun k => ?_, ?_⟩
  · by_cases hlo : p = log.backup d.cwd lo
    · rw [hlo, Disk.put_node_self]
      simp
    · rw [Disk.put_node_of_ne hlo]
      exact h.plain p hp
  · rw [LogFile.Retains, Disk.put_cwd]
    by_cases hk : k = lo
    · rw [hk, Disk.put_node_self]
      simp
    · have hbackup : log.backup d.cwd k ≠ log.backup d.cwd lo := by
        rwa [LogFile.backup, LogFile.backup, Ne, log.path_inj, backupFilePath_inj]
      rw [Disk.put_node_of_ne hbackup]
      refine (h.retained k).trans ?_
      omega
  · rw [Disk.put_cwd, Disk.put_node_of_ne (backup_ne_info log _ _).symm, h.info]

end Ranges

variable (log) (sh : Text → List (List Text))

/-- A part of a rotation, beside the others. -/
abbrev Steady {α : Type} (Q : α → State → Prop) : Prog α → State → Prop :=
  Guarded (perform sh) log.Allowed log.Beside log.Fair Q

variable {log sh} {α : Type} {Q : α → State → Prop} {A : State → Prop}

theorem steady_call {c : Call} {next : c.Answer → Prog α} (hs : A s)
    (hstable : ∀ s u, A s → log.Beside s u → A u)
    (h : ∀ x u, A u → log.Allowed c x u → log.Fair (event sh c x u) ∧
      Steady log sh Q (next (act sh c x u).1) (act sh c x u).2) :
    Steady log sh Q (.call c next) s := by
  refine guarded_call hs hstable fun u x r t hu hx hc => ?_
  rw [perform_eq_some] at hc
  have hact := h x u hu hx
  rw [event, hc.2] at hact
  exact hact

/-- The counter is open. -/
def LogFile.Holding (log : LogFile) (lo hi : ℤ) (c : List Item) (u : State) : Prop :=
  log.Ranges lo hi (some (.file c)) u.disk ∧ u.opened .fd = some ⟨log.info u.disk.cwd, false⟩

theorem LogFile.Holding.beside {c : List Item} (h : log.Holding lo hi c s)
    (hu : log.Beside s u) : log.Holding lo hi c u := by
  refine ⟨h.1.beside hu, ?_⟩
  rw [hu.opened h.2 (by simp [h.1.info]), h.2, hu.cwd]

theorem steady_open {creates : Bool} {c : List Item}
    (h : log.Ranges lo hi (some (.file c)) s.disk) {next : Bool → Prog α}
    (hnext : ∀ u, log.Holding lo hi c u → Steady log sh Q (next true) u) :
    Steady log sh Q (.call (.openFile .fd (logInfoPath log.text) creates false) next) s := by
  refine steady_call h (fun s u hs hu => LogFile.Ranges.beside hs hu) fun x u hu hx => ?_
  have hlookup : u.disk.lookup (logInfoPath log.text) = some (.file c) := by
    rw [lookup_info, hu.info]
  have hact : act sh (.openFile .fd (logInfoPath log.text) creates false) x u = _ :=
    act_openFile_file (by simp [hx.1.1]) hlookup
  rw [event, hact]
  refine ⟨.counting ⟨rfl, rfl⟩ rfl (fun _ _ => rfl) ?_, hnext _ ⟨hu, ?_⟩⟩
  · simp [State.setOpen]
  · simp [State.setOpen, info_text]

theorem steady_write {logInfo : LogInfo} (hown : logInfoPath log.name ≠ log.name)
    {c : List Item} (hlen : c.length ≤ 8) (h : log.Holding lo hi c s)
    {next : Option ℕ → Prog α} (hnext : ∀ r u,
      log.Ranges lo hi (some (.file (Item.ofText logInfo.bytes))) u.disk →
        Steady log sh Q (next r) u) :
    Steady log sh Q (.call (.write .fd logInfo.bytes) next) s := by
  refine steady_call h (fun s u hs hu => LogFile.Holding.beside hs hu) fun x u hu hx => ?_
  obtain ⟨hranges, hopened⟩ := hu
  have htarget : u.target .fd = some (⟨log.info u.disk.cwd, false⟩, c) := by
    rw [State.target, hopened, Option.bind_some, Disk.content_eq_some.mpr hranges.info]
    rfl
  have hact : act sh (.write .fd logInfo.bytes) x u = _ := act_write hx.1.1 htarget
  have hdrop : c.drop logInfo.bytes.length = [] := List.drop_of_length_le hlen
  simp only [Bool.false_eq_true, if_false, hdrop, List.append_nil] at hact
  rw [event, hact]
  have hnode (p : Path) (hp : p ≠ log.info u.disk.cwd) := Disk.put_node_of_ne (d := u.disk)
    (n := some (.file (Item.ofText logInfo.bytes))) hp
  refine ⟨.counting ⟨rfl, trivial⟩ rfl hnode rfl, hnext _ _ ?_⟩
  have hput : log.Ranges lo hi _ (u.disk.put (log.info u.disk.cwd)
      (some (.file (Item.ofText logInfo.bytes)))) := hranges.counting hown rfl hnode
  rwa [Disk.put_node_self] at hput

/-- A call that looks at the counter, or closes it. -/
theorem steady_look {c : Call} (hc : log.Counting (fun _ => True) c) {next : c.Answer → Prog α}
    (hs : A s) (hstable : ∀ s u, A s → log.Beside s u → A u)
    (hsame : ∀ x u, (act sh c x u).2.disk = u.disk ∧
      (act sh c x u).2.opened .logFd = u.opened .logFd)
    (hnext : ∀ x u, A u → log.Allowed c x u → Steady log sh Q (next (act sh c x u).1)
      (act sh c x u).2) : Steady log sh Q (.call c next) s := by
  refine steady_call hs hstable fun x u hu hx => ⟨?_, hnext x u hu hx⟩
  obtain ⟨hdisk, hopened⟩ := hsame x u
  exact .counting hc (by rw [hdisk]) (fun _ _ => by rw [hdisk]) hopened

theorem steady_close {next : Unit → Prog α} (h : log.Ranges lo hi n s.disk)
    (hnext : ∀ u, log.Ranges lo hi n u.disk → Steady log sh Q (next ()) u) :
    Steady log sh Q (.call (.close .fd) next) s := by
  have hc : log.Counting (fun _ => True) (.close .fd) := trivial
  refine steady_look hc h (fun s u hs hu => LogFile.Ranges.beside hs hu) (fun x u => ⟨rfl, ?_⟩)
    fun x u hu _ => hnext _ hu
  simp [act, State.setOpen]

theorem steady_create (hown : logInfoPath log.name ≠ log.name) (h : log.Ranges lo hi none s.disk)
    {next : Bool → Prog α}
    (hnext : ∀ u, log.Holding lo hi [] u → Steady log sh Q (next true) u) :
    Steady log sh Q (.call (.openFile .fd (logInfoPath log.text) true false) next) s := by
  refine steady_call h (fun s u hs hu => LogFile.Ranges.beside hs hu) fun x u hu hx => ?_
  have hcreatable : u.disk.Creatable (logInfoPath log.text) := by
    rw [log.logInfoPath_text]
    exact (LogFile.creatable_text (proper_logInfoPath log.proper)).mpr ⟨hu.info, hu.dir⟩
  have hact : act sh (.openFile .fd (logInfoPath log.text) true false) x u = _ :=
    act_openFile_new (by simp [hx.1.1]) hcreatable
  rw [info_text] at hact
  rw [event, hact]
  have hnode (p : Path) (hp : p ≠ log.info u.disk.cwd) := Disk.put_node_of_ne (d := u.disk)
    (n := some (.file [])) hp
  refine ⟨.counting ⟨rfl, rfl⟩ rfl hnode ?_, hnext _ ⟨?_, ?_⟩⟩
  · simp [State.setOpen]
  · have hput : log.Ranges lo hi _ (u.disk.put (log.info u.disk.cwd) (some (.file []))) :=
      hu.counting hown rfl hnode
    rwa [Disk.put_node_self] at hput
  · simp [State.setOpen]

/-- Reading the counter makes its file. -/
theorem steady_ReadLogInfo {Q : LogInfo → State → Prop} (hown : logInfoPath log.name ≠ log.name)
    (h : log.Whole logInfo s.disk) (hQ : ∀ u, log.Ranges logInfo.oldestIndex
      (logInfo.oldestIndex + logInfo.count) (some (.file (Item.ofText logInfo.bytes))) u.disk →
        Q logInfo u) : Steady log sh Q (ReadLogInfo log.text) s := by
  have hstable {lo hi : ℤ} {n : Option Node} (s u : State) (hs : log.Ranges lo hi n s.disk)
      (hu : log.Beside s u) : log.Ranges lo hi n u.disk := hs.beside hu
  have hstat : log.Counting (fun _ => True) (.stat (logInfoPath log.text)) := trivial
  have hranges := h.ranges
  simp only [ReadLogInfo, request_bind]
  cases h.counter with
  | missing hinfo hdir =>
    rw [LogFile.info, hinfo] at hranges
    refine steady_look hstat hranges hstable (fun x u => ⟨rfl, rfl⟩) fun x u hu _ => ?_
    simp only [act, lookup_info, hu.info, Option.map_none, Option.isNone_none, if_true]
    refine steady_create hown hu fun v hv => ?_
    simp only [if_true]
    refine steady_write (c := []) hown (Nat.zero_le 8) hv fun r w hw => steady_close hw fun w' hw' => ?_
    exact guarded_pure (A := fun u => log.Ranges 0 (0 + 0) _ u.disk) hw' hstable hQ
  | stored hinfo hcount hindex =>
    rw [LogFile.info, hinfo] at hranges
    refine steady_look hstat hranges hstable (fun x u => ⟨rfl, rfl⟩) fun x u hu _ => ?_
    simp only [act, lookup_info, hu.info, Option.map_some, Option.isNone_some, Bool.false_eq_true,
      if_false]
    have hmemory : log.Counting (fun _ => True) .uninitialised := trivial
    refine steady_look hmemory hu hstable (fun x u => ⟨rfl, rfl⟩) fun x u hu _ => ?_
    refine steady_open hu fun v hv => ?_
    simp only [if_true]
    have hread : log.Counting (fun _ => True) (.read .fd LogInfo.byteSize) := trivial
    refine steady_look hread hv (fun s u hs hu => LogFile.Holding.beside hs hu)
      (fun x u => ⟨rfl, rfl⟩) fun y w hw hy => ?_
    have htarget : w.target .fd =
        some (⟨log.info w.disk.cwd, false⟩, Item.ofText logInfo.bytes) := by
      rw [State.target, hw.2, Option.bind_some, Disk.content_eq_some.mpr hw.1.info]
      rfl
    have hbytes : logInfo.bytes.length ≤ LogInfo.byteSize := Nat.le_refl 8
    rw [act_read hy.1.1 htarget, Item.text_ofText, List.take_of_length_le hbytes]
    refine steady_close hw.1 fun w' hw' => ?_
    rw [LogInfo.ofBytes_bytes hcount hindex]
    exact guarded_pure (A := fun u => log.Ranges _ _ _ u.disk) hw' hstable hQ

/-- The whole counter is replaced. -/
theorem steady_WriteLogInfo {Q : Unit → State → Prop} (hown : logInfoPath log.name ≠ log.name)
    {c : List Item} (hlen : c.length ≤ 8) (h : log.Ranges lo hi (some (.file c)) s.disk)
    (hQ : ∀ u, log.Ranges lo hi (some (.file (Item.ofText logInfo.bytes))) u.disk → Q () u) :
    Steady log sh Q (WriteLogInfo log.text logInfo) s := by
  simp only [WriteLogInfo, request_bind]
  refine steady_open h fun u hu => ?_
  simp only [if_true]
  refine steady_write hown hlen hu fun r v hv => steady_close hv fun w hw => ?_
  exact guarded_pure (A := fun u => log.Ranges lo hi _ u.disk) hw
    (fun s u hs hu => LogFile.Ranges.beside hs hu) hQ

theorem steady_rename {next : Bool → Prog α} (hown : logInfoPath log.name ≠ log.name)
    (hle : lo ≤ hi) (h : log.Ranges lo hi n s.disk)
    (hnext : ∀ u, log.Ranges lo (hi + 1) n u.disk → Steady log sh Q (next true) u) :
    Steady log sh Q (.call (.rename log.text (backupFilePath log.text hi)) next) s := by
  refine steady_call h (fun s u hs hu => LogFile.Ranges.beside hs hu) fun x u hu hx => ?_
  obtain ⟨c, hfile⟩ : ∃ c, u.disk.node (log.path u.disk.cwd log.name) = some (.file c) := by
    have hplain := hu.plain _ (.inl rfl)
    rcases hn : u.disk.node (log.path u.disk.cwd log.name) with _ | _ | c
    · exact absurd hn (hx.2 _ _ rfl)
    · exact absurd hn hplain
    · exact ⟨c, rfl⟩
  have hfree : ¬log.Retains u.disk hi := by
    rw [hu.retained]
    omega
  have hold : u.disk.lookup log.text = some (.file c) :=
    (LogFile.lookup_text log.proper).trans hfile
  have hnew : u.disk.Creatable (backupFilePath log.text hi) := by
    rw [log.backupFilePath_text]
    exact (LogFile.creatable_text (proper_backupFilePath log.proper hi)).mpr
      ⟨not_not.mp hfree, hu.dir⟩
  have hpath : u.disk.path log.text = log.path u.disk.cwd log.name := LogFile.path_text log.proper
  have hact : act sh (.rename log.text (backupFilePath log.text hi)) x u = _ :=
    act_rename (by simp [hx.1.1]) hold hnew
  rw [hpath, backup_text] at hact
  rw [event, hact]
  exact ⟨.rename hfile hnew, hnext _ (hu.rename hown hle hfile)⟩

theorem steady_unlink {next : Bool → Prog α} (h : log.Ranges lo (lo + MAX_LOG_FILE_NUM) n s.disk)
    (hnext : ∀ u, log.Ranges (lo + 1) (lo + MAX_LOG_FILE_NUM) n u.disk →
      Steady log sh Q (next true) u) :
    Steady log sh Q (.call (.unlink (backupFilePath log.text lo)) next) s := by
  refine steady_call h (fun s u hs hu => LogFile.Ranges.beside hs hu) fun x u hu hx => ?_
  have hretained : log.Retains u.disk lo := by
    rw [hu.retained, MAX_LOG_FILE_NUM]
    omega
  obtain ⟨c, hfile⟩ : ∃ c, u.disk.node (log.backup u.disk.cwd lo) = some (.file c) := by
    have hplain := hu.plain _ (.inr ⟨lo, rfl⟩)
    rcases hn : u.disk.node (log.backup u.disk.cwd lo) with _ | _ | c
    · exact absurd hn hretained
    · exact absurd hn hplain
    · exact ⟨c, rfl⟩
  have hlookup : u.disk.lookup (backupFilePath log.text lo) = some (.file c) := by
    rw [log.backupFilePath_text, LogFile.lookup_text (proper_backupFilePath log.proper lo)]
    exact hfile
  have hact : act sh (.unlink (backupFilePath log.text lo)) x u = _ :=
    act_unlink (by simp [hx.1.1]) hlookup
  rw [backup_text] at hact
  rw [event, hact]
  exact ⟨.unlink hu.retained hlookup, hnext _ hu.unlink⟩

theorem LogFile.Ranges.whole {d : Disk} (h : log.Ranges logInfo.oldestIndex
      (logInfo.oldestIndex + logInfo.count) (some (.file (Item.ofText logInfo.bytes))) d)
    (hindex : Word.Fits logInfo.oldestIndex)
    (hcount : 0 ≤ logInfo.count ∧ logInfo.count ≤ MAX_LOG_FILE_NUM)
    (hfirst : logInfo.count < MAX_LOG_FILE_NUM → logInfo.oldestIndex = 0) :
    log.Whole logInfo d := by
  have hfits : Word.Fits logInfo.count := by
    simp only [MAX_LOG_FILE_NUM] at hcount
    simp only [Word.Fits]
    omega
  refine ⟨.stored h.info hfits hindex, hcount, hfirst, ?_⟩
  rw [h.info]
  exact h

/-- A rotation beside others. -/
theorem steady_BackupLogFile (hown : logInfoPath log.name ≠ log.name)
    (h : log.Whole logInfo s.disk)
    (hfits : Word.Fits (logInfo.oldestIndex + MAX_LOG_FILE_NUM)) :
    Steady log sh (fun _ u => ∃ logInfo, log.Whole logInfo u.disk) (BackupLogFile log.text) s := by
  have hlen : (Item.ofText logInfo.bytes).length ≤ 8 := Nat.le_refl 8
  obtain ⟨hlow, hhigh⟩ := h.count
  rw [BackupLogFile]
  refine guarded_bind LogFile.Beside.refl (steady_ReadLogInfo hown h fun u hu => ?_)
  simp only [rotate, request_bind]
  split_ifs with hcount
  · have hfirst := h.first hcount
    rw [hfirst, zero_add] at hu
    refine steady_rename hown hlow hu fun v hv => steady_WriteLogInfo hown hlen hv fun w hw => ?_
    refine ⟨{ logInfo with count := logInfo.count + 1 }, LogFile.Ranges.whole ?_ ?_ ?_ ?_⟩
    · simpa only [hfirst, zero_add] using hw
    · simp only [hfirst, Word.Fits]
      omega
    · simp only
      omega
    · exact fun _ => hfirst
  · have hmax : logInfo.count = MAX_LOG_FILE_NUM := by omega
    have hindex : Word.Fits (logInfo.oldestIndex + 1) := by
      simp only [MAX_LOG_FILE_NUM, Word.Fits] at hfits ⊢
      cases h.counter with
      | missing _ _ => decide
      | stored _ _ hindex =>
        simp only [Word.Fits] at hindex
        omega
    rw [hmax] at hu ⊢
    rw [Word.int32_of_fits hfits, Word.int32_of_fits hindex]
    refine steady_unlink hu fun v hv => ?_
    have hle : logInfo.oldestIndex + 1 ≤ logInfo.oldestIndex + MAX_LOG_FILE_NUM := by
      rw [MAX_LOG_FILE_NUM]
      omega
    refine steady_rename hown hle hv fun w hw => steady_WriteLogInfo hown hlen hw fun w' hw' => ?_
    refine ⟨{ logInfo with oldestIndex := logInfo.oldestIndex + 1 }, LogFile.Ranges.whole ?_ hindex
      h.count fun hlt => absurd hlt hcount⟩
    simp only [hmax]
    rwa [add_right_comm]

end ConferenceCall.Log

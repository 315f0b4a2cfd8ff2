import ConferenceCall.Log.Rotation

/-! What a rotation does when every call succeeds. -/

namespace ConferenceCall.Log

open Library Program

namespace LogFile

variable {log : LogFile} {d : Disk} {n : Name}

theorem path_text (hn : Path.Proper n) : d.path (log.dir ++ n) = log.path d.cwd n :=
  Path.resolve_proper d.cwd log.folder hn

theorem getLast?_text (hn : Path.Proper n) : (log.dir ++ n).getLast? ≠ some '/' := by
  rw [List.getLast?_append_of_ne_nil _ hn.1]
  exact fun h => hn.2.2.2 (List.mem_of_getLast? h)

theorem lookup_text (hn : Path.Proper n) : d.lookup (log.dir ++ n) = d.node (log.path d.cwd n) := by
  have hne : log.dir ++ n ≠ [] := by simp [hn.1]
  rw [Disk.lookup, path_text hn]
  rcases d.node (log.path d.cwd n) with _ | _ | c
  · exact if_neg hne
  · exact if_neg hne
  · exact if_neg (getLast?_text hn)

theorem isFile_text (hn : Path.Proper n) :
    d.isFile (log.dir ++ n) = (d.content (log.path d.cwd n)).isSome := by
  rw [Disk.isFile, Disk.content, lookup_text hn]
  rcases d.node (log.path d.cwd n) with _ | _ | c <;> rfl

theorem creatable_text (hn : Path.Proper n) : d.Creatable (log.dir ++ n) ↔
    d.node (log.path d.cwd n) = none ∧ d.IsDir (Path.resolve d.cwd log.dir) := by
  have hne : log.path d.cwd n ≠ [] := by simp [path]
  have hdrop : (log.path d.cwd n).dropLast = Path.resolve d.cwd log.dir := List.dropLast_concat
  rw [Disk.Creatable, path_text hn, hdrop]
  exact ⟨fun h => ⟨h.1, h.2.2.2⟩, fun h => ⟨h.1, getLast?_text hn, hne, h.2⟩⟩

theorem target_text {s : State} {f : Fd} {appends : Bool} {c : List Item} (hn : Path.Proper n)
    (h : s.disk.node (log.path s.disk.cwd n) = some (.file c)) :
    (s.setOpen f (some ⟨s.disk.path (log.dir ++ n), appends⟩)).target f =
      some (⟨s.disk.path (log.dir ++ n), appends⟩, c) :=
  target_setOpen (by rw [path_text hn, h])

/-- What the file of the counter stands for: a missing one for no backups. -/
inductive Counter (log : LogFile) (d : Disk) : LogInfo → Prop
  | missing (hinfo : d.node (log.path d.cwd (logInfoPath log.name)) = none)
      (hdir : d.IsDir (Path.resolve d.cwd log.dir)) : Counter log d ⟨0, 0⟩
  | stored {logInfo : LogInfo} (hinfo : d.node (log.path d.cwd (logInfoPath log.name)) =
      some (.file (Item.ofText logInfo.bytes))) (hcount : Word.Fits logInfo.count)
      (hindex : Word.Fits logInfo.oldestIndex) : Counter log d logInfo

theorem Counter.put {logInfo : LogInfo} {p : Path} {m : Option Node} (h : log.Counter d logInfo)
    (hinfo : log.path d.cwd (logInfoPath log.name) ≠ p) (hdir : Path.resolve d.cwd log.dir ≠ p) :
    log.Counter (d.put p m) logInfo := by
  cases h with
  | missing h h' =>
    have hnode : (d.put p m).node (log.path d.cwd (logInfoPath log.name)) = none := by
      rw [Disk.put_node_of_ne hinfo, h]
    exact .missing hnode ((Disk.isDir_put_of_ne hdir).mpr h')
  | stored h hcount hindex =>
    have hnode : (d.put p m).node (log.path d.cwd (logInfoPath log.name)) =
        some (.file (Item.ofText logInfo.bytes)) := by
      rw [Disk.put_node_of_ne hinfo, h]
    exact .stored hnode hcount hindex

/-- The text of the file; a missing file has none. -/
def HasText (log : LogFile) (d : Disk) (text : Text) : Prop :=
  d.node (log.path d.cwd log.name) = some (.file (Item.ofText text)) ∨
    text = [] ∧ d.node (log.path d.cwd log.name) = none

/-- Store a counter. -/
def store (log : LogFile) (logInfo : LogInfo) (d : Disk) : Disk :=
  d.put (log.path d.cwd (logInfoPath log.name)) (some (.file (Item.ofText logInfo.bytes)))

/-- Remove a backup, if there is one. -/
def drop (log : LogFile) (i : ℤ) (d : Disk) : Disk :=
  if (d.content (log.path d.cwd (backupFilePath log.name i))).isSome then
    d.put (log.path d.cwd (backupFilePath log.name i)) none
  else d

/-- Make the file a backup, if there is one. -/
def shift (log : LogFile) (i : ℤ) (d : Disk) : Disk :=
  if (d.content (log.path d.cwd log.name)).isSome then
    d.move (log.path d.cwd log.name) (log.path d.cwd (backupFilePath log.name i))
  else d

/-- The disk before the file is renamed. -/
def cleared (log : LogFile) (logInfo : LogInfo) (d : Disk) : Disk :=
  if logInfo.count < MAX_LOG_FILE_NUM then log.store logInfo d
  else log.drop logInfo.oldestIndex (log.store logInfo d)

/-- The disk after a rotation. -/
def rotated (log : LogFile) (logInfo : LogInfo) (d : Disk) : Disk :=
  log.store logInfo.next (log.shift logInfo.target (log.cleared logInfo d))

variable (log) {logInfo : LogInfo} {i : ℤ} {p : Path}

@[simp] theorem store_cwd : (log.store logInfo d).cwd = d.cwd := rfl

@[simp] theorem drop_cwd : (log.drop i d).cwd = d.cwd := by
  unfold drop
  split <;> rfl

@[simp] theorem shift_cwd : (log.shift i d).cwd = d.cwd := by
  unfold shift
  split
  · exact Disk.move_cwd
  · rfl

theorem store_node_info : (log.store logInfo d).node (log.path d.cwd (logInfoPath log.name)) =
    some (.file (Item.ofText logInfo.bytes)) := Disk.put_node_self

theorem store_node_of_ne (h : p ≠ log.path d.cwd (logInfoPath log.name)) :
    (log.store logInfo d).node p = d.node p := Disk.put_node_of_ne h

theorem drop_node_of_ne (h : p ≠ log.path d.cwd (backupFilePath log.name i)) :
    (log.drop i d).node p = d.node p := by
  unfold drop
  split
  · exact Disk.put_node_of_ne h
  · rfl

theorem drop_none (h : d.node (log.path d.cwd (backupFilePath log.name i)) = none) :
    log.drop i d = d := by
  simp [drop, Disk.content, h]

theorem drop_node_none (h : d.node p = none) : (log.drop i d).node p = none := by
  unfold drop
  split
  · by_cases hp : p = log.path d.cwd (backupFilePath log.name i)
    · rw [hp, Disk.put_node_self]
    · rw [Disk.put_node_of_ne hp, h]
  · exact h

theorem shift_node_of_ne (h : p ≠ log.path d.cwd log.name)
    (h' : p ≠ log.path d.cwd (backupFilePath log.name i)) : (log.shift i d).node p = d.node p := by
  unfold shift
  split
  · exact Disk.move_node_of_ne h h'
  · rfl

theorem store_isDir : (log.store logInfo d).IsDir (Path.resolve d.cwd log.dir) ↔
    d.IsDir (Path.resolve d.cwd log.dir) := Disk.isDir_put_of_ne (log.path_ne_dir _ _)

theorem drop_isDir : (log.drop i d).IsDir (Path.resolve d.cwd log.dir) ↔
    d.IsDir (Path.resolve d.cwd log.dir) := by
  unfold drop
  split
  · exact Disk.isDir_put_of_ne (log.path_ne_dir _ _)
  · rfl

theorem shift_isDir : (log.shift i d).IsDir (Path.resolve d.cwd log.dir) ↔
    d.IsDir (Path.resolve d.cwd log.dir) := by
  rw [Disk.IsDir, Disk.IsDir, log.shift_node_of_ne (log.path_ne_dir _ _) (log.path_ne_dir _ _)]

theorem drop_node_self (h : d.node (log.path d.cwd (backupFilePath log.name i)) ≠ some .dir) :
    (log.drop i d).node (log.path d.cwd (backupFilePath log.name i)) = none := by
  unfold drop Disk.content
  rcases hn : d.node (log.path d.cwd (backupFilePath log.name i)) with _ | _ | c
  · simp [hn]
  · exact absurd hn h
  · exact Disk.put_node_self

theorem shift_node_new {c : List Item} (h : d.node (log.path d.cwd log.name) = some (.file c)) :
    (log.shift i d).node (log.path d.cwd (backupFilePath log.name i)) = some (.file c) := by
  rw [shift, Disk.content_eq_some.mpr h, Option.isSome_some, if_pos rfl, Disk.move_node_new, h]
  rw [Ne, log.path_inj]
  exact (backupFilePath_ne log.name i).symm

theorem shift_node_old (h : d.node (log.path d.cwd log.name) ≠ some .dir) :
    (log.shift i d).node (log.path d.cwd log.name) = none := by
  unfold shift Disk.content
  rcases hn : d.node (log.path d.cwd log.name) with _ | _ | c
  · simp [hn]
  · exact absurd hn h
  · refine Disk.move_node_old ?_
    rw [Ne, log.path_inj]
    exact (backupFilePath_ne log.name i).symm

end LogFile

section Rotated

variable {log : LogFile} {d : Disk} {logInfo : LogInfo} {i : ℤ} {p : Path}

@[simp] theorem cleared_cwd : (log.cleared logInfo d).cwd = d.cwd := by
  unfold LogFile.cleared
  split
  · rfl
  · exact log.drop_cwd

theorem cleared_of_ne (hinfo : p ≠ log.path d.cwd (logInfoPath log.name))
    (hdrop : logInfo.count < MAX_LOG_FILE_NUM ∨
      p ≠ log.path d.cwd (backupFilePath log.name logInfo.oldestIndex)) :
    (log.cleared logInfo d).node p = d.node p := by
  unfold LogFile.cleared
  split_ifs with hcount
  · exact log.store_node_of_ne hinfo
  · have hp : p ≠ log.path (log.store logInfo d).cwd (backupFilePath log.name logInfo.oldestIndex) :=
      hdrop.resolve_left hcount
    rw [log.drop_node_of_ne hp, log.store_node_of_ne hinfo]

@[simp] theorem rotated_cwd : (log.rotated logInfo d).cwd = d.cwd := by
  rw [LogFile.rotated, log.store_cwd, log.shift_cwd, cleared_cwd]

theorem rotated_info : (log.rotated logInfo d).node (log.path d.cwd (logInfoPath log.name)) =
    some (.file (Item.ofText logInfo.next.bytes)) := by
  have hcwd : (log.shift logInfo.target (log.cleared logInfo d)).cwd = d.cwd := by
    rw [log.shift_cwd, cleared_cwd]
  rw [LogFile.rotated, ← hcwd, log.store_node_info]

/-- Beside the counter, only the file and two backups change. -/
theorem rotated_of_ne (hinfo : p ≠ log.path d.cwd (logInfoPath log.name)) :
    (log.rotated logInfo d).node p = (log.shift logInfo.target (log.cleared logInfo d)).node p := by
  rw [LogFile.rotated, log.store_node_of_ne]
  rwa [log.shift_cwd, cleared_cwd]

theorem rotated_other (hinfo : p ≠ log.path d.cwd (logInfoPath log.name))
    (hfile : p ≠ log.path d.cwd log.name)
    (htarget : p ≠ log.path d.cwd (backupFilePath log.name logInfo.target))
    (hdrop : logInfo.count < MAX_LOG_FILE_NUM ∨
      p ≠ log.path d.cwd (backupFilePath log.name logInfo.oldestIndex)) :
    (log.rotated logInfo d).node p = d.node p := by
  rw [rotated_of_ne hinfo, log.shift_node_of_ne (by rwa [cleared_cwd]) (by rwa [cleared_cwd]),
    cleared_of_ne hinfo hdrop]

theorem rotated_isDir : (log.rotated logInfo d).IsDir (Path.resolve d.cwd log.dir) ↔
    d.IsDir (Path.resolve d.cwd log.dir) := by
  rw [Disk.IsDir, Disk.IsDir, rotated_other (log.path_ne_dir _ _) (log.path_ne_dir _ _)
    (log.path_ne_dir _ _) (.inr (log.path_ne_dir _ _))]

theorem path_backup_ne_info : log.path d.cwd (backupFilePath log.name i) ≠
    log.path d.cwd (logInfoPath log.name) := by
  rw [Ne, log.path_inj]
  exact (logInfoPath_ne_backup _ _ _).symm

theorem path_name_ne_backup :
    log.path d.cwd log.name ≠ log.path d.cwd (backupFilePath log.name i) := by
  rw [Ne, log.path_inj]
  exact (backupFilePath_ne log.name i).symm

variable (hown : logInfoPath log.name ≠ log.name)
include hown

theorem cleared_file : (log.cleared logInfo d).node (log.path d.cwd log.name) =
    d.node (log.path d.cwd log.name) :=
  cleared_of_ne (by rw [Ne, log.path_inj]; exact hown.symm) (.inr path_name_ne_backup)

theorem rotated_file (h : d.node (log.path d.cwd log.name) ≠ some .dir) :
    (log.rotated logInfo d).node (log.path d.cwd log.name) = none := by
  have hshift : (log.shift logInfo.target (log.cleared logInfo d)).node
      (log.path (log.cleared logInfo d).cwd log.name) = none := by
    refine log.shift_node_old ?_
    rwa [cleared_cwd, cleared_file hown]
  rw [rotated_of_ne (by rw [Ne, log.path_inj]; exact hown.symm)]
  rwa [cleared_cwd] at hshift

theorem rotated_target {c : List Item} (h : d.node (log.path d.cwd log.name) = some (.file c)) :
    (log.rotated logInfo d).node (log.path d.cwd (backupFilePath log.name logInfo.target)) =
      some (.file c) := by
  have hshift : (log.shift logInfo.target (log.cleared logInfo d)).node
      (log.path (log.cleared logInfo d).cwd (backupFilePath log.name logInfo.target)) =
        some (.file c) := by
    refine log.shift_node_new ?_
    rw [cleared_cwd, cleared_file hown, h]
  rw [rotated_of_ne path_backup_ne_info]
  rwa [cleared_cwd] at hshift

omit hown in
theorem rotated_dropped (hcount : ¬logInfo.count < MAX_LOG_FILE_NUM)
    (hne : logInfo.oldestIndex ≠ logInfo.target)
    (h : d.node (log.path d.cwd (backupFilePath log.name logInfo.oldestIndex)) ≠ some .dir) :
    (log.rotated logInfo d).node
      (log.path d.cwd (backupFilePath log.name logInfo.oldestIndex)) = none := by
  rw [rotated_of_ne path_backup_ne_info, log.shift_node_of_ne
    (by rw [cleared_cwd]; exact path_name_ne_backup.symm)
    (by rw [cleared_cwd, Ne, log.path_inj, backupFilePath_inj]; exact hne),
    LogFile.cleared, if_neg hcount]
  refine log.drop_node_self ?_
  rwa [log.store_cwd, log.store_node_of_ne path_backup_ne_info]

end Rotated

theorem LogInfo.ofBytes_bytes {logInfo : LogInfo} (hcount : Word.Fits logInfo.count)
    (hindex : Word.Fits logInfo.oldestIndex) (rest : Text) :
    LogInfo.ofBytes (logInfo.bytes ++ rest) = logInfo := by
  have hdrop : (logInfo.bytes ++ rest).drop 4 = Word.bytes logInfo.oldestIndex ++ rest := by
    rw [LogInfo.bytes, List.append_assoc]
    rfl
  rw [LogInfo.ofBytes, hdrop, Word.ofBytes_bytes, LogInfo.bytes, List.append_assoc,
    Word.ofBytes_bytes, Word.int32_of_fits hcount, Word.int32_of_fits hindex]

/-- The counter in its file; a missing one stands for the initial counter. -/
def LogFile.counterOf (log : LogFile) (d : Disk) : LogInfo :=
  ((d.content (log.path d.cwd (logInfoPath log.name))).map fun c =>
    LogInfo.ofBytes (Item.text c)).getD ⟨0, 0⟩

variable {sh : Text → List (List Text)} {log : LogFile} {s : State} {logInfo : LogInfo}

theorem LogFile.Counter.eq_counterOf {d : Disk} (h : log.Counter d logInfo) :
    logInfo = log.counterOf d := by
  cases h with
  | missing hinfo => rw [counterOf, Disk.content, hinfo, Option.map_none, Option.getD_none]
  | stored hinfo hcount hindex =>
    have hread := LogInfo.ofBytes_bytes hcount hindex []
    rw [List.append_nil] at hread
    rw [counterOf, Disk.content_eq_some.mpr hinfo, Option.map_some, Option.getD_some,
      Item.text_ofText, hread]

theorem LogFile.Counter.unique {d : Disk} {li : LogInfo} (h : log.Counter d logInfo)
    (h' : log.Counter d li) : logInfo = li :=
  h.eq_counterOf.trans h'.eq_counterOf.symm

/-- Reading the counter makes its file. -/
theorem yields_ReadLogInfo (h : log.Counter s.disk logInfo) :
    Yields sh (ReadLogInfo log.text) (fun read t => read = logInfo ∧
      t = { s.setOpen .fd none with disk := log.store logInfo s.disk }) s := by
  have hproper := proper_logInfoPath log.proper
  simp only [ReadLogInfo, request_bind, log.logInfoPath_text]
  refine yields_call fun x _ => ?_
  cases h with
  | missing hinfo hdir =>
    have hlookup : s.disk.lookup (log.dir ++ logInfoPath log.name) = none := by
      rw [LogFile.lookup_text hproper, hinfo]
    simp only [act, hlookup, Option.map_none, Option.isNone_none, if_true]
    refine yields_call fun x hx => ?_
    rw [act_openFile_new (by simp [hx.1]) ((LogFile.creatable_text hproper).mpr ⟨hinfo, hdir⟩)]
    simp only [if_true]
    refine yields_call fun x hx => ?_
    rw [act_write hx.1 (target_setOpen (Disk.put_node_self ..))]
    refine yields_call fun x hx => ?_
    refine yields_pure ⟨rfl, ?_⟩
    simp [act, LogFile.store, LogFile.path_text hproper, State.setOpen]
  | stored hinfo hcount hindex =>
    have hlookup : s.disk.lookup (log.dir ++ logInfoPath log.name) =
        some (.file (Item.ofText logInfo.bytes)) := by
      rw [LogFile.lookup_text hproper, hinfo]
    simp only [act, hlookup, Option.map_some, Option.isNone_some, Bool.false_eq_true, if_false]
    refine yields_call fun x _ => ?_
    simp only [act]
    refine yields_call fun y hy => ?_
    rw [act_openFile_file (by simp [hy.1]) hlookup]
    simp only [if_true]
    refine yields_call fun z hz => ?_
    have hbytes : logInfo.bytes.length ≤ LogInfo.byteSize := Nat.le_refl 8
    rw [act_read hz.1 (LogFile.target_text hproper hinfo), Item.text_ofText,
      List.take_of_length_le hbytes]
    refine yields_call fun w _ => ?_
    simp only [act, State.setOpen_setOpen]
    refine yields_pure ⟨LogInfo.ofBytes_bytes hcount hindex _, ?_⟩
    rw [LogFile.store, Disk.put_node hinfo]
    rfl

/-- The whole counter is replaced. -/
theorem yields_WriteLogInfo {c : List Item} (hlen : c.length ≤ 8)
    (h : s.disk.node (log.path s.disk.cwd (logInfoPath log.name)) = some (.file c)) :
    Yields sh (WriteLogInfo log.text logInfo)
      (fun _ t => t = { s.setOpen .fd none with disk := log.store logInfo s.disk }) s := by
  have hproper := proper_logInfoPath log.proper
  have hlookup : s.disk.lookup (log.dir ++ logInfoPath log.name) = some (.file c) := by
    rw [LogFile.lookup_text hproper, h]
  have hbytes : logInfo.bytes.length = 8 := rfl
  simp only [WriteLogInfo, request_bind, log.logInfoPath_text]
  refine yields_call fun x hx => ?_
  rw [act_openFile_file (by simp [hx.1]) hlookup]
  simp only [if_true]
  refine yields_call fun y hy => ?_
  rw [act_write hy.1 (LogFile.target_text hproper h)]
  refine yields_call fun z _ => ?_
  refine yields_pure ?_
  simp [act, LogFile.store, LogFile.path_text hproper, State.setOpen, hbytes, List.drop_of_length_le hlen]

theorem fileSize_text {text : Text} (dirSize : ℕ) (h : log.HasText s.disk text) :
    ((s.disk.lookup log.text).map (statSize dirSize)).getD 0 = text.length := by
  have hlookup : s.disk.lookup log.text = _ := LogFile.lookup_text log.proper
  rw [hlookup]
  rcases h with h | ⟨rfl, h⟩
  · simp [h, statSize, Item.sum_size_ofText]
  · simp [h]

theorem yields_get_file_size {text : Text} (h : log.HasText s.disk text) :
    Yields sh (get_file_size log.text) (fun size t => size = text.length ∧ t = s) s :=
  yields_call fun x _ => yields_pure ⟨fileSize_text x.dirSize h, rfl⟩

/-- The descriptor of the log is open where it was, or at a backup of `log`. -/
def LogFile.Follows (log : LogFile) (s t : State) : Prop :=
  ∀ h ∈ t.opened .logFd, ∃ h' ∈ s.opened .logFd,
    h.path = h'.path ∨ ∃ i, h.path = log.path s.disk.cwd (backupFilePath log.name i)

theorem LogFile.Follows.of_eq {t : State} (h : t.opened .logFd = s.opened .logFd) :
    log.Follows s t := fun h' hm => ⟨h', h ▸ hm, .inl rfl⟩

theorem LogFile.Follows.trans {t u : State} (hst : log.Follows s t) (htu : log.Follows t u)
    (hcwd : t.disk.cwd = s.disk.cwd) : log.Follows s u := by
  intro h hu
  obtain ⟨h', ht, hp | hp⟩ := htu h hu
  · obtain ⟨h'', hs, hp'⟩ := hst h' ht
    exact ⟨h'', hs, hp ▸ hp'⟩
  · obtain ⟨h'', hs, -⟩ := hst h' ht
    exact ⟨h'', hs, .inr (hcwd ▸ hp)⟩

section Backup

variable {α : Type} {p : Prog α} {R : α → State → Prop} {i : ℤ}

theorem yields_rename (hdir : s.disk.IsDir (Path.resolve s.disk.cwd log.dir))
    (hfree : s.disk.node (log.path s.disk.cwd (backupFilePath log.name i)) = none)
    (h : ∀ t : State, t.disk = log.shift i s.disk → log.Follows s t → Yields sh p R t) :
    Yields sh (.call (.rename log.text (backupFilePath log.text i)) fun _ => p) R s := by
  refine yields_call fun x hx => ?_
  rw [LogFile.backupFilePath_text]
  have hold : s.disk.lookup log.text = _ := LogFile.lookup_text log.proper
  cases hc : s.disk.content (log.path s.disk.cwd log.name) with
  | some c =>
    have hnew := (LogFile.creatable_text (proper_backupFilePath log.proper i)).mpr ⟨hfree, hdir⟩
    rw [Disk.content_eq_some.mp hc] at hold
    rw [act_rename (by simp [hx.1]) hold hnew]
    refine h _ ?_ ?_
    · simp only [LogFile.shift, hc, Option.isSome_some, if_true, State.move, LogFile.text,
        LogFile.path_text log.proper, LogFile.path_text (proper_backupFilePath log.proper i)]
    · intro h hm
      obtain ⟨h', hs, hp⟩ := State.mem_move hm
      rw [LogFile.path_text (proper_backupFilePath log.proper i)] at hp
      exact ⟨h', hs, hp.imp_right fun hp => ⟨i, hp⟩⟩
  | none =>
    have hact : act sh (.rename log.text (log.dir ++ backupFilePath log.name i)) x s = (false, s) := by
      rw [Disk.content] at hc
      rcases hn : s.disk.node (log.path s.disk.cwd log.name) with _ | _ | c
      · simp only [act, hold, hn]
      · simp only [act, hold, hn]
      · simp [hn] at hc
    rw [hact]
    exact h s (by simp [LogFile.shift, hc]) (.of_eq rfl)

theorem yields_unlink (h : ∀ t : State, t.disk = log.drop i s.disk → log.Follows s t →
      Yields sh p R t) :
    Yields sh (.call (.unlink (backupFilePath log.text i)) fun _ => p) R s := by
  refine yields_call fun x hx => ?_
  rw [LogFile.backupFilePath_text]
  have hproper := proper_backupFilePath log.proper i
  have hlookup : s.disk.lookup (log.dir ++ backupFilePath log.name i) = _ :=
    LogFile.lookup_text hproper
  cases hc : s.disk.content (log.path s.disk.cwd (backupFilePath log.name i)) with
  | some c =>
    rw [Disk.content_eq_some.mp hc] at hlookup
    rw [act_unlink (by simp [hx.1]) hlookup]
    refine h _ ?_ fun h' hm => ⟨h', State.mem_setDisk hm, .inl rfl⟩
    simp only [LogFile.drop, hc, Option.isSome_some, if_true, State.setDisk,
      LogFile.path_text hproper]
  | none =>
    have hact : act sh (.unlink (log.dir ++ backupFilePath log.name i)) x s = (false, s) := by
      rw [Disk.content] at hc
      rcases hn : s.disk.node (log.path s.disk.cwd (backupFilePath log.name i)) with _ | _ | c
      · simp only [act, hlookup, hn]
      · simp only [act, hlookup, hn]
      · simp [hn] at hc
    rw [hact]
    exact h s (by simp [LogFile.drop, hc]) (.of_eq rfl)

end Backup

/-- A rotation of a file whose next backup does not exist. The counter is closed at its end. -/
theorem yields_BackupLogFile (hcounter : log.Counter s.disk logInfo)
    (hdir : s.disk.IsDir (Path.resolve s.disk.cwd log.dir))
    (hown : logInfoPath log.name ≠ log.name)
    (hfree : s.disk.node (log.path s.disk.cwd (backupFilePath log.name logInfo.target)) = none) :
    Yields sh (BackupLogFile log.text)
      (fun _ t => t.disk = log.rotated logInfo s.disk ∧ log.Follows s t ∧ t.opened .fd = none) s := by
  have hlen : (Item.ofText logInfo.bytes).length ≤ 8 := Nat.le_refl 8
  have hinfo {i : ℤ} {d : Disk} (hd : d.node (log.path d.cwd (logInfoPath log.name)) =
      some (.file (Item.ofText logInfo.bytes))) :
      (log.shift i d).node (log.path (log.shift i d).cwd (logInfoPath log.name)) =
        some (.file (Item.ofText logInfo.bytes)) := by
    rw [log.shift_cwd, log.shift_node_of_ne (by rwa [Ne, log.path_inj])
      (by rw [Ne, log.path_inj]; exact logInfoPath_ne_backup _ _ _), hd]
  have hfree' : (log.store logInfo s.disk).node
      (log.path s.disk.cwd (backupFilePath log.name logInfo.target)) = none := by
    rw [log.store_node_of_ne (by rw [Ne, log.path_inj]; exact (logInfoPath_ne_backup _ _ _).symm),
      hfree]
  refine yields_bind ((yields_ReadLogInfo hcounter).mono ?_)
  rintro read _ ⟨hread, rfl⟩
  simp only [rotate, request_bind, hread]
  split_ifs with hcount
  · rw [LogInfo.target, if_pos hcount] at hfree'
    refine yields_rename (log.store_isDir.mpr hdir) hfree' fun t ht hopen => ?_
    refine (yields_WriteLogInfo hlen (ht ▸ hinfo log.store_node_info)).mono fun _ u hu => ?_
    subst hu
    refine ⟨?_, hopen, by simp [State.setOpen]⟩
    simp only [LogFile.rotated, LogFile.cleared, LogInfo.next, LogInfo.target, if_pos hcount, ht]
  · rw [LogInfo.target, if_neg hcount] at hfree'
    refine yields_unlink fun t ht hopen => ?_
    have hcwd : t.disk.cwd = s.disk.cwd := by rw [ht, log.drop_cwd, log.store_cwd]
    have htdir : t.disk.IsDir (Path.resolve t.disk.cwd log.dir) := by
      rw [ht, log.drop_cwd]
      exact log.drop_isDir.mpr (log.store_isDir.mpr hdir)
    have htfree : t.disk.node (log.path t.disk.cwd (backupFilePath log.name
        (Word.int32 (logInfo.oldestIndex + logInfo.count)))) = none := by
      rw [ht, log.drop_cwd]
      exact log.drop_node_none hfree'
    have htinfo : t.disk.node (log.path t.disk.cwd (logInfoPath log.name)) =
        some (.file (Item.ofText logInfo.bytes)) := by
      rw [ht, log.drop_cwd, log.drop_node_of_ne
        (by rw [Ne, log.path_inj]; exact logInfoPath_ne_backup _ _ _)]
      exact log.store_node_info
    refine yields_rename htdir htfree fun u hu hopen' => ?_
    refine (yields_WriteLogInfo hlen (hu ▸ hinfo htinfo)).mono fun _ v hv => ?_
    subst hv
    refine ⟨?_, hopen.trans hopen' hcwd, by simp [State.setOpen]⟩
    simp only [LogFile.rotated, LogFile.cleared, LogInfo.next, LogInfo.target, if_neg hcount, hu, ht]

/-- Appending to the log file at the end of `DBG_signal_safe`. -/
theorem yields_append {c message : Text} (hdir : s.disk.IsDir (Path.resolve s.disk.cwd log.dir))
    (h : log.HasText s.disk c) :
    Yields sh (.call (.openFile .logFd log.text true true) fun opened =>
        if !opened then pure (-2)
        else .call (.write .logFd message) fun _ => .call (.close .logFd) fun _ => pure 0)
      (fun result t => result = 0 ∧ t.disk = s.disk.put (log.path s.disk.cwd log.name)
        (some (.file (Item.ofText (c ++ message))))) s := by
  have hpath : s.disk.path log.text = log.path s.disk.cwd log.name := LogFile.path_text log.proper
  refine yields_call fun x hx => ?_
  rcases h with h | ⟨rfl, h⟩
  · have hlookup : s.disk.lookup log.text = _ := LogFile.lookup_text log.proper
    rw [h] at hlookup
    rw [act_openFile_file (by simp [hx.1]) hlookup]
    simp only [Bool.not_true, Bool.false_eq_true, if_false]
    refine yields_call fun y hy => ?_
    have htarget : (s.setOpen .logFd (some ⟨s.disk.path log.text, true⟩)).target .logFd =
      some (⟨s.disk.path log.text, true⟩, Item.ofText c) := target_setOpen (by rw [hpath, h])
    rw [act_write hy.1 htarget]
    refine yields_call fun z _ => yields_pure ⟨rfl, ?_⟩
    simp [act, hpath, Item.ofText]
  · have hnew : s.disk.Creatable log.text := (LogFile.creatable_text log.proper).mpr ⟨h, hdir⟩
    rw [act_openFile_new (by simp [hx.1]) hnew]
    simp only [Bool.not_true, Bool.false_eq_true, if_false]
    refine yields_call fun y hy => ?_
    rw [act_write hy.1 (target_setOpen (Disk.put_node_self ..))]
    refine yields_call fun z _ => yields_pure ⟨rfl, ?_⟩
    simp [act, State.setOpen, hpath]

/-- A message to a file that is not too large. -/
theorem yields_signal_safe_small {c message : Text} (h : log.HasText s.disk c)
    (hdir : s.disk.IsDir (Path.resolve s.disk.cwd log.dir)) (hsmall : ¬DBG_LOG_SIZE_MAX < c.length) :
    Yields sh (DBG_signal_safe (some message) log.text) (fun result t => result = 0 ∧
      t.disk = s.disk.put (log.path s.disk.cwd log.name)
        (some (.file (Item.ofText (c ++ message))))) s := by
  simp only [DBG_signal_safe, request_bind]
  refine yields_call fun x _ => yields_bind ((yields_get_file_size h).mono ?_)
  rintro _ y ⟨rfl, rfl⟩
  rw [if_neg hsmall]
  exact yields_append hdir h

/-- A message to a file that is too large comes after its rotation. -/
theorem yields_signal_safe_large {c message : Text} (h : log.HasText s.disk c)
    (hlarge : DBG_LOG_SIZE_MAX < c.length) {I : Disk → Prop}
    (hbackup : Yields sh (BackupLogFile log.text) (fun _ t => I t.disk) s)
    (hI : ∀ d, I d → d.IsDir (Path.resolve d.cwd log.dir) ∧ log.HasText d []) :
    Yields sh (DBG_signal_safe (some message) log.text) (fun result t => result = 0 ∧
      ∃ d, I d ∧ t.disk = d.put (log.path d.cwd log.name) (some (.file (Item.ofText message)))) s := by
  simp only [DBG_signal_safe, request_bind]
  refine yields_call fun x _ => yields_bind ((yields_get_file_size h).mono ?_)
  rintro _ y ⟨rfl, rfl⟩
  rw [if_pos hlarge]
  refine yields_bind (hbackup.mono fun _ t ht => ?_)
  obtain ⟨hdir, htext⟩ := hI _ ht
  exact (yields_append hdir htext).mono fun _ u ⟨hresult, hu⟩ => ⟨hresult, _, ht, hu⟩

end ConferenceCall.Log

import ConferenceCall.Log.Generations

/-! Runs of messages from an empty directory: the backups that are left. -/

namespace ConferenceCall.Log

open Library Program

variable {sh : Text → List (List Text)} {log : LogFile} {g : Generations} {s : State}

/-- The messages as calls. -/
def signals (log : LogFile) (messages : List (Text × (ℕ → Choice))) :
    List (Prog ℤ × (ℕ → Choice)) :=
  messages.map fun m => (DBG_signal_safe (some m.1) log.text, m.2)

variable (sh) in
theorem Kept.run (h : Kept log g s.disk) (hown : logInfoPath log.name ≠ log.name)
    (messages : List (Text × (ℕ → Choice))) (hx : ∀ m ∈ messages, ∀ n, (m.2 n).Succeeds)
    (hn : ((messages.map Prod.fst).foldl Generations.record g).closed.length ≤ 2 ^ 31) :
    Kept log ((messages.map Prod.fst).foldl Generations.record g)
        ((invoke sh).run (signals log messages) s).1.disk ∧
      (∀ o ∈ ((invoke sh).run (signals log messages) s).2, o.value = some 0) ∧
      g.closed.length + (((invoke sh).run (signals log messages) s).2.flatMap (·.calls)).countP
        (fun e => e.call.isRename) =
          ((messages.map Prod.fst).foldl Generations.record g).closed.length := by
  induction messages generalizing g s with
  | nil => exact ⟨h, by simp [signals], by simp [signals]⟩
  | cons m l ih =>
    have hm := Generations.length_le_foldl (g.record m.1) (l.map Prod.fst)
    have hstep : Yields sh (DBG_signal_safe (some m.1) log.text) (fun result t =>
      result = 0 ∧ Kept log (g.record m.1) t.disk) s := h.signal_safe hown (hm.trans hn)
    obtain ⟨_, hvalue, rfl, hkept⟩ := hstep m.2 (hx m (by simp))
    have hcount := renames_signal_safe h (hvalue ▸ Option.some_ne_none _)
    obtain ⟨hrest, hvalues, hcounts⟩ := ih (s := (invoke sh (DBG_signal_safe (some m.1) log.text, m.2)
      s).1) hkept (fun m' h' => hx m' (by simp [h'])) hn
    refine ⟨hrest, ?_, ?_⟩
    · intro o ho
      rcases List.mem_cons.mp ho with rfl | ho
      · exact hvalue
      · exact hvalues o ho
    · rw [signals, List.map_cons, Step.run_cons, List.flatMap_append, List.countP_append,
        ← Nat.add_assoc]
      simp only [invoke, List.flatMap_cons, List.flatMap_nil, List.append_nil, hcount]
      exact hcounts

/-- Neither the log file nor its counter nor a backup exists. -/
structure Fresh (log : LogFile) (d : Disk) : Prop where
  dir : d.IsDir (Path.resolve d.cwd log.dir)
  file : d.node (log.path d.cwd log.name) = none
  info : d.node (log.path d.cwd (logInfoPath log.name)) = none
  backups (i : ℤ) : d.node (log.path d.cwd (backupFilePath log.name i)) = none

/-- After `n` rotations by a run the backups are the newest 63 of `n` closed generations, and with
the file they hold the end of what was logged. -/
structure NewestKept (log : LogFile) (messages : List Text) (run : State × List (Outcome State
    (Event Call Call.Answer State) ℤ)) : Prop where
  rotations : (run.2.flatMap (·.calls)).countP (fun e => e.call.isRename) =
    (Generations.ofMessages messages).closed.length
  backups (i : ℤ) : run.1.disk.node (log.path run.1.disk.cwd (backupFilePath log.name i)) =
    if max 0 ((Generations.ofMessages messages).closed.length - 63 : ℤ) ≤ i ∧
        i < (Generations.ofMessages messages).closed.length then
      some (.file (Item.ofText ((Generations.ofMessages messages).closed.getD i.toNat [])))
    else none
  stored : log.Counter run.1.disk ⟨min (Generations.ofMessages messages).closed.length 63,
    max 0 ((Generations.ofMessages messages).closed.length - 63)⟩
  file : run.1.disk.node (log.path run.1.disk.cwd log.name) =
    (Generations.ofMessages messages).current.map fun c => .file (Item.ofText c)
  suffix : messages.flatten = ((Generations.ofMessages messages).closed.take
      ((Generations.ofMessages messages).closed.length - 63)).flatten ++
    (((Generations.ofMessages messages).closed.drop
      ((Generations.ofMessages messages).closed.length - 63)).flatten ++
    (Generations.ofMessages messages).current.getD [])

theorem Fresh.kept (h : Fresh log s.disk) : Kept log {} s.disk := by
  refine ⟨h.dir, .missing h.info h.dir, fun i => ?_, h.file⟩
  rw [h.backups, if_neg]
  simp

/-- Rotation keeps exactly the newest generations, as long as the indices fit. -/
theorem newest_generations (hown : logInfoPath log.name ≠ log.name)
    (messages : List (Text × (ℕ → Choice))) (hx : ∀ m ∈ messages, ∀ n, (m.2 n).Succeeds)
    (hfresh : Fresh log s.disk)
    (hfits : (Generations.ofMessages (messages.map Prod.fst)).closed.length ≤ 2 ^ 31) :
    NewestKept log (messages.map Prod.fst) ((invoke sh).run (signals log messages) s) := by
  obtain ⟨hkept, -, hcount⟩ := hfresh.kept.run sh hown messages hx hfits
  change Kept log (Generations.ofMessages (messages.map Prod.fst)) _ at hkept
  generalize hg : Generations.ofMessages (messages.map Prod.fst) = g at hkept hfits
  have hcounter : Generations.counter g.closed.length =
      ⟨min g.closed.length 63, max 0 (g.closed.length - 63)⟩ := by
    simp only [Generations.counter, LogInfo.mk.injEq]
    omega
  refine ⟨?_, fun i => ?_, ?_, ?_, ?_⟩
  · exact (Nat.zero_add _).symm.trans hcount
  · rw [hg, hkept.backups]
    exact if_congr (by omega) rfl rfl
  · rw [hg, ← hcounter]
    exact hkept.stored
  · rw [hg, hkept.file]
  · rw [← Generations.text_ofMessages, Generations.text, ← List.append_assoc, ← List.flatten_append,
      List.take_append_drop]

/-- A directory for logs, and nothing else. -/
def emptyDisk : Disk where
  cwd := []
  node p := if p = ["tmp".toList] then some .dir else none

theorem emptyDisk_node (p : Path) :
    emptyDisk.node p = if p = ["tmp".toList] then some .dir else none := rfl

def tmpLog (name : Name) (proper : Path.Proper name) : LogFile where
  dir := "/tmp/".toList
  name := name
  folder := .inr ⟨"/tmp".toList, rfl⟩
  proper := proper

theorem fresh_tmpLog (name : Name) (proper : Path.Proper name) :
    Fresh (tmpLog name proper) emptyDisk := by
  have htmp : Path.resolve [] "/tmp/".toList = ["tmp".toList] := by decide
  have hdir : Path.resolve emptyDisk.cwd (tmpLog name proper).dir = ["tmp".toList] := htmp
  have hnode (n : Name) : emptyDisk.node ((tmpLog name proper).path emptyDisk.cwd n) = none := by
    rw [LogFile.path, hdir, emptyDisk_node, if_neg]
    intro h
    simpa using congrArg List.length h
  refine ⟨.inr ?_, hnode _, hnode _, fun i => hnode _⟩
  rw [hdir, emptyDisk]
  trivial

theorem succeeds_default (n : ℕ) : ((fun _ => {} : ℕ → Choice) n).Succeeds :=
  ⟨rfl, fun _ => rfl⟩

/-- A message that is too large by one byte. -/
def largeMessage : Text := List.replicate (DBG_LOG_SIZE_MAX + 1) 'a'

theorem lt_length_largeMessage : DBG_LOG_SIZE_MAX < largeMessage.length := by
  rw [largeMessage, List.length_replicate]
  exact Nat.lt_succ_self _

theorem ofMessages_replicate (k : ℕ) : Generations.ofMessages (List.replicate (k + 1) largeMessage) =
    ⟨List.replicate k largeMessage, some largeMessage⟩ := by
  induction k with
  | zero => rfl
  | succ k ih =>
    rw [Generations.ofMessages] at ih ⊢
    have hlt : DBG_LOG_SIZE_MAX < ((some largeMessage).getD []).length := lt_length_largeMessage
    rw [List.replicate_succ', List.foldl_append, ih, List.foldl_cons, List.foldl_nil,
      Generations.record_of_lt _ hlt, List.replicate_succ']
    rfl

/-- The last of 65 messages makes the 64th rotation, which drops the first generation. -/
theorem messages_kept : NewestKept (tmpLog "a.txt".toList (by decide))
      (List.replicate 65 largeMessage) ((invoke fun _ => []).run
        (signals (tmpLog "a.txt".toList (by decide))
          (List.replicate 65 (largeMessage, fun _ => {}))) { disk := emptyDisk }) ∧
    (Generations.ofMessages (List.replicate 65 largeMessage)).closed.length = 64 := by
  have hown : logInfoPath "a.txt".toList ≠ "a.txt".toList := by decide
  have hclosed : (Generations.ofMessages (List.replicate 65 largeMessage)).closed.length = 64 := by
    rw [ofMessages_replicate, List.length_replicate]
  have hmessages : (List.replicate 65 (largeMessage, (fun _ => {} : ℕ → Choice))).map Prod.fst =
      List.replicate 65 largeMessage := List.map_replicate
  refine ⟨?_, hclosed⟩
  rw [← hmessages]
  refine newest_generations hown _ (fun m hm n => ?_) (fresh_tmpLog _ _) ?_
  · rw [List.eq_of_mem_replicate hm]
    exact succeeds_default n
  · rw [hmessages, hclosed]
    decide

/-! ### Logs that share their name with their counter, and indices that wrap around -/

/-- Without its file the counter is not written. -/
theorem yields_WriteLogInfo_missing {logInfo : LogInfo}
    (h : s.disk.node (log.path s.disk.cwd (logInfoPath log.name)) = none) :
    Yields sh (WriteLogInfo log.text logInfo) (fun _ t => t.disk = s.disk) s := by
  have hlookup : s.disk.lookup (log.dir ++ logInfoPath log.name) = none := by
    rw [LogFile.lookup_text (proper_logInfoPath log.proper), h]
  simp only [WriteLogInfo, request_bind, log.logInfoPath_text]
  refine yields_call fun x hx => ?_
  simp only [act, hx.1, reduceCtorEq, if_false, hlookup, Bool.false_eq_true, false_and]
  exact yields_pure rfl

/-- The number the text is taken for. -/
theorem ofBytes_letters (rest : Text) :
    LogInfo.ofBytes (List.replicate 8 'a' ++ rest) = ⟨1633771873, 1633771873⟩ := by
  have hword (l : Text) : Word.ofBytes ('a' :: 'a' :: 'a' :: 'a' :: l) = 1633771873 := by
    simp only [Word.ofBytes, List.getD_cons_zero, List.getD_cons_succ]
    decide
  have hletters : List.replicate 8 'a' ++ rest =
    'a' :: 'a' :: 'a' :: 'a' :: 'a' :: 'a' :: 'a' :: 'a' :: rest := rfl
  rw [hletters, LogInfo.ofBytes, List.drop_succ_cons, List.drop_succ_cons, List.drop_succ_cons,
    List.drop_succ_cons, List.drop_zero, hword, hword]

/-- The counter is read from the text of the log itself. -/
theorem yields_own_counter (hown : logInfoPath log.name = log.name)
    (hdir : s.disk.IsDir (Path.resolve s.disk.cwd log.dir))
    (hfile : s.disk.node (log.path s.disk.cwd log.name) = some (.file (Item.ofText largeMessage)))
    (hbackups : ∀ i, s.disk.node (log.path s.disk.cwd (backupFilePath log.name i)) = none) :
    Yields sh (BackupLogFile log.text) (fun _ t => t.disk = log.shift (-1027423550) s.disk) s := by
  have hlookup : s.disk.lookup (log.dir ++ log.name) = some (.file (Item.ofText largeMessage)) := by
    rw [LogFile.lookup_text log.proper, hfile]
  have hread : largeMessage.take LogInfo.byteSize = List.replicate 8 'a' := by
    rw [largeMessage, List.take_replicate]
    rfl
  simp only [BackupLogFile, rotate, ReadLogInfo, request_bind, log.logInfoPath_text, hown]
  refine yields_bind (yields_call fun x _ => ?_)
  simp only [act, hlookup, Option.map_some, Option.isNone_some, Bool.false_eq_true, if_false]
  refine yields_call fun y _ => ?_
  simp only [act]
  refine yields_call fun z hz => ?_
  rw [act_openFile_file (by simp [hz.1]) hlookup]
  simp only [if_true]
  refine yields_call fun w hw => ?_
  rw [act_read hw.1 (LogFile.target_text log.proper hfile), Item.text_ofText, hread]
  refine yields_call fun v _ => yields_pure ?_
  rw [List.length_replicate, ofBytes_letters]
  simp only [act, State.setOpen_setOpen]
  have hindex : Word.int32 (1633771873 + 1633771873) = -1027423550 := by decide
  rw [if_neg (by decide), hindex]
  refine yields_unlink fun t ht _ => ?_
  have htdisk : t.disk = s.disk := ht.trans (log.drop_none (hbackups _))
  refine yields_rename (htdisk ▸ hdir) (htdisk ▸ hbackups _) fun u hu _ => ?_
  have hudisk : u.disk = log.shift (-1027423550) s.disk := htdisk ▸ hu
  refine (yields_WriteLogInfo_missing ?_).mono fun _ v hv => hv.trans hudisk
  rw [hudisk, log.shift_cwd, hown, log.shift_node_old (by simp [hfile])]

/-- A log that is its own counter: its first generation is not kept as backup 0. -/
theorem own_counter_misplaces (hown : logInfoPath log.name = log.name) (hfresh : Fresh log s.disk) :
    ¬NewestKept log [largeMessage, []] ((invoke sh).run
      (signals log [(largeMessage, fun _ => {}), ([], fun _ => {})]) s) := by
  intro h
  let s₁ := (invoke sh (DBG_signal_safe (some largeMessage) log.text, fun _ => {}) s).1
  let s₂ := (invoke sh (DBG_signal_safe (some []) log.text, fun _ => {}) s₁).1
  have hs₁ : s₁.disk = s.disk.put (log.path s.disk.cwd log.name)
      (some (.file (Item.ofText largeMessage))) := by
    have hfirst : Yields sh (DBG_signal_safe (some largeMessage) log.text) _ s :=
      yields_signal_safe_small (c := []) (.inr ⟨rfl, hfresh.file⟩) hfresh.dir (by decide)
    obtain ⟨_, -, -, ht⟩ := hfirst _ succeeds_default
    exact ht
  have hfile : s₁.disk.node (log.path s₁.disk.cwd log.name) =
      some (.file (Item.ofText largeMessage)) := by
    rw [hs₁, Disk.put_cwd, Disk.put_node_self]
  have hbackups (i : ℤ) : s₁.disk.node (log.path s₁.disk.cwd (backupFilePath log.name i)) = none := by
    rw [hs₁, Disk.put_cwd, Disk.put_node_of_ne path_name_ne_backup.symm, hfresh.backups]
  have hdir : s₁.disk.IsDir (Path.resolve s₁.disk.cwd log.dir) := by
    rw [hs₁, Disk.put_cwd]
    exact (Disk.isDir_put_of_ne (log.path_ne_dir _ _)).mpr hfresh.dir
  have hs₂ : s₂.disk.node (log.path s₂.disk.cwd (backupFilePath log.name 0)) = none := by
    have hshift : ∀ d, d = log.shift (-1027423550) s₁.disk →
        d.IsDir (Path.resolve d.cwd log.dir) ∧ log.HasText d [] := by
      rintro d rfl
      rw [log.shift_cwd]
      refine ⟨log.shift_isDir.mpr hdir, .inr ⟨rfl, ?_⟩⟩
      rw [log.shift_cwd, log.shift_node_old (by simp [hfile])]
    have hsecond : Yields sh (DBG_signal_safe (some []) log.text) _ s₁ :=
      yields_signal_safe_large (I := fun d => d = log.shift (-1027423550) s₁.disk) (.inl hfile)
        lt_length_largeMessage (yields_own_counter hown hdir hfile hbackups) hshift
    obtain ⟨_, -, -, d, rfl, ht⟩ := hsecond _ succeeds_default
    have hs₂ : s₂.disk = _ := ht
    rw [hs₂, Disk.put_cwd, Disk.put_node_of_ne path_name_ne_backup.symm, log.shift_cwd,
      log.shift_node_of_ne path_name_ne_backup.symm, hbackups]
    rw [Ne, log.path_inj, backupFilePath_inj]
    decide
  have hkept := h.backups 0
  have hlt : DBG_LOG_SIZE_MAX < ((some largeMessage).getD []).length := lt_length_largeMessage
  have hfirst : Generations.record {} largeMessage = ⟨[], some largeMessage⟩ := rfl
  have hgen : Generations.ofMessages [largeMessage, []] = ⟨[largeMessage], some []⟩ := by
    rw [Generations.ofMessages, List.foldl_cons, List.foldl_cons, List.foldl_nil, hfirst,
      Generations.record_of_lt [] hlt]
    rfl
  rw [hgen, if_pos (by decide)] at hkept
  exact absurd (hs₂.symm.trans hkept) (by simp)

theorem target_overflow {k : ℕ} (hk : k = 2 ^ 31) :
    (Generations.counter k).target = -2147483648 ∧
      (Generations.counter k).oldestIndex = 2147483585 := by
  subst hk
  decide

/-- The generation after the first 2³¹ is not found under its index. -/
theorem overflow_misplaces {k : ℕ} (hk : k = 2 ^ 31) (hown : logInfoPath log.name ≠ log.name)
    (hfresh : Fresh log s.disk) : ¬NewestKept log (List.replicate (k + 2) largeMessage)
      ((invoke sh).run (signals log (List.replicate (k + 2) (largeMessage, fun _ => {}))) s) := by
  intro h
  let s₁ := ((invoke sh).run
    (signals log (List.replicate (k + 1) (largeMessage, fun _ => {}))) s).1
  let s₂ := (invoke sh (DBG_signal_safe (some largeMessage) log.text, fun _ => {}) s₁).1
  have hgen : Generations.ofMessages ((List.replicate (k + 1)
      (largeMessage, (fun _ => {} : ℕ → Choice))).map Prod.fst) =
        ⟨List.replicate k largeMessage, some largeMessage⟩ := by
    rw [List.map_replicate, ofMessages_replicate]
  have hkept : Kept log ⟨List.replicate k largeMessage, some largeMessage⟩ s₁.disk := by
    rw [← hgen]
    refine (hfresh.kept.run sh hown _ ?_ ?_).1
    · intro m hm
      rw [List.eq_of_mem_replicate hm]
      exact succeeds_default
    · refine Nat.le_of_eq ?_
      exact (congrArg (fun g => g.closed.length) hgen).trans (by rw [List.length_replicate, hk])
  obtain ⟨htarget, holdest⟩ := target_overflow hk
  have hbackup (i : ℤ) (hi : i < 0 ∨ k ≤ i) :
      s₁.disk.node (log.path s₁.disk.cwd (backupFilePath log.name i)) = none := by
    rw [hkept.backups, List.length_replicate, if_neg (by omega)]
  have hstored : log.Counter s₁.disk (Generations.counter k) := by
    have hstored := hkept.stored
    rwa [List.length_replicate] at hstored
  have hrotated : ∀ d, d = log.rotated (Generations.counter k) s₁.disk →
      d.IsDir (Path.resolve d.cwd log.dir) ∧ log.HasText d [] := by
    rintro d rfl
    rw [rotated_cwd]
    refine ⟨rotated_isDir.mpr hkept.dir, .inr ⟨rfl, ?_⟩⟩
    rw [rotated_cwd, rotated_file hown (by rw [hkept.file]; simp)]
  have hrotate : Yields sh (BackupLogFile log.text)
      (fun _ t => t.disk = log.rotated (Generations.counter k) s₁.disk) s₁ :=
    (yields_BackupLogFile hstored hkept.dir hown (hbackup _ (by omega))).mono fun _ t ht => ht.1
  have hlast : Yields sh (DBG_signal_safe (some largeMessage) log.text) _ s₁ :=
    yields_signal_safe_large (I := fun d => d = log.rotated (Generations.counter k) s₁.disk)
      hkept.hasText lt_length_largeMessage hrotate hrotated
  have hs₂ : s₂.disk.node (log.path s₂.disk.cwd (backupFilePath log.name k)) = none := by
    obtain ⟨_, -, -, d, rfl, ht⟩ := hlast _ succeeds_default
    have hs₂ : s₂.disk = _ := ht
    rw [hs₂, Disk.put_cwd, Disk.put_node_of_ne path_name_ne_backup.symm, rotated_cwd,
      rotated_other path_backup_ne_info path_name_ne_backup.symm, hbackup _ (.inr (le_refl _))]
    · rw [Ne, log.path_inj, backupFilePath_inj]
      omega
    · rw [Ne, log.path_inj, backupFilePath_inj]
      omega
  have hrun : ((invoke sh).run
      (signals log (List.replicate (k + 2) (largeMessage, fun _ => {}))) s).1 = s₂ := by
    rw [List.replicate_succ', signals, List.map_append, Step.run_append]
    rfl
  have hnext := h.backups k
  rw [hrun, hs₂, ofMessages_replicate, List.length_replicate, if_pos (by omega)] at hnext
  exact absurd hnext (by simp)

/-- Under the name of the counter, and after 2³¹ rotations, generations are misplaced. -/
theorem generations_misplaced :
    ¬NewestKept (tmpLog "a.logInfo".toList (by decide)) [largeMessage, []]
        ((invoke fun _ => []).run (signals (tmpLog "a.logInfo".toList (by decide))
          [(largeMessage, fun _ => {}), ([], fun _ => {})]) { disk := emptyDisk }) ∧
      ¬NewestKept (tmpLog "a.txt".toList (by decide)) (List.replicate (2 ^ 31 + 2) largeMessage)
        ((invoke fun _ => []).run (signals (tmpLog "a.txt".toList (by decide))
          (List.replicate (2 ^ 31 + 2) (largeMessage, fun _ => {}))) { disk := emptyDisk }) :=
  ⟨own_counter_misplaces (by decide) (fresh_tmpLog _ _),
    overflow_misplaces rfl (by decide) (fresh_tmpLog _ _)⟩

end ConferenceCall.Log

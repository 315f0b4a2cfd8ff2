import ConferenceCall.Log.Reading

/-! What a rotation does with the counter it uses, whatever fails: the backups stay in the range of
the counter that is stored in the end, unless this one is behind them. -/

namespace ConferenceCall.Log

open Library Program

variable {sh : Text → List (List Text)} {log : LogFile} {s t : State} {P : Prop} {i : ℤ}

theorem retains_congr {d d' : Disk} {k : ℤ} (hcwd : d'.cwd = d.cwd)
    (h : d'.node (log.backup d.cwd k) = d.node (log.backup d.cwd k)) :
    log.Retains d' k ↔ log.Retains d k := by rw [LogFile.Retains, LogFile.Retains, hcwd, h]

/-- The backup made by a rename. -/
theorem move_backup {c : List Item} {k : ℤ}
    (h : s.disk.node (log.path s.disk.cwd log.name) = some (.file c)) :
    (s.disk.move (log.path s.disk.cwd log.name) (log.backup s.disk.cwd i)).node
      (log.backup s.disk.cwd k) =
        if k = i then some (.file c) else s.disk.node (log.backup s.disk.cwd k) := by
  have hne (j : ℤ) : log.backup s.disk.cwd j ≠ log.path s.disk.cwd log.name :=
    path_name_ne_backup.symm
  split_ifs with hk
  · rw [hk, Disk.move_node_new (hne i).symm, h]
  · refine Disk.move_node_of_ne (hne k) ?_
    rwa [LogFile.backup, LogFile.backup, Ne, log.path_inj, backupFilePath_inj]

/-- The calls after the backups were cleared: a file may become a backup, and the counter may be
written. -/
structure Moves (log : LogFile) (i : ℤ) (logInfo : LogInfo) (s : State)
    (o : Outcome State (Event Call Call.Answer State) Unit) (moved : Prop) : Prop where
  cwd : o.state.disk.cwd = s.disk.cwd
  dir : o.state.disk.IsDir (Path.resolve s.disk.cwd log.dir) ↔
    s.disk.IsDir (Path.resolve s.disk.cwd log.dir)
  retains : ∀ k, log.Retains o.state.disk k ↔ log.Retains s.disk k ∨ moved ∧ k = i
  plain : ∀ k, s.disk.node (log.backup s.disk.cwd k) ≠ some .dir →
    o.state.disk.node (log.backup s.disk.cwd k) ≠ some .dir
  strikes : ∀ e ∈ o.calls, e.before.disk.cwd = s.disk.cwd ∧
    ∀ k, Strikes (log.backup s.disk.cwd k) e → e.before = s ∧ k = i
  settled : ∀ P, ¬log.Pending P o.calls →
    ¬P ∧ o.state.disk.node (log.info s.disk.cwd) = s.disk.node (log.info s.disk.cwd) ∧
        (moved → ∀ j, j < i → ¬log.Retains s.disk j) ∨
      ∃ e ∈ o.calls, e.call = .write .fd logInfo.bytes ∧ log.Settles e ∧
        o.state.disk.node (log.info s.disk.cwd) = some (.file (Item.ofText logInfo.bytes))

/-- A rename makes a backup, or nothing happens. -/
structure Renamed (log : LogFile) (i : ℤ) (s : State) (r : Bool) (t : State) : Prop where
  cwd : t.disk.cwd = s.disk.cwd
  opened : ∀ h ∈ t.opened .fd, h.path = log.info s.disk.cwd
  others : ∀ p, p ≠ log.path s.disk.cwd log.name → p ≠ log.backup s.disk.cwd i →
    t.disk.node p = s.disk.node p
  retains : ∀ k, log.Retains t.disk k ↔ log.Retains s.disk k ∨ r = true ∧ k = i
  plain : ∀ k, s.disk.node (log.backup s.disk.cwd k) ≠ some .dir →
    t.disk.node (log.backup s.disk.cwd k) ≠ some .dir

variable (sh) in
theorem renamed (hown : logInfoPath log.name ≠ log.name)
    (hopened : ∀ h ∈ s.opened .fd, h.path = log.info s.disk.cwd) (x : Choice) :
    Renamed log i s (act sh (.rename log.text (backupFilePath log.text i)) x s).1
      (act sh (.rename log.text (backupFilePath log.text i)) x s).2 := by
  have hold : s.disk.lookup log.text = _ := LogFile.lookup_text log.proper
  have hpath : s.disk.path log.text = log.path s.disk.cwd log.name := LogFile.path_text log.proper
  rcases act_rename_cases sh x s log.text (backupFilePath log.text i) with
    hact | ⟨c, hc, -, hact⟩
  · rw [hact]
    exact ⟨rfl, hopened, fun _ _ _ => rfl, by simp, fun _ h => h⟩
  rw [hact, hpath, backup_text]
  have hfile : s.disk.node (log.path s.disk.cwd log.name) = some (.file c) := hold.symm.trans hc
  have hnode (k : ℤ) := move_backup (i := i) (k := k) hfile
  have hcwd : (s.move (log.path s.disk.cwd log.name) (log.backup s.disk.cwd i)).disk.cwd =
      s.disk.cwd := Disk.move_cwd
  refine ⟨hcwd, fun h hm => ?_, fun p hp hp' => Disk.move_node_of_ne hp hp', fun k => ?_,
    fun k hk => ?_⟩
  · obtain ⟨h', hs, hm⟩ := Option.bind_eq_some_iff.mp hm
    have hinfo := hopened h' hs
    rw [if_neg] at hm
    · split_ifs at hm
      cases hm
      exact hinfo
    · rwa [hinfo, LogFile.info, log.path_inj]
  · rw [LogFile.Retains, hcwd]
    change (s.disk.move _ _).node _ ≠ none ↔ _
    rw [hnode, LogFile.Retains]
    split_ifs with hk <;> simp [hk]
  · change (s.disk.move _ _).node _ ≠ _
    rw [hnode]
    split_ifs
    · simp
    · exact hk

variable (sh) in
theorem moves_rename (hown : logInfoPath log.name ≠ log.name) (h : log.Framed s s)
    (logInfo : LogInfo) (x : ℕ → Choice) : ∃ moved, Moves log i logInfo s
      ((Program.call (Call.rename log.text (backupFilePath log.text i)) fun _ =>
        WriteLogInfo log.text logInfo).exec (perform sh) x s) moved := by
  rw [exec_call]
  split_ifs
  · exact ⟨False, rfl, Iff.rfl, by simp, fun _ h => h, by simp,
      fun P hP => .inl ⟨hP, rfl, False.elim⟩⟩
  have hrenamed := renamed sh (i := i) hown h.opened (x 0)
  rw [event]
  generalize act sh (.rename log.text (backupFilePath log.text i)) (x 0) s = rt at hrenamed ⊢
  obtain ⟨r, t⟩ := rt
  obtain ⟨hcwd, hopened, hothers, hretains, hplain⟩ : Renamed log i s r t := hrenamed
  have ht : log.Framed t t := framed_refl (by rwa [hcwd])
  have hmakes := makes_WriteLogInfo log logInfo
  obtain ⟨hrest, hcalls⟩ := ht.exec sh hmakes (fun n => x (n + 1))
  have hsettles (P : Prop) := counting_settles sh P (fun n => x (n + 1)) hmakes ht
  generalize (WriteLogInfo log.text logInfo).exec (perform sh) (fun n => x (n + 1)) t = o at *
  have hsame (p : Path) (hp : p ≠ log.info s.disk.cwd) : o.state.disk.node p = t.disk.node p :=
    hrest.others p (by rwa [hcwd])
  have hbackup (k : ℤ) := hsame _ (backup_ne_info log s.disk.cwd k)
  have hpath : s.disk.path log.text = log.path s.disk.cwd log.name := LogFile.path_text log.proper
  have hinfo : t.disk.node (log.info s.disk.cwd) = s.disk.node (log.info s.disk.cwd) := by
    refine hothers _ ?_ (backup_ne_info log _ _).symm
    rwa [LogFile.info, Ne, log.path_inj]
  have hocwd : o.state.disk.cwd = s.disk.cwd := hrest.cwd.trans hcwd
  refine ⟨r = true, hocwd, ?_, fun k => ?_, fun k hk => ?_, fun e he => ?_, fun P hP => ?_⟩
  · have hnode : o.state.disk.node (Path.resolve s.disk.cwd log.dir) =
        s.disk.node (Path.resolve s.disk.cwd log.dir) :=
      (hsame _ (log.path_ne_dir _ _)).trans
        (hothers _ (log.path_ne_dir _ _) (log.path_ne_dir _ _))
    rw [Disk.IsDir, Disk.IsDir, Outcome.after_state, hnode]
  · rw [← hretains, Outcome.after_state, LogFile.Retains, LogFile.Retains, hocwd, hcwd, hbackup]
  · rw [Outcome.after_state, hbackup]
    exact hplain k hk
  · rcases List.mem_append.mp he with he | he
    · obtain rfl := List.mem_singleton.mp he
      refine ⟨rfl, fun k hk => ⟨rfl, ?_⟩⟩
      obtain ⟨-, hold | hnew⟩ := hk
      · exact absurd (hpath.symm.trans hold) path_name_ne_backup
      · rw [backup_text, LogFile.backup, LogFile.backup, log.path_inj, backupFilePath_inj] at hnew
        exact hnew.symm
    · obtain ⟨hb, -, hstrikes⟩ := hcalls e he
      exact ⟨hb.cwd.trans hcwd, fun k hk => absurd hk (hcwd ▸ hstrikes k)⟩
  · rcases hsettles _ hP with ⟨hP, hnode⟩ | ⟨e, he, hc, hs, hnode⟩
    · rw [not_or, not_and_not_right] at hP
      refine .inl ⟨fun h => hP.2 h, ?_, fun hr j hj hretained => hP.1 (.inl ?_)⟩
      · exact hcwd ▸ hnode.trans (hcwd ▸ hinfo)
      · exact ⟨hr, i, j, rfl, hj, hretained⟩
    · exact .inr ⟨e, by simp [he], hc, hs, hcwd ▸ hnode⟩

/-- A backup is removed, or nothing happens. -/
structure Unlinked (log : LogFile) (i : ℤ) (s : State) (r : Bool) (t : State) : Prop where
  cwd : t.disk.cwd = s.disk.cwd
  opened : ∀ h ∈ t.opened .fd, h.path = log.info s.disk.cwd
  others : ∀ p, p ≠ log.backup s.disk.cwd i → t.disk.node p = s.disk.node p
  retains : ∀ k, log.Retains t.disk k ↔ log.Retains s.disk k ∧ ¬(r = true ∧ k = i)
  plain : ∀ k, s.disk.node (log.backup s.disk.cwd k) ≠ some .dir →
    t.disk.node (log.backup s.disk.cwd k) ≠ some .dir

variable (sh) in
theorem unlinked (hopened : ∀ h ∈ s.opened .fd, h.path = log.info s.disk.cwd) (x : Choice) :
    Unlinked log i s (act sh (.unlink (backupFilePath log.text i)) x s).1
      (act sh (.unlink (backupFilePath log.text i)) x s).2 := by
  rcases act_unlink_cases sh x s (backupFilePath log.text i) with hact | ⟨c, -, hact⟩
  · rw [hact]
    exact ⟨rfl, hopened, fun _ _ => rfl, by simp, fun _ h => h⟩
  rw [hact, backup_text]
  have hnode (k : ℤ) : (s.disk.put (log.backup s.disk.cwd i) none).node (log.backup s.disk.cwd k) =
      if k = i then none else s.disk.node (log.backup s.disk.cwd k) := by
    split_ifs with hk
    · rw [hk, Disk.put_node_self]
    · rw [Disk.put_node_of_ne]
      rwa [LogFile.backup, LogFile.backup, Ne, log.path_inj, backupFilePath_inj]
  refine ⟨rfl, fun h hm => hopened h (State.mem_setDisk hm), fun p hp => Disk.put_node_of_ne hp,
    fun k => ?_, fun k hk => ?_⟩
  · change (s.disk.put _ _).node (log.backup s.disk.cwd k) ≠ none ↔ _
    rw [hnode, LogFile.Retains]
    split_ifs with hk <;> simp [hk]
  · change (s.disk.put _ _).node _ ≠ _
    rw [hnode]
    split_ifs
    · simp
    · exact hk

variable (sh) in
theorem misses (x : Choice) (h : s.disk.node (log.backup s.disk.cwd i) ≠ some .dir)
    (hretains : log.Retains s.disk i)
    (hr : (act sh (.unlink (backupFilePath log.text i)) x s).1 = false) :
    Misses (event sh (.unlink (backupFilePath log.text i)) x s) := by
  refine ⟨hr, ?_⟩
  rw [log.backupFilePath_text, LogFile.isFile_text (proper_backupFilePath log.proper i),
    Disk.content]
  rcases hn : s.disk.node (log.path s.disk.cwd (backupFilePath log.name i)) with _ | _ | c
  · exact absurd hn hretains
  · exact absurd hn h
  · rfl

/-- What a rotation with a counter leads to. -/
structure Rotates (log : LogFile) (logInfo : LogInfo) (s : State)
    (o : Outcome State (Event Call Call.Answer State) Unit) : Prop where
  cwd : o.state.disk.cwd = s.disk.cwd
  dir : o.state.disk.IsDir (Path.resolve s.disk.cwd log.dir) ↔
    s.disk.IsDir (Path.resolve s.disk.cwd log.dir)
  strikes : ∀ e ∈ o.calls, e.before.disk.cwd = s.disk.cwd ∧
    ∀ k j, Strikes (log.backup s.disk.cwd k) e → log.Retains e.before.disk k →
      log.Retains e.before.disk j → k ≤ j
  settled : ∀ P, ¬log.Pending P o.calls → log.Holds False o.calls →
    ¬P ∧ o.state.disk.node (log.info s.disk.cwd) = s.disk.node (log.info s.disk.cwd) ∧
        log.Ranged o.state.disk logInfo ∨
      (∃ e ∈ o.calls, e.call = .write .fd logInfo.next.bytes ∧ log.Settles e) ∧
        o.state.disk.node (log.info s.disk.cwd) = some (.file (Item.ofText logInfo.next.bytes)) ∧
        log.Ranged o.state.disk logInfo.next

variable {logInfo : LogInfo}

section Ranged

variable {d d' : Disk} (h : log.Ranged d logInfo)
  (hplain : ∀ k, d'.node (log.backup d'.cwd k) ≠ some .dir)
include h hplain

theorem LogFile.Ranged.of_subset (hsub : ∀ k, log.Retains d' k → log.Retains d k) :
    log.Ranged d' logInfo :=
  ⟨h.count, h.index, h.first, fun k hk => h.backups k (hsub k hk),
    fun k ht hk => h.last k (hsub _ ht) (hsub k hk), hplain⟩

/-- A new backup is not counted when there are none before it. -/
theorem LogFile.Ranged.move (moved : Prop)
    (hsub : ∀ k, log.Retains d' k → log.Retains d k ∨
      moved ∧ k = logInfo.oldestIndex + logInfo.count)
    (hlower : moved → ∀ j < logInfo.oldestIndex + logInfo.count, ¬log.Retains d j) :
    log.Ranged d' logInfo := by
  have hcount := h.count.1
  refine ⟨h.count, h.index, h.first, fun k hk => ?_, fun k ht hk => ?_, hplain⟩
  · rcases hsub k hk with hk | ⟨-, rfl⟩
    · exact h.backups k hk
    · omega
  · rcases hsub k hk with hk | ⟨-, hk⟩
    · rcases hsub _ ht with ht | ⟨hmoved, -⟩
      · exact h.last k ht hk
      · have hle := (h.backups k hk).2
        by_contra hne
        exact hlower hmoved k (by omega) hk
    · exact hk

/-- A new backup is counted; when there is no room, the oldest one is not there any more. -/
theorem LogFile.Ranged.next (hfits : Word.Fits (logInfo.oldestIndex + MAX_LOG_FILE_NUM))
    (hsub : ∀ k, log.Retains d' k → log.Retains d k ∨
      k = logInfo.oldestIndex + logInfo.count)
    (hgone : ¬logInfo.count < MAX_LOG_FILE_NUM → ¬log.Retains d' logInfo.oldestIndex) :
    log.Ranged d' logInfo.next := by
  obtain ⟨hcount, hmax⟩ := h.count
  have hindex := h.index
  have hrange (k : ℤ) (hk : log.Retains d' k) : logInfo.oldestIndex ≤ k ∧
      k ≤ logInfo.oldestIndex + logInfo.count := by
    rcases hsub k hk with hk | rfl
    · exact h.backups k hk
    · omega
  unfold LogInfo.next
  split_ifs with hroom
  · have hfirst := h.first hroom
    refine ⟨⟨?_, ?_⟩, hindex, fun _ => hfirst, fun k hk => ?_, fun k ht => ?_, hplain⟩ <;> dsimp only at *
    · omega
    · omega
    · have hk := hrange k hk
      omega
    · have ht := hrange _ ht
      omega
  · have hfull : logInfo.count = 63 := le_antisymm hmax (not_lt.mp hroom)
    have hword : Word.int32 (logInfo.oldestIndex + 1) = logInfo.oldestIndex + 1 := by
      obtain ⟨-, hfits⟩ := hfits
      rw [MAX_LOG_FILE_NUM] at hfits
      exact Word.int32_of_fits ⟨by omega, by omega⟩
    rw [hword]
    refine ⟨h.count, ?_, fun hlt => absurd hlt hroom, fun k hk => ?_, fun k ht => ?_, hplain⟩ <;>
      dsimp only at *
    · omega
    · have hne : k ≠ logInfo.oldestIndex := by
        rintro rfl
        exact hgone hroom hk
      have hk := hrange k hk
      omega
    · have ht := hrange _ ht
      omega

end Ranged

/-- A rotation that finds room. -/
theorem rotates_room (hown : logInfoPath log.name ≠ log.name) (h : log.Framed s s)
    (hr : log.Ranged s.disk logInfo) (hcount : logInfo.count < MAX_LOG_FILE_NUM)
    (hfits : Word.Fits (logInfo.oldestIndex + MAX_LOG_FILE_NUM)) (x : ℕ → Choice) :
    Rotates log logInfo s ((rotate log.text logInfo).exec (perform sh) x s) := by
  have hfirst := hr.first hcount
  have htarget : logInfo.count = logInfo.oldestIndex + logInfo.count := by omega
  have hnext : logInfo.next = { logInfo with count := logInfo.count + 1 } := if_pos hcount
  rw [rotate, if_pos hcount, request_bind, ← hnext]
  obtain ⟨moved, hm⟩ := moves_rename sh (i := logInfo.count) hown h logInfo.next x
  refine ⟨hm.cwd, hm.dir, fun e he => ⟨(hm.strikes e he).1, fun k j hs hk hj => ?_⟩,
    fun P hP _ => ?_⟩
  · obtain ⟨hb, rfl⟩ := (hm.strikes e he).2 k hs
    rw [hb] at hk hj
    have hlast := hr.last j (htarget ▸ hk) hj
    omega
  have hplain (k : ℤ) := hm.plain k (hr.plain k)
  rw [← hm.cwd] at hplain
  rcases hm.settled P hP with ⟨hP, hinfo, hlower⟩ | ⟨e, he, hc, hs, hinfo⟩
  · refine .inl ⟨hP, hinfo, hr.move hplain moved (fun k hk => ?_) fun hmoved j hj => ?_⟩
    · exact ((hm.retains k).mp hk).imp_right fun h => ⟨h.1, h.2.trans htarget⟩
    · exact hlower hmoved j (htarget ▸ hj)
  · refine .inr ⟨⟨e, he, hc, hs⟩, hinfo, hr.next hplain hfits (fun k hk => ?_) (absurd hcount)⟩
    exact ((hm.retains k).mp hk).imp_right fun h => h.2.trans htarget

/-- A rotation that removes the oldest backup. -/
theorem rotates_full (hown : logInfoPath log.name ≠ log.name) (h : log.Framed s s)
    (hr : log.Ranged s.disk logInfo) (hcount : ¬logInfo.count < MAX_LOG_FILE_NUM)
    (hfits : Word.Fits (logInfo.oldestIndex + MAX_LOG_FILE_NUM)) (x : ℕ → Choice) :
    Rotates log logInfo s ((rotate log.text logInfo).exec (perform sh) x s) := by
  obtain ⟨hcount0, hmax⟩ := hr.count
  have hindex := hr.index
  have hfull : logInfo.count = MAX_LOG_FILE_NUM := le_antisymm hmax (not_lt.mp hcount)
  have htarget : Word.int32 (logInfo.oldestIndex + logInfo.count) =
      logInfo.oldestIndex + logInfo.count := Word.int32_of_fits (hfull ▸ hfits)
  have hnext : logInfo.next =
    { logInfo with oldestIndex := Word.int32 (logInfo.oldestIndex + 1) } := if_neg hcount
  rw [rotate, if_neg hcount, request_bind, ← hnext, htarget]
  rw [exec_call]
  split_ifs
  · refine ⟨rfl, Iff.rfl, by simp, fun P hP _ => .inl ⟨hP, rfl, hr⟩⟩
  have hunlinked := unlinked sh (i := logInfo.oldestIndex) h.opened (x 0)
  have hmisses := misses sh (x 0) (hr.plain logInfo.oldestIndex)
  rw [event] at hmisses ⊢
  generalize act sh (.unlink (backupFilePath log.text logInfo.oldestIndex)) (x 0) s = rt
    at hunlinked hmisses ⊢
  obtain ⟨r, t⟩ := rt
  obtain ⟨hcwd, hopened, hothers, hretains, hplain⟩ : Unlinked log logInfo.oldestIndex s r t :=
    hunlinked
  have ht : log.Framed t t := framed_refl (by rwa [hcwd])
  have hrt : log.Ranged t.disk logInfo := by
    refine hr.of_subset (fun k => ?_) fun k hk => ((hretains k).mp hk).1
    rw [hcwd]
    exact hplain k (hr.plain k)
  obtain ⟨moved, hm⟩ := moves_rename sh (i := logInfo.oldestIndex + logInfo.count) hown ht
    logInfo.next (fun n => x (n + 1))
  simp only [request_bind]
  generalize (Program.call _ _ : Prog Unit).exec (perform sh) (fun n => x (n + 1)) t = o at hm ⊢
  have hdir : t.disk.IsDir (Path.resolve s.disk.cwd log.dir) ↔
      s.disk.IsDir (Path.resolve s.disk.cwd log.dir) := by
    rw [Disk.IsDir, Disk.IsDir, hothers _ (log.path_ne_dir _ _)]
  refine ⟨hm.cwd.trans hcwd, ?_, fun e he => ?_, fun P hP hholds => ?_⟩
  · exact (hcwd ▸ hm.dir).trans hdir
  · rcases List.mem_append.mp he with he | he
    · obtain rfl := List.mem_singleton.mp he
      refine ⟨rfl, fun k j hs _ hj => ?_⟩
      obtain ⟨-, hpath⟩ := hs
      rw [backup_text, LogFile.backup, LogFile.backup, log.path_inj, backupFilePath_inj] at hpath
      exact hpath ▸ (hr.backups j hj).1
    · obtain ⟨hb, hstrikes⟩ := hm.strikes e he
      refine ⟨hb.trans hcwd, fun k j hs hk hj => ?_⟩
      obtain ⟨hbt, rfl⟩ := hstrikes k (hcwd.symm ▸ hs)
      rw [hbt] at hk hj
      exact (hrt.last j hk hj).ge
  have hplain' (k : ℤ) := hm.plain k (hrt.plain k)
  rw [← hm.cwd] at hplain'
  rcases hm.settled _ hP with ⟨hP, hinfo, hlower⟩ | ⟨e, he, hc, hs, hinfo⟩
  · rw [not_or, not_and_not_right] at hP
    refine .inl ⟨hP.2, ?_, hrt.move hplain' moved (fun k => (hm.retains k).mp) hlower⟩
    rw [hcwd] at hinfo
    exact hinfo.trans (hothers _ (backup_ne_info log _ _).symm)
  · refine .inr ⟨⟨e, by simp [he], hc, hs⟩, hcwd ▸ hinfo, hrt.next hplain' hfits
      (fun k hk => ((hm.retains k).mp hk).imp_right And.right) fun _ hk => ?_⟩
    rcases (hm.retains _).mp hk with hk | ⟨-, hk⟩
    · obtain ⟨hks, hr⟩ := (hretains _).mp hk
      have hmissed := hmisses hks (by simpa using hr)
      exact LogFile.Holds.not_settles hholds.2 (.inr hmissed) e he hs
    · rw [MAX_LOG_FILE_NUM] at hfull
      omega

variable (sh) in
theorem rotates (hown : logInfoPath log.name ≠ log.name) (h : log.Framed s s)
    (hr : log.Ranged s.disk logInfo)
    (hfits : Word.Fits (logInfo.oldestIndex + MAX_LOG_FILE_NUM)) (x : ℕ → Choice) :
    Rotates log logInfo s ((rotate log.text logInfo).exec (perform sh) x s) := by
  by_cases hcount : logInfo.count < MAX_LOG_FILE_NUM
  · exact rotates_room hown h hr hcount hfits x
  · exact rotates_full hown h hr hcount hfits x

end ConferenceCall.Log

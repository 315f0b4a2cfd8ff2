import ConferenceCall.Log.Newest
import ConferenceCall.Log.Survival

/-! The backups survive the rotations whose failures leave the counter in step with them, and are
overwritten after one that is stopped between the rename and the write of the counter. -/

namespace ConferenceCall.Log

open Library Program

variable {sh : Text → List (List Text)} {log : LogFile} {s t : State} {logInfo : LogInfo}

theorem LogFile.Ranged.next_fits (h : log.Ranged s.disk logInfo)
    (hfits : Word.Fits (logInfo.oldestIndex + MAX_LOG_FILE_NUM)) :
    Word.Fits logInfo.next.count ∧ Word.Fits logInfo.next.oldestIndex := by
  obtain ⟨hcount, hmax⟩ := h.count
  have hindex := h.index
  obtain ⟨-, hfits⟩ := hfits
  rw [MAX_LOG_FILE_NUM] at hmax hfits
  rw [LogInfo.next]
  split_ifs
  · exact ⟨⟨by dsimp only; omega, by dsimp only; omega⟩, ⟨by dsimp only; omega, by dsimp only; omega⟩⟩
  · exact ⟨⟨by dsimp only; omega, by dsimp only; omega⟩, Word.fits_int32 _⟩

/-- One rotation: whatever fails, no backup but the oldest is struck, and the backups stay in the
range of a counter that was stored, unless the counter is still to be written. -/
theorem backup_outcome (hown : logInfoPath log.name ≠ log.name)
    (hf : log.Framed s s) (h : log.Orderly s.disk logInfo)
    (hfits : Word.Fits (logInfo.oldestIndex + MAX_LOG_FILE_NUM)) (x : ℕ → Choice)
    (hreads : ∀ e ∈ ((ReadLogInfo log.text).exec (perform sh) x s).calls, Complete e)
    {o : Outcome State (Event Call Call.Answer State) Unit}
    (ho : (BackupLogFile log.text).exec (perform sh) x s = o) :
    (∀ e ∈ o.calls, ∀ k j, Strikes (log.backup e.before.disk.cwd k) e →
      log.Retains e.before.disk k → log.Retains e.before.disk j → k ≤ j) ∧
    (¬log.Pending False o.calls → log.Holds False o.calls → log.Orderly o.state.disk logInfo ∨
      log.Orderly o.state.disk logInfo.next ∧
        ∃ e ∈ o.calls, e.call = .write .fd logInfo.next.bytes ∧ log.Settles e) := by
  obtain ⟨hread, hquiet⟩ := hf.exec sh (makes_ReadLogInfo log) x
  have hvalue (read : LogInfo) (hread : ((ReadLogInfo log.text).exec (perform sh) x s).value =
      some read) : read = logInfo := read_value h.stored hreads hread
  have hcounter := read_counter sh h.stored hf x
  rw [BackupLogFile, Program.exec_bind] at ho
  generalize (ReadLogInfo log.text).exec (perform sh) x s = r at hread hquiet hvalue hcounter ho
  have hbackup (k : ℤ) : r.state.disk.node (log.backup s.disk.cwd k) =
      s.disk.node (log.backup s.disk.cwd k) := hread.others _ (backup_ne_info log _ _)
  have hdir : r.state.disk.IsDir (Path.resolve r.state.disk.cwd log.dir) := by
    rw [hread.cwd, isDir_congr (hread.others _ (log.path_ne_dir _ _))]
    exact h.dir
  have hranged : log.Ranged r.state.disk logInfo := by
    refine h.ranged.of_subset (fun k => ?_) fun k => (retains_congr hread.cwd (hbackup k)).mp
    rw [hread.cwd, hbackup]
    exact h.ranged.plain k
  have hread_strikes (e) (he : e ∈ r.calls) (k j : ℤ)
      (hs : Strikes (log.backup e.before.disk.cwd k) e) : k ≤ j := by
    obtain ⟨hb, -, hstrikes⟩ := hquiet e he
    exact absurd hs (hb.cwd ▸ hstrikes k)
  rcases r with ⟨_ | read, t, l⟩
  · subst ho
    refine ⟨fun e he k j hs _ _ => hread_strikes e he k j hs, fun hpending _ => ?_⟩
    exact .inl ⟨hdir, hcounter hpending, hranged⟩
  obtain rfl : logInfo = read := (hvalue read rfl).symm
  rw [Outcome.andThen_some] at ho
  have hrotates := rotates sh hown (framed_refl (by rw [hread.cwd]; exact hread.opened))
    hranged hfits (fun n => x (n + l.length))
  generalize (rotate log.text logInfo).exec (perform sh) (fun n => x (n + l.length)) t = o' at *
  subst ho
  refine ⟨fun e he k j hs hk hj => ?_, fun hpending hholds => ?_⟩
  · rcases List.mem_append.mp he with he | he
    · exact hread_strikes e he k j hs
    · obtain ⟨hcwd, hstrikes⟩ := hrotates.strikes e he
      exact hstrikes k j (hcwd ▸ hs) hk hj
  rw [Outcome.after_calls, LogFile.pending_append] at hpending
  have hdir' : o'.state.disk.IsDir (Path.resolve o'.state.disk.cwd log.dir) := by
    rw [hrotates.cwd]
    exact hrotates.dir.mpr hdir
  rcases hrotates.settled _ hpending (LogFile.Holds.right hholds) with
    ⟨hP, hinfo, hr⟩ | ⟨⟨e, he, hc, hs⟩, hinfo, hr⟩
  · exact .inl ⟨hdir', counter_congr (hcounter hP) hrotates.cwd hinfo hrotates.dir, hr⟩
  · obtain ⟨hcount, hindex⟩ := hranged.next_fits hfits
    rw [← hrotates.cwd] at hinfo
    exact .inr ⟨⟨hdir', .stored hinfo hcount hindex, hr⟩, e, List.mem_append_right _ he, hc, hs⟩

/-! ### Runs -/

theorem LogFile.Orderly.between (hown : logInfoPath log.name ≠ log.name) {d : Disk}
    (h : log.Orderly d logInfo) (b : LogFile.Between) : log.Orderly (log.between b d) logInfo := by
  have hnode (p : Path) : (log.between b d).node p =
      if ∃ i ∈ b.archived, p = log.backup d.cwd i then none
      else (d.put (log.path d.cwd log.name) (b.content.map .file)).node p := rfl
  have hsame {p : Path} (hfile : p ≠ log.path d.cwd log.name) (hb : ∀ i, p ≠ log.backup d.cwd i) :
      (log.between b d).node p = d.node p := by
    rw [hnode, if_neg (by rintro ⟨i, -, hp⟩; exact hb i hp), Disk.put_node_of_ne hfile]
  have hbackup (i : ℤ) : (log.between b d).node (log.backup d.cwd i) = none ∨
      (log.between b d).node (log.backup d.cwd i) = d.node (log.backup d.cwd i) := by
    rw [hnode]
    split_ifs
    · exact .inl rfl
    · exact .inr (Disk.put_node_of_ne path_name_ne_backup.symm)
  have hinfo : (log.between b d).node (log.info d.cwd) = d.node (log.info d.cwd) := by
    refine hsame ?_ fun i => (backup_ne_info log _ i).symm
    rwa [LogFile.info, Ne, log.path_inj]
  have hdir := isDir_congr (hsame (log.path_ne_dir d.cwd log.name) fun i => log.path_ne_dir _ _)
  refine ⟨hdir.mpr h.dir, counter_congr h.stored rfl hinfo hdir,
    h.ranged.of_subset (fun k => ?_) fun k hk => ?_⟩
  · rcases hbackup k with hk | hk
    · rw [LogFile.backup] at hk
      change (log.between b d).node (log.path d.cwd _) ≠ _
      simp [hk]
    · change (log.between b d).node (log.backup d.cwd k) ≠ _
      rw [hk]
      exact h.ranged.plain k
  · rcases hbackup k with hk' | hk'
    · exact absurd hk' hk
    · rw [LogFile.Retains, ← hk']
      exact hk

/-- A counter and what was stored so far. -/
structure LogFile.Recorded (log : LogFile) (s : State)
    (o : List (Outcome State (Event Call Call.Answer State) Unit)) (logInfo : LogInfo) : Prop where
  orderly : log.Orderly s.disk logInfo
  stored : logInfo = ⟨0, 0⟩ ∨ log.Stored o logInfo

theorem LogFile.Recorded.step (hown : logInfoPath log.name ≠ log.name)
    {o : List (Outcome State (Event Call Call.Answer State) Unit)} (h : log.Recorded s o logInfo)
    (i : LogFile.Between × (ℕ → Choice)) (hi : log.Undisturbed sh i s) :
    log.Survives sh o i s ∧ ∃ next, log.Recorded (log.rotation sh i s).1
      (o ++ (log.rotation sh i s).2) next := by
  obtain ⟨b, x⟩ := i
  have hfits := hi.fits logInfo h.orderly.stored
  have horderly := h.orderly.between hown b
  have hf : log.Framed { disk := log.between b s.disk } { disk := log.between b s.disk } :=
    framed_refl (by simp)
  obtain ⟨hstrikes, hnext⟩ := backup_outcome hown hf horderly hfits x hi.reads rfl
  refine ⟨⟨hstrikes, fun read hread => ?_⟩, ?_⟩
  · rw [read_value horderly.stored hi.reads hread]
    exact h.stored
  · rcases hnext hi.settles hi.holds with hsame | ⟨hsame, e, he, hc, hs⟩
    · refine ⟨logInfo, hsame, h.stored.imp_right ?_⟩
      rintro ⟨r, hr, hstored⟩
      exact ⟨r, List.mem_append_left _ hr, hstored⟩
    · exact ⟨logInfo.next, hsame, .inr ⟨_, List.mem_append_right _ List.mem_cons_self, e, he, hc, hs⟩⟩

theorem Fresh.orderly {d : Disk} (hfresh : Fresh log d) : log.Orderly d ⟨0, 0⟩ := by
  have hnone (k : ℤ) : ¬log.Retains d k := fun hk => hk (hfresh.backups k)
  refine ⟨hfresh.dir, .missing hfresh.info hfresh.dir, by decide, by decide, fun _ => rfl,
    fun k hk => absurd hk (hnone k), fun k _ hk => absurd hk (hnone k), fun k hk => ?_⟩
  rw [LogFile.backup, hfresh.backups] at hk
  cases hk

/-- For every run, whatever fails in it: as long as the counter is read and stays in step, no
rotation takes away or overwrites a backup but the oldest, or uses a counter nobody stored. -/
theorem backups_survive (hown : logInfoPath log.name ≠ log.name) (hfresh : Fresh log s.disk)
    (l : List (LogFile.Between × (ℕ → Choice))) (h : (log.rotation sh).Along (log.Undisturbed sh) l s) :
    ∀ l₁ i l₂, l = l₁ ++ i :: l₂ →
      log.Survives sh ((log.rotation sh).run l₁ s).2 i ((log.rotation sh).run l₁ s).1 := by
  intro l₁ i l₂ hl
  rw [hl, Step.along_append, Step.along_cons] at h
  obtain ⟨next, hnext⟩ := Step.run_records
    (R := fun s o => ∃ logInfo, log.Recorded s o logInfo)
    (fun i s o ⟨_, hs⟩ hi => (hs.step hown i hi).2) l₁ s [] ⟨⟨0, 0⟩, hfresh.orderly, .inl rfl⟩ h.1
  exact (hnext.step hown i h.2.1).1

/-! ### Rotations in which nothing fails -/

section Succeeds

variable {x : ℕ → Choice} (hx : ∀ n, (x n).Succeeds)
include hx

theorem exec_call_of_succeeds {α : Type} (c : Call) (next : c.Answer → Prog α) (s : State) :
    (Program.call c next).exec (perform sh) x s =
      ((next (act sh c (x 0) s).1).exec (perform sh) (fun n => x (n + 1))
        (act sh c (x 0) s).2).after [event sh c (x 0) s] := by
  rw [exec_call, if_neg]
  rw [(hx 0).1]
  decide

theorem not_misses_of_succeeds {α : Type} (p : Prog α) :
    ∀ e ∈ (p.exec (perform sh) x s).calls, ¬Misses e := by
  induction p generalizing x s with
  | done a => simp [Program.exec]
  | call c next ih =>
    rw [exec_call_of_succeeds hx]
    intro e he
    rcases List.mem_append.mp he with he | he
    · obtain rfl := List.mem_singleton.mp he
      cases c with
      | unlink path =>
        rintro ⟨hr, hfile⟩
        have hfate : (x 0).fate ≠ .fails := by simp [(hx 0).1]
        unfold Disk.isFile at hfile
        split at hfile
        · next c hc => simp [act_unlink hfate hc] at hr
        · exact Bool.false_ne_true hfile
      | _ => exact id
    · exact ih _ (fun n => hx (n + 1)) e he

omit hx in
theorem settles_write {y : Choice} {h : Handle} {c : List Item} (hy : y.fate = .done)
    (ht : t.target .fd = some (h, c)) (hpath : h.path = log.info t.disk.cwd)
    (happends : h.appends = false) (hlen : c.length ≤ 8) :
    log.Settles (event sh (.write .fd logInfo.bytes) y t) := by
  have hdrop : c.drop logInfo.bytes.length = [] := List.drop_of_length_le hlen
  rw [event, act_write hy ht, happends, if_neg Bool.false_ne_true, hdrop, List.append_nil, hpath]
  exact Disk.put_node_self

/-- The counter is written in the end. -/
theorem not_pending_of_succeeds {P : Prop} {c : List Item} (hlen : c.length ≤ 8)
    (h : s.disk.node (log.info s.disk.cwd) = some (.file c)) :
    ¬log.Pending P ((WriteLogInfo log.text logInfo).exec (perform sh) x s).calls := by
  have hopen : act sh (.openFile .fd (logInfoPath log.text) false false) (x 0) s =
      (true, s.setOpen .fd (some ⟨s.disk.path (logInfoPath log.text), false⟩)) :=
    act_openFile_file (by simp [(hx 0).1]) (lookup_info.trans h)
  have hsettles : log.Settles (event sh (.write .fd logInfo.bytes) (x 1)
      (s.setOpen .fd (some ⟨s.disk.path (logInfoPath log.text), false⟩))) :=
    settles_write (hx 1).1 (target_setOpen (by rw [info_text, h])) (info_text _) rfl hlen
  simp only [WriteLogInfo, request_bind]
  rw [exec_call_of_succeeds hx, hopen, if_pos rfl, exec_call_of_succeeds (fun n => hx (n + 1)),
    Sys.close, Program.request, exec_call_of_succeeds (fun n => hx (n + 1 + 1))]
  rintro (hclose | ⟨hwrite | ⟨-, hwrite⟩, -⟩)
  · exact hclose.elim id fun h => h.2 rfl
  · exact hwrite.elim id fun h => h.1 hsettles
  · exact hwrite hsettles

theorem rotate_not_pending {P : Prop} (hown : logInfoPath log.name ≠ log.name)
    (hf : log.Framed s s) {c : List Item} (hlen : c.length ≤ 8)
    (h : s.disk.node (log.info s.disk.cwd) = some (.file c)) :
    ¬log.Pending P ((rotate log.text logInfo).exec (perform sh) x s).calls := by
  have hmove (i : ℤ) {t : State} (ht : log.Framed t t)
      (h : t.disk.node (log.info t.disk.cwd) = some (.file c)) (y : Choice) :
      (act sh (.rename log.text (backupFilePath log.text i)) y t).2.disk.node
        (log.info (act sh (.rename log.text (backupFilePath log.text i)) y t).2.disk.cwd) =
          some (.file c) := by
    have hr := renamed sh (i := i) hown ht.opened y
    rw [hr.cwd, hr.others _ ?_ (backup_ne_info log _ _).symm, h]
    rwa [LogFile.info, Ne, log.path_inj]
  rw [rotate]
  split_ifs
  · rw [request_bind, exec_call_of_succeeds hx]
    exact not_pending_of_succeeds (fun n => hx (n + 1)) hlen (hmove _ hf h _)
  · have hu := unlinked sh (i := logInfo.oldestIndex) hf.opened (x 0)
    rw [request_bind, exec_call_of_succeeds hx, request_bind,
      exec_call_of_succeeds fun n => hx (n + 1)]
    refine not_pending_of_succeeds (fun n => hx (n + 1 + 1)) hlen (hmove _ ?_ ?_ _)
    · exact framed_refl (by rw [hu.cwd]; exact hu.opened)
    · rw [hu.cwd, hu.others _ (backup_ne_info log _ _).symm, h]

theorem complete_of_succeeds (h : log.Counter s.disk logInfo) :
    ∀ e ∈ ((ReadLogInfo log.text).exec (perform sh) x s).calls, Complete e := by
  intro e he
  simp only [ReadLogInfo, request_bind] at he
  rcases mem_calls sh he with rfl | he
  · trivial
  split_ifs at he with hfound
  · rcases mem_calls sh he with rfl | he
    · exact fun h => absurd h (by decide)
    split_ifs at he
    · rcases mem_calls sh he with rfl | he
      · trivial
      · rcases mem_calls sh he with rfl | he
        · trivial
        · cases he
    · cases he
  · cases h with
    | missing hnone hdir =>
      rw [act, lookup_info, LogFile.info, hnone] at hfound
      exact absurd rfl hfound
    | stored hinfo hcount hindex =>
      have hopen : act sh (.openFile .fd (logInfoPath log.text) false false) (x 2) s =
          (true, s.setOpen .fd (some ⟨s.disk.path (logInfoPath log.text), false⟩)) :=
        act_openFile_file (by simp [(hx 2).1]) (lookup_info.trans hinfo)
      have hread : act sh (.read .fd LogInfo.byteSize) (x 3)
          (s.setOpen .fd (some ⟨s.disk.path (logInfoPath log.text), false⟩)) = _ :=
        act_read (hx 3).1 (target_setOpen (by rw [info_text, LogFile.info, hinfo]))
      have hlength : List.length (act sh (.read .fd LogInfo.byteSize) (x 3)
          (act sh (.openFile .fd (logInfoPath log.text) false false) (x 2) s).2).1 =
            LogInfo.byteSize := by
        rw [hopen, hread, Item.text_ofText]
        rfl
      rcases mem_calls sh he with rfl | he
      · trivial
      rcases mem_calls sh he with rfl | he
      · intro _
        exact congrArg Prod.fst hopen
      split_ifs at he
      · rcases mem_calls sh he with rfl | he
        · exact hlength
        · rcases mem_calls sh he with rfl | he
          · trivial
          · cases he
      · cases he

end Succeeds

theorem holds_of_not_misses {P : Prop} {l : Trace} (hP : ¬P) (h : ∀ e ∈ l, ¬Misses e) :
    log.Holds P l := by
  induction l generalizing P with
  | nil => trivial
  | cons e l ih =>
    exact ⟨fun hs => hP hs.1, ih (not_or.mpr ⟨hP, h e (by simp)⟩) fun e' he => h e' (by simp [he])⟩

/-- A rotation in which nothing fails is undisturbed. -/
theorem undisturbed_of_succeeds (hown : logInfoPath log.name ≠ log.name)
    (h : log.Orderly s.disk logInfo)
    (hfits : Word.Fits (logInfo.oldestIndex + MAX_LOG_FILE_NUM))
    (i : LogFile.Between × (ℕ → Choice)) (hx : ∀ n, (i.2 n).Succeeds) :
    log.Undisturbed sh i s := by
  obtain ⟨b, x⟩ := i
  have hb := h.between hown b
  have hf : log.Framed { disk := log.between b s.disk } { disk := log.between b s.disk } :=
    framed_refl (by simp)
  refine ⟨complete_of_succeeds hx hb.stored, ?_, holds_of_not_misses id
    (not_misses_of_succeeds hx _), fun read hread => ?_⟩
  · have hyields : Yields sh (ReadLogInfo log.text) _ { disk := log.between b s.disk } :=
      yields_ReadLogInfo hb.stored
    obtain ⟨read, hvalue, rfl, hstate⟩ := hyields x hx
    have hframe := (hf.exec sh (makes_ReadLogInfo log) x).1
    rw [LogFile.calls, BackupLogFile, Program.exec_bind]
    generalize (ReadLogInfo log.text).exec (perform sh) x _ = r at hvalue hstate hframe
    obtain ⟨_, t, l⟩ := r
    cases hvalue
    rw [Outcome.andThen_some, Outcome.after_calls, LogFile.pending_append]
    refine rotate_not_pending (c := Item.ofText read.bytes) (fun n => hx _) hown ?_
      (Nat.le_refl 8) ?_
    · exact framed_refl (by rw [hframe.cwd]; exact hframe.opened)
    · have hdisk : t.disk = log.store read (log.between b s.disk) := congrArg State.disk hstate
      rw [hdisk]
      exact log.store_node_info
  · rwa [hread.unique h.stored]

/-- A rotation that is stopped before its first call is, too. -/
theorem undisturbed_of_stops (hfits : ∀ read, log.Counter s.disk read →
      Word.Fits (read.oldestIndex + MAX_LOG_FILE_NUM))
    {i : LogFile.Between × (ℕ → Choice)} (hx : (i.2 0).fate = .stops) :
    log.Undisturbed sh i s := by
  have hreads : (log.reading sh i s).calls = [] := by
    rw [LogFile.reading, ReadLogInfo, request_bind, exec_call, if_pos hx]
  have hcalls : log.calls sh i s = [] := by
    rw [LogFile.calls, BackupLogFile, ReadLogInfo, request_bind, call_bind, exec_call, if_pos hx]
  refine ⟨?_, ?_, ?_, hfits⟩
  · rw [hreads]
    simp
  · rw [hcalls]
    exact id
  · rw [hcalls]
    trivial

/-- So are the rotations of a run in which each succeeds or is stopped at once. -/
theorem along_undisturbed (hown : logInfoPath log.name ≠ log.name)
    {l : List (LogFile.Between × (ℕ → Choice))} (h : log.Orderly s.disk logInfo)
    (hcount : logInfo.count + l.length ≤ MAX_LOG_FILE_NUM)
    (hx : ∀ i ∈ l, (i.2 0).fate = .stops ∨ ∀ n, (i.2 n).Succeeds) :
    (log.rotation sh).Along (log.Undisturbed sh) l s := by
  induction l generalizing s logInfo with
  | nil => exact Step.along_nil _ _
  | cons i l ih =>
    rw [List.length_cons] at hcount
    have hlt : logInfo.count < MAX_LOG_FILE_NUM := by omega
    have hfits : Word.Fits (logInfo.oldestIndex + MAX_LOG_FILE_NUM) := by
      rw [h.ranged.first hlt]
      decide
    have hi : log.Undisturbed sh i s := by
      rcases hx i (by simp) with hstops | hsucceeds
      · exact undisturbed_of_stops (fun read hread => hread.unique h.stored ▸ hfits) hstops
      · exact undisturbed_of_succeeds hown h hfits i hsucceeds
    refine Step.along_cons.mpr ⟨hi, ?_⟩
    have hrest : ∀ i' ∈ l, (i'.2 0).fate = .stops ∨ ∀ n, (i'.2 n).Succeeds :=
      fun i' h' => hx i' (by simp [h'])
    obtain ⟨-, hnext⟩ := backup_outcome hown (framed_refl (by simp)) (h.between hown i.1)
      hfits i.2 hi.reads rfl
    rcases hnext hi.settles hi.holds with hsame | ⟨hsame, -⟩
    · exact ih hsame (by omega) hrest
    · refine ih hsame ?_ hrest
      rw [LogInfo.next, if_pos hlt]
      dsimp only
      omega

/-- The file `a.txt`. -/
def aLog : LogFile := tmpLog "a.txt".toList (by decide)

/-- A rotation of a file with one byte. -/
def rotateByte (c : Char) (x : ℕ → Choice) : LogFile.Between × (ℕ → Choice) :=
  ({ content := some [.byte c] }, x)

/-- The call puts the file in the place of the backup 1, next to the backup 0. -/
def overwrites : Event Call Call.Answer State → Bool
  | ⟨.rename _ new, r, s, _⟩ => r = true ∧ s.disk.path new = aLog.backup s.disk.cwd 1 ∧
    (s.disk.node (aLog.backup s.disk.cwd 1)).isSome ∧
    (s.disk.node (aLog.backup s.disk.cwd 0)).isSome
  | _ => false

theorem not_survives_of_overwrites {o : List (Outcome State (Event Call Call.Answer State) Unit)}
    {i : LogFile.Between × (ℕ → Choice)} (h : (aLog.calls sh i s).any overwrites = true) :
    ¬aLog.Survives sh o i s := by
  intro hs
  obtain ⟨⟨c, r, t, u⟩, he, h⟩ := List.any_eq_true.mp h
  cases c with
  | rename old new =>
    obtain ⟨hr, hpath, hone, hzero⟩ := of_decide_eq_true h
    have hle := hs.oldest _ he 1 0 ⟨hr, .inr hpath⟩ (Option.isSome_iff_ne_none.mp hone)
      (Option.isSome_iff_ne_none.mp hzero)
    exact absurd hle (by decide)
  | _ => cases h

/-- The process ends between the rename and the write of the counter. -/
def stopsAfterRename (n : ℕ) : Choice := if n = 6 then { fate := .stops } else {}

/-- The counter cannot be opened, and there are other numbers in the memory. -/
def cannotOpen (n : ℕ) : Choice :=
  if n = 2 then { fate := .fails } else { memory := LogInfo.bytes ⟨7, 7⟩ }

/-- The counter a rotation uses is one nobody stored. -/
def usesOther (o : List (Outcome State (Event Call Call.Answer State) Unit))
    (read : Option LogInfo) : Bool :=
  read.any fun logInfo => logInfo ≠ ⟨0, 0⟩ ∧
    ∀ r ∈ o, ∀ c ∈ r.calls.map Event.call, c ≠ Call.write .fd logInfo.bytes

theorem not_survives_of_usesOther {o : List (Outcome State (Event Call Call.Answer State) Unit)}
    {i : LogFile.Between × (ℕ → Choice)}
    (h : usesOther o (aLog.reading sh i s).value = true) : ¬aLog.Survives sh o i s := by
  intro hs
  obtain ⟨read, hread, h⟩ := (Option.any_eq_true _ _).mp h
  obtain ⟨hne, hnone⟩ := of_decide_eq_true h
  rcases hs.used read hread with hzero | ⟨r, hr, e, he, hc, -⟩
  · exact hne hzero
  · exact hnone r hr e.call (List.mem_map_of_mem he) hc

theorem fresh_aLog : Fresh aLog emptyDisk := fresh_tmpLog _ _

/-- The log directory with a log that is too large. -/
def largeLog : Disk :=
  emptyDisk.put ["tmp".toList, "a.txt".toList] (some (.file (Item.ofText largeMessage)))

theorem lt_size_largeMessage :
    DBG_LOG_SIZE_MAX < ((Item.ofText largeMessage).map Item.size).sum := by
  rw [Item.sum_size_ofText]
  exact lt_length_largeMessage

theorem lookup_largeLog : largeLog.lookup aLog.text = some (.file (Item.ofText largeMessage)) := by
  have hnode : largeLog.lookup aLog.text = _ := LogFile.lookup_text aLog.proper
  rw [hnode]
  exact Disk.put_node_self

/-- A backup is made, a rotation is stopped at once, and one finds no file to rename. -/
def rotateThrice : List (LogFile.Between × (ℕ → Choice)) :=
  [rotateByte 'a' fun _ => {}, rotateByte 'b' fun _ => { fate := .stops }, ({}, fun _ => {})]

/-- The backup survives the next rotation. -/
theorem backups_survive_thrice :
    aLog.Retains ((aLog.rotation fun _ => []).run rotateThrice { disk := emptyDisk }).1.disk 0 ∧
    aLog.Survives (fun _ => [])
      ((aLog.rotation fun _ => []).run rotateThrice { disk := emptyDisk }).2
      (rotateByte 'c' fun _ => {})
      ((aLog.rotation fun _ => []).run rotateThrice { disk := emptyDisk }).1 := by
  have hown : logInfoPath aLog.name ≠ aLog.name := by decide
  refine ⟨Option.isSome_iff_ne_none.mp (by decide +kernel), ?_⟩
  refine backups_survive (s := { disk := emptyDisk }) hown fresh_aLog
    (rotateThrice ++ [rotateByte 'c' fun _ => {}]) ?_ rotateThrice _ [] rfl
  refine along_undisturbed hown fresh_aLog.orderly (by decide) fun i hi => ?_
  simp only [rotateThrice, List.mem_append, List.mem_cons, List.not_mem_nil, or_false] at hi
  obtain (rfl | rfl | rfl) | rfl := hi
  · exact .inr succeeds_default
  · exact .inl rfl
  · exact .inr succeeds_default
  · exact .inr succeeds_default

/-- A rotation that is stopped makes the next one overwrite the newest backup; one that cannot open
the counter uses a counter nobody stored. -/
theorem backup_overwritten :
    ¬aLog.Survives (fun _ => [])
        ((aLog.rotation fun _ => []).run
          [rotateByte 'a' fun _ => {}, rotateByte 'b' stopsAfterRename] { disk := emptyDisk }).2
        (rotateByte 'c' fun _ => {})
        ((aLog.rotation fun _ => []).run
          [rotateByte 'a' fun _ => {}, rotateByte 'b' stopsAfterRename] { disk := emptyDisk }).1 ∧
      ¬aLog.Survives (fun _ => [])
        ((aLog.rotation fun _ => []).run [rotateByte 'a' fun _ => {}] { disk := emptyDisk }).2
        (rotateByte 'b' cannotOpen)
        ((aLog.rotation fun _ => []).run [rotateByte 'a' fun _ => {}] { disk := emptyDisk }).1 :=
  ⟨not_survives_of_overwrites (by decide +kernel), not_survives_of_usesOther (by decide +kernel)⟩

end ConferenceCall.Log

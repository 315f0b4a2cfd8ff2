import ConferenceCall.Log.Rotated

/-! The generations of a log file: what was written between one rotation and the next. The backups
are the newest of them. -/

namespace ConferenceCall.Log

open Library Program

/-- The generations of a stream of messages; the current one is closed by the message that finds
it too large. -/
structure Generations where
  closed : List Text := []
  current : Option Text := none

namespace Generations

def record (g : Generations) (message : Text) : Generations :=
  match g.current with
  | none => { g with current := some message }
  | some c =>
    if DBG_LOG_SIZE_MAX < c.length then ⟨g.closed ++ [c], some message⟩
    else { g with current := some (c ++ message) }

theorem record_of_lt {g : Generations} (message : Text)
    (h : DBG_LOG_SIZE_MAX < (g.current.getD []).length) :
    g.record message = ⟨g.closed ++ [g.current.getD []], some message⟩ := by
  unfold record
  cases hc : g.current with
  | none => simp [hc] at h
  | some c =>
    rw [hc, Option.getD_some] at h
    simp only [if_pos h, Option.getD_some]

theorem record_of_not_lt {g : Generations} (message : Text)
    (h : ¬DBG_LOG_SIZE_MAX < (g.current.getD []).length) :
    g.record message = { g with current := some (g.current.getD [] ++ message) } := by
  unfold record
  cases hc : g.current with
  | none => rfl
  | some c =>
    rw [hc, Option.getD_some] at h
    simp only [if_neg h, Option.getD_some]

def ofMessages (messages : List Text) : Generations := messages.foldl record {}

def text (g : Generations) : Text := g.closed.flatten ++ g.current.getD []

theorem record_text (g : Generations) (message : Text) :
    (g.record message).text = g.text ++ message := by
  rcases g with ⟨closed, _ | c⟩
  · simp [record, text]
  · simp only [record]
    split_ifs <;> simp [text]

/-- Nothing is lost between generations. -/
theorem text_ofMessages (messages : List Text) : (ofMessages messages).text = messages.flatten := by
  have hfold (g : Generations) : (messages.foldl record g).text = g.text ++ messages.flatten := by
    induction messages generalizing g with
    | nil => simp
    | cons m l ih => rw [List.foldl_cons, ih, record_text, List.flatten_cons, List.append_assoc]
  exact hfold {}

/-- The counter of a number of generations. -/
def counter (n : ℕ) : LogInfo := ⟨(min n 63 : ℕ), (n - 63 : ℕ)⟩

theorem counter_lt {n : ℕ} : (counter n).count < MAX_LOG_FILE_NUM ↔ n < 63 := by
  simp only [counter, MAX_LOG_FILE_NUM]
  omega

theorem target_counter {n : ℕ} (h : n < 2 ^ 31) : (counter n).target = n := by
  simp only [LogInfo.target, counter_lt]
  split_ifs with hn
  · simp only [counter]
    omega
  · have hsum : (counter n).oldestIndex + (counter n).count = n := by
      simp only [counter]
      omega
    rw [hsum, Word.int32_of_fits ⟨by omega, by omega⟩]

theorem next_counter {n : ℕ} (h : n < 2 ^ 31) : (counter n).next = counter (n + 1) := by
  simp only [LogInfo.next, counter_lt]
  split_ifs with hn
  · simp only [counter, LogInfo.mk.injEq]
    omega
  · rw [Word.int32_of_fits (by simp only [Word.Fits, counter]; omega)]
    simp only [counter, LogInfo.mk.injEq]
    omega

theorem fits_counter {n : ℕ} (h : n ≤ 2 ^ 31) :
    Word.Fits (counter n).count ∧ Word.Fits (counter n).oldestIndex := by
  simp only [counter, Word.Fits]
  omega

end Generations

open Generations (counter)

/-- The files of a log: its backups are the newest closed generations. -/
structure Kept (log : LogFile) (g : Generations) (d : Disk) : Prop where
  dir : d.IsDir (Path.resolve d.cwd log.dir)
  stored : log.Counter d (counter g.closed.length)
  backups (i : ℤ) : d.node (log.path d.cwd (backupFilePath log.name i)) =
    if g.closed.length - 63 ≤ i ∧ 0 ≤ i ∧ i < g.closed.length then
      some (.file (Item.ofText (g.closed.getD i.toNat [])))
    else none
  file : d.node (log.path d.cwd log.name) = g.current.map fun c => .file (Item.ofText c)

variable {sh : Text → List (List Text)} {log : LogFile} {g : Generations} {s : State}

/-- A rotation closes the current generation. -/
theorem Kept.rotated {c : Text} (h : Kept log g s.disk) (hown : logInfoPath log.name ≠ log.name)
    (hc : g.current = some c) (hn : g.closed.length < 2 ^ 31) :
    Kept log ⟨g.closed ++ [c], none⟩ (log.rotated (counter g.closed.length) s.disk) := by
  have htarget := Generations.target_counter hn
  have hfile : s.disk.node (log.path s.disk.cwd log.name) = some (.file (Item.ofText c)) := by
    rw [h.file, hc, Option.map_some]
  have hlen : (g.closed ++ [c]).length = g.closed.length + 1 := by simp
  refine ⟨?_, ?_, fun i => ?_, ?_⟩
  · rw [rotated_cwd]
    exact rotated_isDir.mpr h.dir
  · rw [hlen, ← Generations.next_counter hn]
    obtain ⟨hcount, hindex⟩ := Generations.fits_counter (n := g.closed.length + 1) hn
    rw [← Generations.next_counter hn] at hcount hindex
    exact .stored (by rw [rotated_cwd, rotated_info]) hcount hindex
  · rw [rotated_cwd, hlen]
    by_cases hi : i = g.closed.length
    · rw [hi, ← htarget, rotated_target hown hfile, htarget, if_pos (by omega)]
      simp
    by_cases hd : i = (counter g.closed.length).oldestIndex ∧ 63 ≤ g.closed.length
    · obtain ⟨rfl, hd⟩ := hd
      rw [rotated_dropped, if_neg]
      · simp only [Generations.counter]
        omega
      · rw [Generations.counter_lt]
        omega
      · rwa [htarget]
      · rw [h.backups]
        split_ifs <;> simp
    · rw [rotated_other path_backup_ne_info path_name_ne_backup.symm, h.backups]
      · simp only [Generations.counter] at hd
        by_cases hin : g.closed.length - 63 ≤ i ∧ 0 ≤ i ∧ i < g.closed.length
        · rw [if_pos hin, if_pos (by omega), List.getD_eq_getElem?_getD, List.getD_eq_getElem?_getD,
            List.getElem?_append_left (by omega)]
        · rw [if_neg hin, if_neg (by omega)]
      · rwa [Ne, log.path_inj, backupFilePath_inj, htarget]
      · rw [Generations.counter_lt, Ne, log.path_inj, backupFilePath_inj]
        omega
  · rw [rotated_cwd, rotated_file hown (by simp [hfile])]
    rfl

/-- Writing to the log file changes the current generation. -/
theorem Kept.write {d : Disk} (h : Kept log g d) (hown : logInfoPath log.name ≠ log.name) (c : Text) :
    Kept log { g with current := some c }
      (d.put (log.path d.cwd log.name) (some (.file (Item.ofText c)))) := by
  have hinfo : log.path d.cwd (logInfoPath log.name) ≠ log.path d.cwd log.name := by
    rwa [Ne, log.path_inj]
  refine ⟨(Disk.isDir_put_of_ne (log.path_ne_dir _ _)).mpr h.dir,
    h.stored.put hinfo (log.path_ne_dir _ _), fun i => ?_, ?_⟩
  · rw [Disk.put_cwd, Disk.put_node_of_ne path_name_ne_backup.symm, h.backups]
  · rw [Disk.put_cwd, Disk.put_node_self, Option.map_some]

theorem Kept.hasText (h : Kept log g s.disk) : log.HasText s.disk (g.current.getD []) := by
  have hfile := h.file
  cases hc : g.current with
  | none => exact .inr ⟨rfl, by rw [hfile, hc]; rfl⟩
  | some c => exact .inl (by rw [hfile, hc]; rfl)

/-- A message is recorded. -/
theorem Kept.signal_safe {message : Text} (h : Kept log g s.disk)
    (hown : logInfoPath log.name ≠ log.name) (hn : (g.record message).closed.length ≤ 2 ^ 31) :
    Yields sh (DBG_signal_safe (some message) log.text)
      (fun result t => result = 0 ∧ Kept log (g.record message) t.disk) s := by
  by_cases hsize : DBG_LOG_SIZE_MAX < (g.current.getD []).length
  · obtain ⟨c, hc⟩ : ∃ c, g.current = some c := by
      cases hc : g.current with
      | none => simp [hc] at hsize
      | some c => exact ⟨c, rfl⟩
    rw [Generations.record_of_lt message hsize, hc, Option.getD_some] at hn ⊢
    rw [List.length_append, List.length_singleton] at hn
    have hfree : s.disk.node (log.path s.disk.cwd (backupFilePath log.name
        (counter g.closed.length).target)) = none := by
      rw [Generations.target_counter hn, h.backups, if_neg (by omega)]
    have hbackup : Yields sh (BackupLogFile log.text)
        (fun _ t => Kept log ⟨g.closed ++ [c], none⟩ t.disk) s :=
      (yields_BackupLogFile h.stored h.dir hown hfree).mono fun _ t ht =>
        ht.1 ▸ h.rotated hown hc hn
    refine (yields_signal_safe_large h.hasText hsize hbackup fun d hd => ?_).mono ?_
    · exact ⟨hd.dir, .inr ⟨rfl, hd.file⟩⟩
    · rintro _ t ⟨hresult, d, hd, ht⟩
      exact ⟨hresult, ht ▸ hd.write hown message⟩
  · refine (yields_signal_safe_small h.hasText h.dir hsize).mono ?_
    rintro _ t ⟨hresult, ht⟩
    rw [Generations.record_of_not_lt message hsize, ht]
    exact ⟨hresult, h.write hown _⟩

/-- A message rotates the file when it finds it too large, and then once. -/
theorem renames_signal_safe {message : Text} (h : Kept log g s.disk) {x : ℕ → Choice}
    (hend : ((DBG_signal_safe (some message) log.text).exec (perform sh) x s).value ≠ none) :
    g.closed.length + ((DBG_signal_safe (some message) log.text).exec (perform sh) x s).calls.countP
      (fun e => e.call.isRename) = (g.record message).closed.length := by
  have happend : Counts Call.isRename (.call (.openFile .logFd log.text true true) fun opened =>
      if !opened then pure (-2)
      else .call (.write .logFd message) fun _ => .call (.close .logFd) fun _ =>
        (pure 0 : Prog ℤ)) 0 := by
    refine .call fun opened => ?_
    split_ifs
    · exact .pure _
    · exact .call fun _ => .call fun _ => .pure _
  have hsize := fileSize_text (x 1).dirSize h.hasText
  simp only [DBG_signal_safe, get_file_size, request_bind, call_bind, pure_bind, exec_call] at hend ⊢
  split_ifs at hend ⊢ with h₀ h₁ hlarge
  · exact absurd rfl hend
  · exact absurd rfl hend
  · have hcount := ((counts_BackupLogFile log.text).bind fun _ => happend).exec _ _ _ hend
    have hlarge' : DBG_LOG_SIZE_MAX < (g.current.getD []).length := hsize ▸ hlarge
    rw [Generations.record_of_lt message hlarge', List.length_append, List.length_singleton]
    exact congrArg (g.closed.length + ·) hcount
  · have hcount := happend.exec _ _ _ hend
    have hsmall : ¬DBG_LOG_SIZE_MAX < (g.current.getD []).length := hsize ▸ hlarge
    rw [Generations.record_of_not_lt message hsmall]
    exact congrArg (g.closed.length + ·) hcount

theorem Generations.length_le_foldl (g : Generations) (messages : List Text) :
    g.closed.length ≤ (messages.foldl record g).closed.length := by
  induction messages generalizing g with
  | nil => rfl
  | cons m l ih =>
    refine Nat.le_trans ?_ (ih (g.record m))
    unfold record
    split
    · rfl
    · split_ifs <;> simp

end ConferenceCall.Log

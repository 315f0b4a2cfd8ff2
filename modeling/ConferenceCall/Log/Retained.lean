import ConferenceCall.Log.Interrupted
import ConferenceCall.Log.Retention
import Mathlib.Data.Set.Card
import Mathlib.Order.Interval.Set.Basic
import Mathlib.Data.Int.Interval

/-! The bound on the generations that are retained: it holds as long as the oldest backup is still
plain when it has to be removed. -/

namespace ConferenceCall.Log

open Library Program

variable {sh : Text → List (List Text)} {log : LogFile} {s t : State} {logInfo : LogInfo}
  {generations : Set ℤ} {n : Name}

/-- Another file next to the log. -/
def LogFile.sibling (log : LogFile) (n : Name) (hn : Path.Proper n) : LogFile :=
  { log with name := n, proper := hn }

theorem makes_rotate {P : Call → Prop} {origFilePath : Text} (logInfo : LogInfo)
    (hrename : ∀ i, P (.rename origFilePath (backupFilePath origFilePath i)))
    (hunlink : ∀ i, P (.unlink (backupFilePath origFilePath i)))
    (hwrite : ∀ logInfo, (WriteLogInfo origFilePath logInfo).Makes P) :
    (rotate origFilePath logInfo).Makes P := by
  rw [rotate]
  split_ifs
  · exact ⟨hrename _, fun _ => hwrite _⟩
  · exact ⟨hunlink _, fun _ => ⟨hrename _, fun _ => hwrite _⟩⟩

/-- The rotation of another file leaves the log alone, unless they share names. -/
theorem makes_backup_sibling (hn : Path.Proper n) (hshares : ¬log.Shares n)
    (hinfo : n ≠ logInfoPath log.name) (d : Disk) :
    (BackupLogFile (log.sibling n hn).text).Makes (log.Apart sh d generations) := by
  rw [LogFile.Shares, not_or] at hshares
  obtain ⟨hcounter, hbackup⟩ := hshares
  have hne {n n' : Name} (h : n ≠ n') : log.path d.cwd n ≠ log.path d.cwd n' := by
    rwa [Ne, log.path_inj]
  have hcounting (P : Text → Prop) (c : Call) (hc : (log.sibling n hn).Counting P c) :
      log.Apart sh d generations c := by
    cases c with
    | openFile f path creates appends =>
      obtain ⟨-, rfl⟩ := hc
      rw [LogFile.Apart, info_text]
      exact ⟨hne hcounter,
        fun i => ⟨hne (logInfoPath_ne_backup _ _ _), hne (logInfoPath_ne_tgz _ _)⟩⟩
    | rename old new => exact hc.elim
    | unlink path => exact hc.elim
    | system command => exact hc.elim
    | mkdir path => exact hc.elim
    | _ => trivial
  have hwrite (logInfo : LogInfo) :=
    (makes_WriteLogInfo (log.sibling n hn) logInfo).mono (hcounting _)
  rw [BackupLogFile]
  refine ((makes_ReadLogInfo (log.sibling n hn)).mono (hcounting _)).bind fun logInfo =>
    makes_rotate logInfo (fun i => ?_) (fun i => ?_) hwrite
  · have hpath : d.path (log.sibling n hn).text = log.path d.cwd n := LogFile.path_text hn
    rw [LogFile.Apart, backup_text, hpath]
    refine ⟨hne hinfo, hne (logInfoPath_ne_backup _ _ _).symm, fun j => ⟨hne fun h => ?_,
      hne (backupFilePath_ne_tgz _ _ _)⟩⟩
    exact hbackup ⟨i, j, h⟩
  · rw [LogFile.Apart, backup_text]
    exact hne (logInfoPath_ne_backup _ _ _).symm

theorem makes_compress {newPath : Text} {d : Disk}
    (h : ∀ command ∈ [tarCommand newPath, rmCommand newPath], ∀ words ∈ sh command,
      log.Unharmed d generations (.ofWords words)) :
    (compress newPath).Makes (log.Apart sh d generations) :=
  ⟨trivial, fun _ => ⟨h _ (by simp), fun _ => ⟨trivial, fun _ => ⟨h _ (by simp),
    fun _ => ⟨trivial, fun _ => trivial⟩⟩⟩⟩⟩

/-! ### A rotation of the log -/

theorem fits_counter_of {d : Disk} (h : log.Counter d logInfo) :
    Word.Fits logInfo.count ∧ Word.Fits logInfo.oldestIndex := by
  cases h with
  | missing => exact ⟨by decide, by decide⟩
  | stored hinfo hcount hindex => exact ⟨hcount, hindex⟩

variable (log) in
/-- The generations lie in the range of the counter. -/
structure LogFile.Bounded (logInfo : LogInfo) (s : State) : Prop where
  undisturbing : log.Undisturbing
    {i | logInfo.oldestIndex ≤ i ∧ i < logInfo.oldestIndex + logInfo.count} logInfo s
  count : 0 ≤ logInfo.count ∧ logInfo.count ≤ MAX_LOG_FILE_NUM
  first : logInfo.count < MAX_LOG_FILE_NUM → logInfo.oldestIndex = 0

section Rotation

variable {d : Disk} {i j : ℤ} {cwd : Path}

theorem packed_ne_info : log.packed cwd i ≠ log.info cwd := by
  rw [LogFile.packed, LogFile.info, Ne, log.path_inj]
  exact (logInfoPath_ne_tgz _ _).symm

theorem packed_ne_backup : log.packed cwd i ≠ log.backup cwd j := by
  rw [LogFile.packed, LogFile.backup, Ne, log.path_inj]
  exact (backupFilePath_ne_tgz _ _ _).symm

theorem packed_name_ne {name : Text} : backupFilePath name i ++ ".tgz".toList ≠ name := by
  rw [backupFilePath, List.append_assoc]
  intro h
  have hlen := congrArg List.length h
  simp only [List.length_append, List.length_cons] at hlen
  omega

theorem packed_ne_name : log.packed cwd i ≠ log.path cwd log.name := by
  rw [LogFile.packed, Ne, log.path_inj]
  exact packed_name_ne

theorem backup_inj : log.backup cwd i = log.backup cwd j ↔ i = j := by
  rw [LogFile.backup, LogFile.backup, log.path_inj, backupFilePath_inj]

theorem LogFile.Bounded.target (h : log.Bounded logInfo s) (hroomy : log.Roomy s.disk) :
    logInfo.target = logInfo.oldestIndex + logInfo.count := by
  obtain ⟨hfits, -⟩ := hroomy logInfo h.undisturbing.stored
  have hcount := h.count
  unfold LogInfo.target
  split_ifs with hlt
  · rw [h.first hlt, zero_add]
  · have hmax : logInfo.count = MAX_LOG_FILE_NUM := by omega
    rw [hmax, Word.int32_of_fits hfits]

theorem LogFile.Bounded.target_free (h : log.Bounded logInfo s) (hroomy : log.Roomy s.disk) :
    s.disk.node (log.backup s.disk.cwd logInfo.target) = none := by
  by_contra hne
  have hin := h.undisturbing.range (.inl hne)
  rw [h.target hroomy] at hin
  exact absurd hin.2 (lt_irrefl _)

theorem rotated_packed : (log.rotated logInfo d).node (log.packed d.cwd i) =
    d.node (log.packed d.cwd i) :=
  rotated_other packed_ne_info packed_ne_name packed_ne_backup (.inr packed_ne_backup)

variable (log) in
/-- Making the file a backup makes no directory. -/
theorem shift_plain (h : d.node (log.backup d.cwd i) ≠ some .dir) :
    (log.shift i d).node (log.backup d.cwd i) ≠ some .dir := by
  rw [LogFile.backup] at h ⊢
  cases hc : d.content (log.path d.cwd log.name) with
  | none => simpa [LogFile.shift, hc] using h
  | some c =>
    rw [log.shift_node_new (Disk.content_eq_some.mp hc)]
    simp

/-- A backup that is neither the next one nor the one that is removed. -/
theorem rotated_same (htarget : i ≠ logInfo.target)
    (hdrop : logInfo.count < MAX_LOG_FILE_NUM ∨ i ≠ logInfo.oldestIndex) :
    (log.rotated logInfo d).node (log.backup d.cwd i) = d.node (log.backup d.cwd i) := by
  have hne {j : ℤ} (hij : i ≠ j) : log.backup d.cwd i ≠ log.backup d.cwd j := by
    rwa [Ne, backup_inj]
  exact rotated_other path_backup_ne_info path_name_ne_backup.symm (hne htarget)
    (hdrop.imp_right hne)

theorem rotated_none (hplain : d.node (log.backup d.cwd logInfo.oldestIndex) ≠ some .dir)
    (htarget : logInfo.oldestIndex ≠ logInfo.target) (hcount : ¬logInfo.count < MAX_LOG_FILE_NUM) :
    (log.rotated logInfo d).node (log.backup d.cwd logInfo.oldestIndex) = none :=
  rotated_dropped hcount htarget hplain

section Bounded

variable (h : log.Bounded logInfo s) (hroomy : log.Roomy s.disk)
include h hroomy

theorem LogFile.Bounded.oldest_ne_target (hcount : ¬logInfo.count < MAX_LOG_FILE_NUM) :
    logInfo.oldestIndex ≠ logInfo.target := by
  have hmax : MAX_LOG_FILE_NUM = 63 := rfl
  rw [h.target hroomy]
  omega

theorem LogFile.Bounded.next_full (hcount : ¬logInfo.count < MAX_LOG_FILE_NUM) :
    logInfo.next = ⟨MAX_LOG_FILE_NUM, logInfo.oldestIndex + 1⟩ := by
  obtain ⟨⟨-, hupper⟩, -⟩ := hroomy logInfo h.undisturbing.stored
  obtain ⟨hlower, -⟩ := (fits_counter_of h.undisturbing.stored).2
  have hmax : MAX_LOG_FILE_NUM = 63 := rfl
  have hfull := h.count
  rw [LogInfo.next, if_neg hcount, Word.int32_of_fits ⟨by omega, by omega⟩, LogInfo.mk.injEq]
  exact ⟨by omega, rfl⟩

theorem LogFile.Bounded.next_count :
    0 ≤ logInfo.next.count ∧ logInfo.next.count ≤ MAX_LOG_FILE_NUM := by
  have hrange := h.count
  by_cases hcount : logInfo.count < MAX_LOG_FILE_NUM
  · rw [LogInfo.next, if_pos hcount]
    exact ⟨Int.add_nonneg hrange.1 (by decide), hcount⟩
  · have hmax : 0 ≤ MAX_LOG_FILE_NUM := by decide
    rw [h.next_full hroomy hcount]
    exact ⟨hmax, le_refl _⟩

theorem LogFile.Bounded.next_first (hnext : logInfo.next.count < MAX_LOG_FILE_NUM) :
    logInfo.next.oldestIndex = 0 := by
  by_cases hcount : logInfo.count < MAX_LOG_FILE_NUM
  · rw [LogInfo.next, if_pos hcount]
    exact h.first hcount
  · rw [h.next_full hroomy hcount] at hnext
    exact absurd hnext (lt_irrefl _)

theorem LogFile.Bounded.next_fits :
    Word.Fits logInfo.next.count ∧ Word.Fits logInfo.next.oldestIndex := by
  have hmax : MAX_LOG_FILE_NUM = 63 := rfl
  obtain ⟨hlower, hupper⟩ := h.next_count hroomy
  refine ⟨⟨by omega, by omega⟩, ?_⟩
  by_cases hcount : logInfo.count < MAX_LOG_FILE_NUM
  · rw [LogInfo.next, if_pos hcount]
    exact (fits_counter_of h.undisturbing.stored).2
  · rw [LogInfo.next, if_neg hcount]
    exact Word.fits_int32 _

/-- The range of the counter grows at its end or moves by one. -/
theorem LogFile.Bounded.next (i : ℤ) :
    (logInfo.next.oldestIndex ≤ i ∧ i < logInfo.next.oldestIndex + logInfo.next.count) ↔
      i = logInfo.target ∨ (logInfo.oldestIndex ≤ i ∧ i < logInfo.oldestIndex + logInfo.count) ∧
        (logInfo.count < MAX_LOG_FILE_NUM ∨ i ≠ logInfo.oldestIndex) := by
  have hmax : MAX_LOG_FILE_NUM = 63 := rfl
  have hrange := h.count
  rw [h.target hroomy]
  by_cases hcount : logInfo.count < MAX_LOG_FILE_NUM
  · rw [LogInfo.next, if_pos hcount]
    simp only [hcount, true_or, and_true]
    omega
  · rw [h.next_full hroomy hcount]
    simp only [hcount, false_or]
    omega

theorem LogFile.Bounded.rotated_plain (i : ℤ) :
    (log.rotated logInfo s.disk).node (log.backup s.disk.cwd i) ≠ some .dir := by
  by_cases htarget : i = logInfo.target
  · subst htarget
    have hcleared : (log.cleared logInfo s.disk).node (log.backup s.disk.cwd logInfo.target) =
        none := by
      rw [LogFile.backup, cleared_of_ne path_backup_ne_info]
      · exact h.target_free hroomy
      · by_cases hcount : logInfo.count < MAX_LOG_FILE_NUM
        · exact .inl hcount
        · right
          rw [Ne, log.path_inj, backupFilePath_inj]
          exact (h.oldest_ne_target hroomy hcount).symm
    have hshift := shift_plain log (d := log.cleared logInfo s.disk) (i := logInfo.target)
    rw [cleared_cwd, hcleared] at hshift
    rw [LogFile.backup, rotated_of_ne path_backup_ne_info]
    exact hshift (by simp)
  · by_cases hdrop : logInfo.count < MAX_LOG_FILE_NUM ∨ i ≠ logInfo.oldestIndex
    · rw [rotated_same htarget hdrop]
      exact h.undisturbing.plain i
    · rw [not_or, not_not] at hdrop
      obtain ⟨hcount, rfl⟩ := hdrop
      rw [rotated_none (h.undisturbing.plain _) htarget hcount]
      simp

/-- No generation comes from nowhere, and the oldest goes when there is no room. -/
theorem LogFile.Bounded.rotated_generations {i : ℤ}
    (hi : i ∈ log.generations (log.rotated logInfo s.disk)) :
    i = logInfo.target ∨ i ∈ log.generations s.disk ∧
      (logInfo.count < MAX_LOG_FILE_NUM ∨ i ≠ logInfo.oldestIndex) := by
  rw [LogFile.generations, Set.mem_ofPred_eq, rotated_cwd, rotated_packed] at hi
  by_cases htarget : i = logInfo.target
  · exact .inl htarget
  have hdrop : logInfo.count < MAX_LOG_FILE_NUM ∨ i ≠ logInfo.oldestIndex := by
    by_contra hdrop
    rw [not_or, not_not] at hdrop
    obtain ⟨hcount, rfl⟩ := hdrop
    obtain ⟨-, hfree⟩ := hroomy logInfo h.undisturbing.stored
    rcases hi with hi | hi
    · exact hi (rotated_none (h.undisturbing.plain _) htarget hcount)
    · exact hi (hfree hcount)
  rw [rotated_same htarget hdrop] at hi
  exact .inr ⟨hi, hdrop⟩

/-- A generation that a rotation drops is the oldest one. -/
theorem LogFile.Bounded.rotated_dropped {i : ℤ} (hi : i ∈ log.generations s.disk)
    (hgone : i ∉ log.generations (log.rotated logInfo s.disk)) :
    IsLeast (log.generations s.disk) i := by
  have hrange := h.undisturbing.range hi
  have htarget : i ≠ logInfo.target := by
    rintro rfl
    rw [h.target hroomy] at hrange
    exact absurd hrange.2 (lt_irrefl _)
  have holdest : i = logInfo.oldestIndex := by
    by_contra hne
    rw [LogFile.generations, Set.mem_ofPred_eq, rotated_cwd, rotated_packed,
      rotated_same htarget (.inr hne)] at hgone
    exact hgone hi
  refine ⟨hi, fun j hj => ?_⟩
  rw [holdest]
  exact (h.undisturbing.range hj).1

variable {t : State}

/-- A rotation keeps the generations in the range of the counter. -/
theorem LogFile.Bounded.rotated (hdisk : t.disk = log.rotated logInfo s.disk)
    (hopen : log.Follows s t) (hfd : t.opened .fd = none) : log.Bounded logInfo.next t := by
  have hmax : MAX_LOG_FILE_NUM = 63 := rfl
  have hcwd : t.disk.cwd = s.disk.cwd := by rw [hdisk, rotated_cwd]
  refine ⟨⟨?_, ?_, fun i hi => ?_, fun i => ?_, fun f h' hm => ?_⟩, ?_, ?_⟩
  · rw [hcwd, hdisk]
    exact rotated_isDir.mpr h.undisturbing.dir
  · obtain ⟨hcount, hindex⟩ := h.next_fits hroomy
    refine .stored ?_ hcount hindex
    rw [hcwd, hdisk]
    exact rotated_info
  · rw [hdisk] at hi
    rw [Set.mem_ofPred_eq, h.next hroomy]
    exact (h.rotated_generations hroomy hi).imp_right fun hi => ⟨h.undisturbing.range hi.1, hi.2⟩
  · rw [hcwd, hdisk]
    exact h.rotated_plain hroomy i
  · rw [hcwd]
    cases f with
    | fd => simp [hfd] at hm
    | logFd =>
      obtain ⟨h'', hs, hp | ⟨i, hp⟩⟩ := hopen h' hm
      · exact hp ▸ h.undisturbing.opened _ h'' hs
      · exact hp ▸ path_backup_ne_info
  · exact h.next_count hroomy
  · exact h.next_first hroomy

end Bounded

end Rotation

/-! ### The steps -/

section Steps

variable {folderPath d_name : Text} {x : ℕ → Choice}

variable (sh) in
/-- A program whose calls succeed comes to its end. -/
theorem ends {α : Type} (p : Prog α) (hx : ∀ k, (x k).Succeeds) (s : State) :
    ∃ a, (p.exec (perform sh) x s).value = some a := by
  induction p generalizing x s with
  | done a => exact ⟨a, rfl⟩
  | call c next ih =>
    rw [exec_call, if_neg (by simp [(hx 0).1])]
    exact ih _ (fun k => hx (k + 1)) _

theorem yields_state {α : Type} {p : Prog α} {R : State → Prop}
    (h : ∀ x, R (p.exec (perform sh) x s).state) : Yields sh p (fun _ => R) s := by
  intro x hx
  obtain ⟨a, ha⟩ := ends sh p hx s
  exact ⟨a, ha, h x⟩

variable (hfolder : log.dir = folderPath ++ ['/']) (hne : folderPath ≠ [])
include hfolder hne

/-- What the pass does with an entry, as far as the log can notice. -/
theorem yields_visitFile {R : State → Prop} (hsame : R s)
    (hcompress : needsCompress d_name = true →
      Yields sh (compress (folderPath ++ '/' :: d_name)) (fun _ => R) s)
    (hlarge : log.TooLarge s.disk d_name → Path.Proper d_name → ∀ text, ∀ x : Choice, x.Succeeds →
      Yields sh (BackupLogFile (folderPath ++ '/' :: d_name)) (fun _ => R)
        (act sh (.write .logFd text) x s).2) :
    Yields sh (visitFile folderPath d_name) (fun _ => R) s := by
  have htext : folderPath ++ '/' :: d_name = log.dir ++ d_name := by
    rw [hfolder, List.append_assoc]
    rfl
  simp only [visitFile, request_bind]
  refine yields_call fun _ _ => ?_
  simp only [act]
  split_ifs with hproper hfile hfile
  · obtain ⟨n, hn, hreg⟩ := Option.map_eq_some_iff.mp hfile
    rcases n with _ | c
    · cases hreg
    have hnode : s.disk.node (log.path s.disk.cwd d_name) = some (.file c) := by
      rw [LogFile.path, hfolder, Path.resolve_concat hne]
      exact hn
    unfold HandleFile
    split_ifs with hneeds
    · exact hcompress hneeds
    · simp only [get_file_size, request_bind]
      refine yields_call fun y _ => ?_
      have hlookup : s.disk.lookup (folderPath ++ '/' :: d_name) = some (.file c) := by
        rw [htext, LogFile.lookup_text hproper, hnode]
      simp only [act, hlookup, Option.map_some, statSize, Option.getD_some]
      refine yields_bind (yields_pure ?_)
      split_ifs with hsize
      · refine yields_call fun z hz =>
          hlarge ⟨c, Disk.content_eq_some.mpr hnode, ?_, hsize⟩ hproper _ z hz
        simpa using hneeds
      · exact yields_pure hsame
  · exact yields_pure hsame
  · cases hfile
  · exact yields_pure hsame

end Steps

section Move

theorem LogFile.Undisturbing.mono {generations' : Set ℤ}
    (h : log.Undisturbing generations logInfo s) (hsub : log.generations s.disk ⊆ generations') :
    log.Undisturbing generations' logInfo s :=
  ⟨h.dir, h.stored, hsub, h.plain, h.opened⟩

/-- A step that disturbs nothing keeps the generations where they are. -/
theorem LogFile.Bounded.undisturbed (h : log.Bounded logInfo s)
    (ht : log.Undisturbing (log.generations s.disk) logInfo t) : log.Bounded logInfo t :=
  ⟨ht.mono (ht.range.trans h.undisturbing.range), h.count, h.first⟩

theorem LogFile.Bounded.exact (h : log.Bounded logInfo s) :
    log.Undisturbing (log.generations s.disk) logInfo s := h.undisturbing.mono subset_rfl

section Write

variable (x : Choice) (f : Fd) (text : Text)

variable (sh) in
theorem LogFile.Bounded.write (h : log.Bounded logInfo s) :
    log.Bounded logInfo (act sh (.write f text) x s).2 ∧
      log.generations (act sh (.write f text) x s).2.disk = log.generations s.disk := by
  obtain ⟨hb, hopened⟩ := benign_write sh x f text h.exact
  refine ⟨h.undisturbed (h.exact.of_benign hb (hopened ▸ h.undisturbing.opened)), ?_⟩
  ext i
  simp only [LogFile.generations, hb.1, Ne, write_node_none]

variable (sh) in
theorem LogFile.Bounded.write_roomy (h : log.Bounded logInfo s) (hroomy : log.Roomy s.disk) :
    log.Roomy (act sh (.write f text) x s).2.disk := by
  obtain ⟨hb, -⟩ := benign_write sh x f text h.exact
  intro logInfo' hc
  have hinfo : s.disk.node (log.info (act sh (.write f text) x s).2.disk.cwd) =
      (act sh (.write f text) x s).2.disk.node
        (log.info (act sh (.write f text) x s).2.disk.cwd) := by
    rw [hb.1]
    exact ((hb.2 _).resolve_right fun hp => hp.1 rfl).symm
  have hback : log.Counter s.disk logInfo' := by
    refine counter_congr hc hb.1.symm hinfo (iff_of_true ?_ ?_)
    · rw [hb.1]
      exact h.undisturbing.dir
    · rw [hb.1]
      exact hb.isDir h.undisturbing.dir
  obtain ⟨hfits, hfree⟩ := hroomy logInfo' hback
  refine ⟨hfits, fun hcount => ?_⟩
  rw [write_node_none, hb.1]
  exact hfree hcount

end Write

/-- A file of the size of a counter is not too large. -/
theorem LogFile.Counter.not_large {d : Disk} (h : log.Counter d logInfo) :
    ¬log.TooLarge d (logInfoPath log.name) := by
  rintro ⟨c, hc, -, hsize⟩
  rw [Disk.content_eq_some] at hc
  cases h with
  | missing hnone => simp [hnone] at hc
  | stored hstored =>
    rw [hstored] at hc
    cases hc
    rw [Item.sum_size_ofText] at hsize
    have hlength : ¬DBG_LOG_SIZE_MAX < LogInfo.byteSize := by decide
    exact hlength hsize

variable (hown : logInfoPath log.name ≠ log.name)
include hown

/-- A rotation drops the oldest generation, if any. -/
theorem LogFile.Bounded.backup (h : log.Bounded logInfo s) (hroomy : log.Roomy s.disk) :
    Yields sh (BackupLogFile log.text) (fun _ t => (∃ next, log.Bounded next t) ∧
      ∀ i ∈ log.generations s.disk, i ∉ log.generations t.disk →
        IsLeast (log.generations s.disk) i) s := by
  refine (yields_BackupLogFile h.undisturbing.stored h.undisturbing.dir hown
    (h.target_free hroomy)).mono fun _ t ⟨hdisk, hopen, hfd⟩ => ?_
  refine ⟨⟨_, h.rotated hroomy hdisk hopen hfd⟩, fun i hi hgone => ?_⟩
  rw [hdisk] at hgone
  exact h.rotated_dropped hroomy hi hgone

end Move

section Run

variable {folderPath : Text} (hown : logInfoPath log.name ≠ log.name)
  (hfolder : log.dir = folderPath ++ ['/']) (hne : folderPath ≠ [])
include hown hfolder hne

/-- A step keeps the generations in the range of the counter; a rotation drops only the oldest. -/
theorem LogFile.Bounded.move (h : log.Bounded logInfo s) {m : Move} (hx : m.Succeeds)
    (hregular : log.Regular sh folderPath m s) :
    (∃ next, log.Bounded next (log.move sh folderPath m s).1) ∧ (log.Rotating m s →
      ∀ i ∈ log.generations s.disk, i ∉ log.generations (log.move sh folderPath m s).1.disk →
        IsLeast (log.generations s.disk) i) := by
  cases m with
  | write content =>
    have hput : log.Benign (log.generations s.disk) s.disk
        (s.disk.put (log.path s.disk.cwd log.name) (some (.file content))) := by
      refine benign_put ?_ (fun hdir => absurd hdir.symm (log.path_ne_dir _ _)) (by simp)
        (.inr (.inr fun i hi => ?_))
      · rw [LogFile.info, Ne, log.path_inj]
        exact hown.symm
      · rcases hi with hi | hi
        · exact absurd hi path_name_ne_backup
        · exact absurd hi.symm packed_ne_name
    exact ⟨⟨logInfo, h.undisturbed (h.exact.of_benign hput h.undisturbing.opened)⟩, False.elim⟩
  | openLog h' =>
    refine ⟨⟨logInfo, h.undisturbed (h.exact.of_benign (.refl _) fun f h'' hm => ?_)⟩, False.elim⟩
    rcases State.mem_setOpen hm with hm | hm
    · exact h.undisturbing.opened f h'' hm
    · exact hregular h'' hm
  | backup x =>
    obtain ⟨_, -, hnext, hdropped⟩ := h.backup hown hregular x hx
    exact ⟨hnext, fun _ => hdropped⟩
  | visit d_name x =>
    obtain ⟨hcommands, hlarge⟩ := hregular
    have hstep : Yields sh (visitFile folderPath d_name) (fun _ t =>
        (∃ next, log.Bounded next t) ∧ (log.Rotating (.visit d_name x) s →
          ∀ i ∈ log.generations s.disk, i ∉ log.generations t.disk →
            IsLeast (log.generations s.disk) i)) s := by
      refine yields_visitFile hfolder hne ⟨⟨logInfo, h⟩, fun _ i hi hgone => absurd hi hgone⟩
        (fun hneeds => yields_state fun y => ⟨⟨logInfo, h.undisturbed
          (h.exact.exec sh (makes_compress (hcommands hneeds)) y)⟩, ?_⟩)
        fun htoo hproper text y hy => ?_
      · rintro ⟨rfl, -, -, hneeds', -⟩
        simp [hneeds] at hneeds'
      have htext : folderPath ++ '/' :: d_name = log.dir ++ d_name := by
        rw [hfolder, List.append_assoc]
        rfl
      obtain ⟨h', hsame⟩ := h.write sh y .logFd text
      rw [htext]
      by_cases hname : d_name = log.name
      · subst hname
        have hroomy := hlarge htoo
        rw [if_pos rfl] at hroomy
        refine (h'.backup hown (h.write_roomy sh y .logFd text hroomy)).mono ?_
        rintro _ t ⟨hnext, hdropped⟩
        rw [hsame] at hdropped
        exact ⟨hnext, fun _ => hdropped⟩
      · have hshares := hlarge htoo
        rw [if_neg hname] at hshares
        have hinfo : d_name ≠ logInfoPath log.name := by
          rintro rfl
          exact h.undisturbing.stored.not_large htoo
        refine yields_state (p := BackupLogFile (log.sibling d_name hproper).text) fun z =>
          ⟨⟨logInfo, h'.undisturbed
              (h'.exact.exec sh (makes_backup_sibling hproper hshares hinfo _) z)⟩,
            fun hrotating => absurd hrotating.1 hname⟩
    obtain ⟨_, -, ht⟩ := hstep x hx
    exact ht

omit hown hfolder hne in
theorem LogFile.Bounded.encard_le (h : log.Bounded logInfo s) :
    (log.generations s.disk).encard ≤ 63 := by
  have hmax : MAX_LOG_FILE_NUM = 63 := rfl
  have hcount := h.count
  have hsub : log.generations s.disk ⊆
      Finset.Ico logInfo.oldestIndex (logInfo.oldestIndex + logInfo.count) := by
    rw [Finset.coe_Ico]
    exact h.undisturbing.range
  calc (log.generations s.disk).encard
      ≤ (Finset.Ico logInfo.oldestIndex (logInfo.oldestIndex + logInfo.count) : Set ℤ).encard :=
        Set.encard_le_encard hsub
    _ = ((logInfo.oldestIndex + logInfo.count - logInfo.oldestIndex).toNat : ℕ) := by
        rw [Set.encard_coe_eq_coe_finsetCard, Int.card_Ico]
    _ ≤ (63 : ℕ) := Nat.cast_le.mpr (by omega)

variable (log sh folderPath) in
omit hown hfolder hne in
/-- Along a run never more than 63 generations are retained, and a rotation drops only the
oldest. -/
structure LogFile.Retention (l : List Move) (s : State) : Prop where
  bound (l₁ l₂ : List Move) (h : l = l₁ ++ l₂) :
    (log.generations ((log.move sh folderPath).run l₁ s).1.disk).encard ≤ 63
  oldest : (log.move sh folderPath).Along (fun m t => log.Rotating m t →
    ∀ i ∈ log.generations t.disk, i ∉ log.generations (log.move sh folderPath m t).1.disk →
      IsLeast (log.generations t.disk) i) l s

/-- The bound holds along runs in which the oldest backup is plain whenever it has to go. -/
theorem generations_retained (l : List Move) (hx : ∀ m ∈ l, m.Succeeds)
    (hstart : log.Bounded logInfo s)
    (hregular : (log.move sh folderPath).Along (log.Regular sh folderPath) l s) :
    log.Retention sh folderPath l s := by
  have hok : (log.move sh folderPath).Along
      (fun m t => m.Succeeds ∧ log.Regular sh folderPath m t) l s :=
    fun l₁ m l₂ hl => ⟨hx m (by simp [hl]), hregular l₁ m l₂ hl⟩
  have hreached (l₁ l₂ : List Move) (hl : l = l₁ ++ l₂) :
      ∃ next, log.Bounded next ((log.move sh folderPath).run l₁ s).1 := by
    rw [hl, Step.along_append] at hok
    refine Step.run_preserves (I := fun t => ∃ next, log.Bounded next t) (fun m t ht hm => ?_) l₁ s
      ⟨logInfo, hstart⟩ hok.1
    obtain ⟨_, ht⟩ := ht
    exact (ht.move hown hfolder hne hm.1 hm.2).1
  refine ⟨fun l₁ l₂ hl => ?_, fun l₁ m l₂ hl => ?_⟩
  · obtain ⟨_, ht⟩ := hreached l₁ l₂ hl
    exact ht.encard_le
  · obtain ⟨_, ht⟩ := hreached l₁ (m :: l₂) hl
    obtain ⟨hm, hmregular⟩ := hok l₁ m l₂ hl
    exact (ht.move hown hfolder hne hm hmregular).2

end Run

/-! ### Passes and examples -/

variable (sh log) in
theorem each_visits (folderPath : Text) (names : List Name) (x : ℕ → Choice)
    (hx : ∀ k, (x k).Succeeds) (s : State) :
    ∃ l : List Move, (∀ m ∈ l, m.Succeeds ∧ ∃ d_name y, m = .visit d_name y) ∧
      ((each (visitFile folderPath) names).exec (perform sh) x s).state =
        ((log.move sh folderPath).run l s).1 := by
  induction names generalizing x s with
  | nil => exact ⟨[], by simp, rfl⟩
  | cons d_name names ih =>
    obtain ⟨a, ha⟩ := ends sh (visitFile folderPath d_name) hx s
    obtain ⟨l, hl, hstate⟩ := ih (fun k => x (k + ((visitFile folderPath d_name).exec (perform sh)
      x s).calls.length)) (fun k => hx _)
      ((visitFile folderPath d_name).exec (perform sh) x s).state
    refine ⟨.visit d_name x :: l, ?_, ?_⟩
    · simp only [List.mem_cons, forall_eq_or_imp]
      exact ⟨⟨hx, d_name, x, rfl⟩, hl⟩
    · exact (exec_bind_state _ _ ha).trans hstate

/-- A pass over the folder is a run of visits. -/
theorem pass_visits {folderPath : Text} {x : ℕ → Choice} (hx : ∀ k, (x k).Succeeds)
    (hdir : s.disk.IsDir (s.disk.path folderPath)) :
    ∃ l : List Move, (∀ m ∈ l, m.Succeeds ∧ ∃ d_name y, m = .visit d_name y) ∧
      ((HandleCurrentApLogFolder folderPath).exec (perform sh) x s).state =
        ((log.move sh folderPath).run l s).1 := by
  obtain ⟨l, hl, hstate⟩ := each_visits sh log folderPath (x 0).names
    (fun k => x (k + 1)) (fun k => hx (k + 1)) s
  refine ⟨l, hl, Eq.trans ?_ hstate⟩
  obtain ⟨a, ha⟩ := ends sh (each (visitFile folderPath) (x 0).names)
    (fun k => hx (k + 1)) s
  have hopen : act sh (.opendir folderPath) (x 0) s = (some (x 0).names, s) := by
    simp [act, (hx 0).1, hdir]
  have hquiet (y : ℕ → Choice) (t : State) (hy : (y 0).Succeeds) :
      (Sys.quiet.exec (perform sh) y t).state = t := by
    rw [Sys.quiet, request, exec_call, if_neg (by simp [hy.1])]
    rfl
  rw [HandleCurrentApLogFolder, request_bind, exec_call, if_neg (by simp [(hx 0).1]), hopen]
  exact (exec_bind_state _ _ ha).trans (hquiet _ _ (hx _))

/-- A log after 63 rotations. -/
def fullDisk : Disk where
  cwd := []
  node p :=
    if p = ["tmp".toList] then some .dir
    else if p = aLog.info [] then some (.file (Item.ofText (LogInfo.bytes ⟨63, 0⟩)))
    else if p = aLog.path [] aLog.name ∨ p ∈ (List.range 63).map fun i : ℕ => aLog.backup [] i then
      some (.file [])
    else none

theorem fullDisk_node (p : Path) : fullDisk.node p =
    if p = ["tmp".toList] then some .dir
    else if p = aLog.info [] then some (.file (Item.ofText (LogInfo.bytes ⟨63, 0⟩)))
    else if p = aLog.path [] aLog.name ∨ p ∈ (List.range 63).map fun i : ℕ => aLog.backup [] i then
      some (.file [])
    else none := rfl

theorem fullDisk_of_ne {n : Name} (hn : n ≠ logInfoPath aLog.name) (hname : n ≠ aLog.name)
    (h : fullDisk.node (aLog.path [] n) ≠ none) :
    ∃ i : ℕ, i < 63 ∧ n = backupFilePath aLog.name i ∧
      fullDisk.node (aLog.path [] n) = some (.file []) := by
  have hdir : aLog.path [] n ≠ ["tmp".toList] := by
    have hresolve : Path.resolve [] aLog.dir = ["tmp".toList] := by decide
    intro h
    simpa [LogFile.path, hresolve] using congrArg List.length h
  rw [fullDisk_node, if_neg hdir, LogFile.info, if_neg (by rwa [aLog.path_inj])] at h ⊢
  split_ifs at h ⊢ with hmem
  · obtain ⟨i, hi, hin⟩ := List.mem_map.mp (hmem.resolve_left (by rwa [aLog.path_inj]))
    rw [LogFile.backup, aLog.path_inj] at hin
    exact ⟨i, List.mem_range.mp hi, hin.symm, rfl⟩
  · exact absurd rfl h

theorem bounded_fullDisk : aLog.Bounded ⟨63, 0⟩ { disk := fullDisk } := by
  have hdir : fullDisk.cwd.resolve aLog.dir = ["tmp".toList] := by decide
  have hinfo : fullDisk.node (aLog.info []) =
      some (.file (Item.ofText (LogInfo.bytes ⟨63, 0⟩))) := by
    rw [fullDisk_node, if_neg (by decide), if_pos rfl]
  refine ⟨⟨.inr ?_, .stored hinfo (by decide) (by decide), ?_, fun i hi => ?_, by simp⟩,
    by decide, by decide⟩
  · rw [hdir]
    trivial
  · rintro i (hi | hi)
    · obtain ⟨j, hj, hij, -⟩ := fullDisk_of_ne (logInfoPath_ne_backup _ _ _).symm
        (backupFilePath_ne _ _) hi
      rw [backupFilePath_inj] at hij
      subst hij
      exact ⟨Int.natCast_nonneg j, by simpa using hj⟩
    · obtain ⟨j, hj, hij, -⟩ := fullDisk_of_ne (logInfoPath_ne_tgz _ _).symm
        packed_name_ne hi
      exact absurd hij.symm (backupFilePath_ne_tgz _ _ _)
  · have hnode : fullDisk.node (aLog.backup [] i) = some .dir := hi
    obtain ⟨j, -, -, hfile⟩ := fullDisk_of_ne (logInfoPath_ne_backup _ _ i).symm
      (backupFilePath_ne _ _) (by rw [← LogFile.backup, hnode]; simp)
    cases hnode.symm.trans hfile

/-- Whether the oldest backup is plain can be read off the disk. -/
theorem roomy_of_counterOf {log : LogFile} {d : Disk}
    (hfits : Word.Fits ((log.counterOf d).oldestIndex + MAX_LOG_FILE_NUM))
    (hplain : (d.node (log.packed d.cwd (log.counterOf d).oldestIndex)).isNone = true) :
    log.Roomy d := by
  intro logInfo hcounter
  rw [hcounter.eq_counterOf]
  exact ⟨hfits, fun _ => Option.isNone_iff_eq_none.mp hplain⟩

/-- The pass may pack a backup that is there. -/
theorem regular_visit_fullDisk (x : ℕ → Choice) :
    aLog.Regular splitWords "/tmp".toList (.visit "a.txt-5".toList x) { disk := fullDisk } := by
  have htgz : fullDisk.path "/tmp/a.txt-5.tgz".toList = aLog.packed [] 5 := by decide
  refine ⟨fun _ command hcommand words hwords => ?_, fun ⟨_, _, hneeds, _⟩ =>
    absurd hneeds (by decide)⟩
  simp only [List.mem_cons, List.not_mem_nil, or_false] at hcommand
  rcases hcommand with rfl | rfl
  · obtain rfl : words = ["tar".toList, "zcf".toList, "/tmp/a.txt-5.tgz".toList,
        "/tmp/a.txt-5".toList] := List.mem_singleton.mp hwords
    refine ⟨by decide, fun i hi => ?_⟩
    have hi : aLog.packed [] 5 = aLog.backup [] i ∨ aLog.packed [] 5 = aLog.packed [] i := by
      rwa [← htgz]
    rw [LogFile.packed, LogFile.backup, aLog.path_inj, LogFile.packed, aLog.path_inj,
      List.append_cancel_right_eq, backupFilePath_inj] at hi
    rcases hi with hi | rfl
    · exact absurd hi.symm (backupFilePath_ne_tgz _ _ _)
    · exact .inl (Option.isSome_iff_ne_none.mp (by decide))
  · obtain rfl : words = ["rm".toList, "-rf".toList, "/tmp/a.txt-5".toList] :=
      List.mem_singleton.mp hwords
    show ¬rmPaths fullDisk ["/tmp/a.txt-5".toList] (aLog.info [])
    decide

/-- A backup is packed, the full log is rotated, and a message is written. -/
def packedThenRotated : List Move :=
  [.visit "a.txt-5".toList fun _ => {}, .backup fun _ => {}, .write [.byte 'a']]

theorem retained_fullDisk :
    aLog.Retention splitWords "/tmp".toList packedThenRotated { disk := fullDisk } ∧
    ((aLog.move splitWords "/tmp".toList).run packedThenRotated
      { disk := fullDisk }).1.disk.node (aLog.packed [] 5) ≠ none := by
  refine ⟨?_, Option.isSome_iff_ne_none.mp (by decide +kernel)⟩
  refine generations_retained (by decide) (by decide) (by decide) _ ?_ bounded_fullDisk ?_
  · simp only [packedThenRotated, List.mem_cons, List.not_mem_nil, or_false, forall_eq_or_imp,
      forall_eq]
    exact ⟨succeeds_default, succeeds_default, trivial⟩
  · refine Step.along_cons.mpr ⟨regular_visit_fullDisk _, Step.along_cons.mpr ⟨?_,
      Step.along_cons.mpr ⟨trivial, Step.along_nil _ _⟩⟩⟩
    exact roomy_of_counterOf (by decide +kernel) (by decide +kernel)

/-- The oldest backup is packed before the log is rotated again. -/
def packing : List Move :=
  [.visit "a.txt-0".toList fun _ => {}, .backup fun _ => {}]

/-- The packed backup stays when the rotation removes the plain one. -/
theorem packing_keeps : ((aLog.move splitWords "/tmp".toList).run packing
      { disk := fullDisk }).1.disk.node (aLog.packed [] 0) ≠ none ∧
    ∀ i ∈ List.range 63, ((aLog.move splitWords "/tmp".toList).run packing
      { disk := fullDisk }).1.disk.node (aLog.backup [] (i + 1 : ℕ)) ≠ none := by
  decide +kernel

/-- From a folder within the bound the log comes to 64 generations. -/
theorem generations_exceed : aLog.Bounded ⟨63, 0⟩ { disk := fullDisk } ∧
    (∀ m ∈ packing, m.Succeeds) ∧
      ¬aLog.Retention splitWords "/tmp".toList packing { disk := fullDisk } := by
  refine ⟨bounded_fullDisk, ?_, fun h => ?_⟩
  · simp only [packing, List.mem_cons, List.not_mem_nil, or_false, forall_eq_or_imp, forall_eq]
    exact ⟨succeeds_default, succeeds_default⟩
  · obtain ⟨hpacked, hbackups⟩ := packing_keeps
    have hbound := h.bound packing [] (List.append_nil _).symm
    generalize hd : ((aLog.move splitWords "/tmp".toList).run packing { disk := fullDisk }).1.disk =
      d at hpacked hbackups hbound
    have hcwd : d.cwd = [] := by
      rw [← hd]
      rfl
    have hsub : (Finset.Ico (0 : ℤ) 64 : Set ℤ) ⊆ aLog.generations d := by
      intro i hi
      rw [Finset.coe_Ico] at hi
      rw [LogFile.generations, Set.mem_ofPred_eq, hcwd]
      obtain ⟨_ | k, rfl⟩ := Int.eq_ofNat_of_zero_le hi.1
      · exact .inr hpacked
      · have hk := hi.2
        exact .inl (hbackups k (List.mem_range.mpr (by omega)))
    have hmany := Set.encard_le_encard hsub
    rw [Set.encard_coe_eq_coe_finsetCard, Int.card_Ico] at hmany
    exact absurd (hmany.trans hbound) (by decide)

end ConferenceCall.Log

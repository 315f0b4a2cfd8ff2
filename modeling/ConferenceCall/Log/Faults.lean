import ConferenceCall.Log.Generations

/-! Rotations in which calls fail, return short or are never reached. A rotation leaves the counter
behind the backups when it ends between the rename and the write of the new counter. -/

namespace ConferenceCall.Log

open Library Program

/-- The call takes the file of the path away, or puts another one in its place. -/
def Strikes (p : Path) : Event Call Call.Answer State → Prop
  | ⟨.unlink path, r, s, _⟩ => r = true ∧ s.disk.path path = p
  | ⟨.rename old new, r, s, _⟩ => r = true ∧ (s.disk.path old = p ∨ s.disk.path new = p)
  | ⟨.write f _, _, s, _⟩ => ∃ h ∈ s.opened f, h.path = p
  | ⟨_, _, s, t⟩ => t.disk.node p ≠ s.disk.node p

/-- An existing counter is opened, and all of it is read. -/
def Complete : Event Call Call.Answer State → Prop
  | ⟨.openFile _ _ creates _, r, _, _⟩ => creates = false → r = true
  | ⟨.read _ size, r, _, _⟩ => r.length = size
  | _ => True

/-- A file that exists is not removed. -/
def Misses : Event Call Call.Answer State → Prop
  | ⟨.unlink path, r, s, _⟩ => r = false ∧ s.disk.isFile path = true
  | _ => False

namespace LogFile

variable (log : LogFile)

/-- The file of the counter. -/
def info (cwd : Path) : Path := log.path cwd (logInfoPath log.name)

def backup (cwd : Path) (i : ℤ) : Path := log.path cwd (backupFilePath log.name i)

/-- There is a backup of the index. -/
def Retains (d : Disk) (i : ℤ) : Prop := d.node (log.backup d.cwd i) ≠ none

/-- The file of the counter holds what was written, all of it. -/
def Settles : Event Call Call.Answer State → Prop
  | ⟨.write .fd text, _, s, t⟩ =>
    t.disk.node (log.info s.disk.cwd) = some (.file (Item.ofText text))
  | _ => False

/-- A backup is made that has others before it. -/
def Outruns : Event Call Call.Answer State → Prop
  | ⟨.rename _ new, r, s, _⟩ =>
    r = true ∧ ∃ i j, new = backupFilePath log.text i ∧ j < i ∧ log.Retains s.disk j
  | _ => False

/-- The counter has to be written after the call. -/
def Unsettles (e : Event Call Call.Answer State) : Prop :=
  log.Outruns e ∨ ¬log.Settles e ∧
    e.after.disk.node (log.info e.before.disk.cwd) ≠ e.before.disk.node (log.info e.before.disk.cwd)

/-- The counter still has to be written after the calls. -/
def Pending : Prop → Trace → Prop
  | P, [] => P
  | P, e :: l => Pending (log.Unsettles e ∨ P ∧ ¬log.Settles e) l

/-- The counter is not written after a backup was not removed. -/
def Holds : Prop → Trace → Prop
  | _, [] => True
  | P, e :: l => ¬(P ∧ log.Settles e) ∧ Holds (P ∨ Misses e) l

/-- What happens between two rotations: the file is written, replaced or removed, and some backups
are archived. -/
structure Between where
  content : Option (List Item) := none
  archived : List ℤ := []

def between (b : Between) (d : Disk) : Disk :=
  (d.put (log.path d.cwd log.name) (b.content.map .file)).cut
    fun p => ∃ i ∈ b.archived, p = log.backup d.cwd i

variable (sh : Text → List (List Text))

/-- One rotation, after what happens before it. -/
def rotation : Step (Between × (ℕ → Choice)) State
    (Outcome State (Event Call Call.Answer State) Unit) := fun (b, x) s =>
  invoke sh (BackupLogFile log.text, x) { disk := log.between b s.disk }

/-- The calls of a rotation. -/
def calls (i : Between × (ℕ → Choice)) (s : State) : Trace :=
  ((BackupLogFile log.text).exec (perform sh) i.2 { disk := log.between i.1 s.disk }).calls

/-- The counter a rotation uses, if it comes so far, and the calls that read it. -/
def reading (i : Between × (ℕ → Choice)) (s : State) :
    Outcome State (Event Call Call.Answer State) LogInfo :=
  (ReadLogInfo log.text).exec (perform sh) i.2 { disk := log.between i.1 s.disk }

/-- What may fail in a rotation: not the reading of the counter; nor the write of the counter
after a backup is made that has others before it, or after a part of it is written; but this one
must fail, or not be reached, after a backup is not removed. The next index has to be an `int`. -/
structure Undisturbed (i : Between × (ℕ → Choice)) (s : State) : Prop where
  reads : ∀ e ∈ (log.reading sh i s).calls, Complete e
  settles : ¬log.Pending False (log.calls sh i s)
  holds : log.Holds False (log.calls sh i s)
  fits : ∀ logInfo, log.Counter s.disk logInfo →
    Word.Fits (logInfo.oldestIndex + MAX_LOG_FILE_NUM)

/-- The counter was stored before. -/
def Stored (o : List (Outcome State (Event Call Call.Answer State) Unit)) (logInfo : LogInfo) :
    Prop :=
  ∃ r ∈ o, ∃ e ∈ r.calls, e.call = .write .fd logInfo.bytes ∧ log.Settles e

/-- A rotation takes away or overwrites no backup but the oldest, and uses a counter that was
stored or the initial one. -/
structure Survives (o : List (Outcome State (Event Call Call.Answer State) Unit))
    (i : Between × (ℕ → Choice)) (s : State) : Prop where
  oldest : ∀ e ∈ log.calls sh i s, ∀ k j, Strikes (log.backup e.before.disk.cwd k) e →
    log.Retains e.before.disk k → log.Retains e.before.disk j → k ≤ j
  used : ∀ logInfo, (log.reading sh i s).value = some logInfo →
    logInfo = ⟨0, 0⟩ ∨ log.Stored o logInfo

/-- The backups lie in the range of a counter. The next one may be there already, but then it is
the only one. -/
structure Ranged (d : Disk) (logInfo : LogInfo) : Prop where
  count : 0 ≤ logInfo.count ∧ logInfo.count ≤ MAX_LOG_FILE_NUM
  index : 0 ≤ logInfo.oldestIndex
  first : logInfo.count < MAX_LOG_FILE_NUM → logInfo.oldestIndex = 0
  backups : ∀ i, log.Retains d i →
    logInfo.oldestIndex ≤ i ∧ i ≤ logInfo.oldestIndex + logInfo.count
  last : ∀ i, log.Retains d (logInfo.oldestIndex + logInfo.count) → log.Retains d i →
    i = logInfo.oldestIndex + logInfo.count
  plain : ∀ i, d.node (log.backup d.cwd i) ≠ some .dir

/-- The backups lie in the range of the counter that is stored. -/
structure Orderly (d : Disk) (logInfo : LogInfo) : Prop where
  dir : d.IsDir (Path.resolve d.cwd log.dir)
  stored : log.Counter d logInfo
  ranged : log.Ranged d logInfo

section Traces

variable {log} {P : Prop} {l l' : Trace} {s t : State}

theorem pending_append : log.Pending P (l ++ l') ↔ log.Pending (log.Pending P l) l' := by
  induction l generalizing P with
  | nil => rfl
  | cons e l ih => exact ih

theorem Holds.mono {P' : Prop} (h : log.Holds P' l) (hP : P → P') : log.Holds P l := by
  induction l generalizing P P' with
  | nil => trivial
  | cons e l ih => exact ⟨fun hs => h.1 ⟨hP hs.1, hs.2⟩, ih h.2 (Or.imp_left hP)⟩

theorem Holds.right (h : log.Holds P (l ++ l')) : log.Holds P l' := by
  induction l generalizing P with
  | nil => exact h
  | cons e l ih => exact (ih h.2).mono .inl

theorem Holds.not_settles (h : log.Holds P l) (hP : P) : ∀ e ∈ l, ¬log.Settles e := by
  induction l generalizing P with
  | nil => simp
  | cons e l ih =>
    intro e' he
    rcases List.mem_cons.mp he with rfl | he
    · exact fun hs => h.1 ⟨hP, hs⟩
    · exact ih h.2 (.inl hP) e' he

theorem Settles.text {e : Event Call Call.Answer State} (h : log.Settles e) :
    ∃ text, e.call = .write .fd text ∧
      e.after.disk.node (log.info e.before.disk.cwd) = some (.file (Item.ofText text)) := by
  rcases e with ⟨_ | _ | _ | ⟨_ | _, text⟩ | _, r, s, t⟩
  all_goals first
    | exact h.elim
    | exact ⟨text, rfl, h⟩

/-- When nothing is pending after some calls, the counter was not touched, or it holds what was
written to it. -/
theorem settled_of_not_pending {cwd : Path} (hl : Leads l s t)
    (hcwd : ∀ e ∈ l, e.before.disk.cwd = cwd) (h : ¬log.Pending P l) :
    ¬P ∧ t.disk.node (log.info cwd) = s.disk.node (log.info cwd) ∨
      ∃ e ∈ l, ∃ text, e.call = .write .fd text ∧ log.Settles e ∧
        t.disk.node (log.info cwd) = some (.file (Item.ofText text)) := by
  induction l generalizing P s with
  | nil =>
    have hst : s = t := hl
    exact .inl ⟨h, by rw [hst]⟩
  | cons e l ih =>
    obtain ⟨rfl, hl⟩ := hl
    have hcwd' : e.before.disk.cwd = cwd := hcwd e (by simp)
    rcases ih hl (fun e' he => hcwd e' (by simp [he])) h with ⟨hP, ht⟩ | ⟨e', he, hsettled⟩
    · rw [not_or, not_and_not_right] at hP
      by_cases hs : log.Settles e
      · obtain ⟨text, hc, hnode⟩ := hs.text
        exact .inr ⟨e, by simp, text, hc, hs, by rw [ht, ← hcwd', hnode]⟩
      · refine .inl ⟨fun h => hs (hP.2 h), ?_⟩
        rw [ht, ← hcwd']
        by_contra hne
        exact hP.1 (.inr ⟨hs, hne⟩)
    · exact .inr ⟨e', by simp [he], hsettled⟩

end Traces

end LogFile

/-- The calls that read or write the counter. -/
def LogFile.Counting (log : LogFile) (P : Text → Prop) : Call → Prop
  | .openFile f path _ _ => f = .fd ∧ path = logInfoPath log.text
  | .write f text => f = .fd ∧ P text
  | .stat _ | .read .. | .close _ | .uninitialised => True
  | _ => False

/-- Only the counter differs, and `fd` is open at nothing else. -/
structure LogFile.Framed (log : LogFile) (s t : State) : Prop where
  cwd : t.disk.cwd = s.disk.cwd
  opened : ∀ h ∈ t.opened .fd, h.path = log.info s.disk.cwd
  others : ∀ p, p ≠ log.info s.disk.cwd → t.disk.node p = s.disk.node p

section Frame

variable {sh : Text → List (List Text)} {log : LogFile} {s t : State} {P : Text → Prop}

theorem info_text (d : Disk) : d.path (logInfoPath log.text) = log.info d.cwd := by
  rw [log.logInfoPath_text, LogFile.path_text (proper_logInfoPath log.proper), LogFile.info]

theorem backup_text (d : Disk) (i : ℤ) :
    d.path (backupFilePath log.text i) = log.backup d.cwd i := by
  rw [log.backupFilePath_text, LogFile.path_text (proper_backupFilePath log.proper i),
    LogFile.backup]

variable (log) in
theorem backup_ne_info (cwd : Path) (i : ℤ) : log.backup cwd i ≠ log.info cwd := by
  rw [LogFile.backup, LogFile.info, Ne, log.path_inj]
  exact (logInfoPath_ne_backup _ _ _).symm

variable (sh) in
theorem LogFile.Framed.act {c : Call} {x : Choice} (h : log.Framed s t) (hc : log.Counting P c) :
    log.Framed s (act sh c x t).2 := by
  obtain ⟨hcwd, hopened, hothers⟩ := h
  have hset (h' : Option Handle) (hpath : ∀ h ∈ h', h.path = log.info s.disk.cwd) :
      ∀ h ∈ (t.setOpen .fd h').opened .fd, h.path = log.info s.disk.cwd := by
    simpa [State.setOpen] using hpath
  cases c with
  | openFile f path creates appends =>
    obtain ⟨rfl, rfl⟩ := hc
    have hpath : t.disk.path (logInfoPath log.text) = log.info s.disk.cwd := by rw [info_text, hcwd]
    rcases act_openFile_cases sh x t .fd (logInfoPath log.text) creates appends with
      hact | ⟨c, -, hact⟩ | ⟨-, -, hact⟩ <;> rw [hact]
    · exact ⟨hcwd, hset _ (by simp), hothers⟩
    · exact ⟨hcwd, hset _ (by simp [hpath]), hothers⟩
    · refine ⟨hcwd, hset _ (by simp [hpath]), fun p hp => ?_⟩
      rw [hpath]
      exact (Disk.put_node_of_ne hp).trans (hothers p hp)
  | write f text =>
    obtain ⟨rfl, -⟩ := hc
    simp only [Log.act]
    cases ht : t.target .fd with
    | none => exact ⟨hcwd, hopened, hothers⟩
    | some hc =>
      obtain ⟨h, c⟩ := hc
      obtain ⟨h', hh, hm⟩ := Option.bind_eq_some_iff.mp ht
      obtain ⟨c', -, hpair⟩ := Option.map_eq_some_iff.mp hm
      cases hpair
      refine ⟨hcwd, hopened, fun p hp => ?_⟩
      rw [← hopened h hh] at hp
      exact (Disk.put_node_of_ne hp).trans (hothers p (hopened h hh ▸ hp))
  | close f =>
    refine ⟨hcwd, fun h hm => ?_, hothers⟩
    cases f with
    | logFd => exact hopened h (by simpa [Log.act, State.setOpen] using hm)
    | fd => simp [Log.act, State.setOpen] at hm
  | stat path => exact ⟨hcwd, hopened, hothers⟩
  | read f size => exact ⟨hcwd, hopened, hothers⟩
  | uninitialised => exact ⟨hcwd, hopened, hothers⟩
  | _ => exact hc.elim

variable (sh) in
/-- A program that reads and writes the counter strikes no backup. -/
theorem LogFile.Framed.exec {α : Type} {p : Prog α} (hp : p.Makes (log.Counting P))
    (x : ℕ → Choice) (h : log.Framed s t) : log.Framed s (p.exec (perform sh) x t).state ∧
      ∀ e ∈ (p.exec (perform sh) x t).calls, log.Framed s e.before ∧ ¬Misses e ∧
        ∀ i, ¬Strikes (log.backup s.disk.cwd i) e := by
  have hkeeps : ∀ (c : Call) (y : Choice) (u : State) (r : c.Answer) (v : State),
      log.Counting P c → log.Framed s u → perform sh c y u = some (r, v) → log.Framed s v := by
    intro c y u r v hc hu hv
    rw [perform_eq_some] at hv
    simpa only [hv.2] using hu.act sh (x := y) hc
  obtain ⟨hstate, hcalls⟩ := hp.keeps hkeeps x t h
  refine ⟨hstate, fun e he => ?_⟩
  obtain ⟨hb, ha, -⟩ := hcalls e he
  have hc := hp.exec (perform sh) x t e he
  rcases e with ⟨c, r, t, u⟩
  have hsame (i : ℤ) : u.disk.node (log.backup s.disk.cwd i) =
      t.disk.node (log.backup s.disk.cwd i) :=
    (ha.others _ (backup_ne_info log _ _)).trans (hb.others _ (backup_ne_info log _ _)).symm
  cases c with
  | write f text =>
    obtain ⟨rfl, -⟩ := hc
    refine ⟨hb, id, fun i => ?_⟩
    rintro ⟨h, hm, hpath⟩
    exact backup_ne_info log s.disk.cwd i (hpath.symm.trans (hb.opened h hm))
  | unlink path => exact hc.elim
  | rename old new => exact hc.elim
  | _ => exact ⟨hb, id, fun i hs => hs (hsame i)⟩

end Frame

end ConferenceCall.Log

import ConferenceCall.Log.Faults

/-! Reading and writing the counter of a log file, whatever fails: a counter that is there is not
written to by reading it, and what was read as a whole is what was stored. -/

namespace ConferenceCall.Log

open Library Program

variable {sh : Text → List (List Text)} {log : LogFile} {s : State} {P : Prop} {logInfo : LogInfo}

variable (log) in
theorem makes_WriteLogInfo (logInfo : LogInfo) :
    (WriteLogInfo log.text logInfo).Makes (log.Counting (· = logInfo.bytes)) := by
  refine ⟨⟨rfl, rfl⟩, fun opened => ?_⟩
  cases opened
  · trivial
  · exact ⟨⟨rfl, rfl⟩, fun _ => ⟨trivial, fun _ => trivial⟩⟩

variable (log) in
theorem makes_ReadLogInfo :
    (ReadLogInfo log.text).Makes (log.Counting (· = LogInfo.bytes ⟨0, 0⟩)) := by
  refine ⟨trivial, fun found => ?_⟩
  cases found with
  | none =>
    refine ⟨⟨rfl, rfl⟩, fun opened => ?_⟩
    cases opened
    · trivial
    · exact ⟨⟨rfl, rfl⟩, fun _ => ⟨trivial, fun _ => trivial⟩⟩
  | some size =>
    refine ⟨trivial, fun memory => ⟨⟨rfl, rfl⟩, fun opened => ?_⟩⟩
    cases opened
    · trivial
    · exact ⟨trivial, fun _ => ⟨trivial, fun _ => trivial⟩⟩

variable (sh P) in
/-- Nothing is pending after the calls when nothing was before, or the counter is written. -/
theorem counting_settles {α : Type} {p : Prog α} {text : Text} (x : ℕ → Choice)
    (hp : p.Makes (log.Counting (· = text))) (h : log.Framed s s)
    (hpending : ¬log.Pending P (p.exec (perform sh) x s).calls) :
    ¬P ∧ (p.exec (perform sh) x s).state.disk.node (log.info s.disk.cwd) =
        s.disk.node (log.info s.disk.cwd) ∨
      ∃ e ∈ (p.exec (perform sh) x s).calls, e.call = .write .fd text ∧ log.Settles e ∧
        (p.exec (perform sh) x s).state.disk.node (log.info s.disk.cwd) =
          some (.file (Item.ofText text)) := by
  have hframe := (h.exec sh hp x).2
  refine (LogFile.settled_of_not_pending (p.exec_leads (perform sh) x s)
    (fun e he => (hframe e he).1.cwd) hpending).imp_right ?_
  rintro ⟨e, he, text', hc, hs, hnode⟩
  have hmakes : log.Counting (· = text) e.call := hp.exec (perform sh) x s e he
  rw [hc] at hmakes
  obtain ⟨-, rfl⟩ := hmakes
  exact ⟨e, he, hc, hs, hnode⟩

theorem framed_refl (hopened : ∀ h ∈ s.opened .fd, h.path = log.info s.disk.cwd) :
    log.Framed s s := ⟨rfl, hopened, fun _ _ => rfl⟩

theorem isDir_congr {d d' : Disk} {p : Path} (h : d'.node p = d.node p) :
    d'.IsDir p ↔ d.IsDir p := by rw [Disk.IsDir, Disk.IsDir, h]

theorem counter_congr {d d' : Disk} (h : log.Counter d logInfo) (hcwd : d'.cwd = d.cwd)
    (hinfo : d'.node (log.info d.cwd) = d.node (log.info d.cwd))
    (hdir : d'.IsDir (Path.resolve d.cwd log.dir) ↔ d.IsDir (Path.resolve d.cwd log.dir)) :
    log.Counter d' logInfo := by
  rw [LogFile.info] at hinfo
  cases h with
  | missing hnone hd =>
    refine .missing (by rw [hcwd, hinfo, hnone]) ?_
    rwa [hcwd, hdir]
  | stored hstored hcount hindex =>
    exact .stored (by rw [hcwd, hinfo, hstored]) hcount hindex

theorem lookup_info : s.disk.lookup (logInfoPath log.text) = s.disk.node (log.info s.disk.cwd) := by
  rw [log.logInfoPath_text, LogFile.lookup_text (proper_logInfoPath log.proper), LogFile.info]

/-- The part of `ReadLogInfo` that reads a file. -/
def readStored (logInfoPath memory : Text) : Prog LogInfo := do
  let opened ← Sys.openFile .fd logInfoPath false false
  if opened then
    let s ← Sys.read .fd LogInfo.byteSize
    Sys.close .fd
    return .ofBytes (s ++ memory.drop s.length)
  else
    return .ofBytes memory

theorem readStored_value {memory : Text} {read : LogInfo}
    (hfile : s.disk.lookup (logInfoPath log.text) = some (.file (Item.ofText logInfo.bytes)))
    (hcount : Word.Fits logInfo.count) (hindex : Word.Fits logInfo.oldestIndex) {x : ℕ → Choice}
    (hcomplete : ∀ e ∈ ((readStored (logInfoPath log.text) memory).exec (perform sh) x s).calls,
      Complete e)
    (hvalue : ((readStored (logInfoPath log.text) memory).exec (perform sh) x s).value = some read) :
    read = logInfo := by
  have hnode : s.disk.node (s.disk.path (logInfoPath log.text)) =
      some (.file (Item.ofText logInfo.bytes)) := by
    rwa [info_text, ← lookup_info]
  simp only [readStored, request_bind] at hcomplete hvalue
  obtain ⟨hv, hcalls⟩ := exec_value sh hvalue
  rw [hcalls] at hcomplete
  have hopen : (act sh (.openFile .fd (logInfoPath log.text) false false) (x 0) s).1 = true :=
    hcomplete _ List.mem_cons_self rfl
  have hact : act sh (.openFile .fd (logInfoPath log.text) false false) (x 0) s =
      (true, s.setOpen .fd (some ⟨s.disk.path (logInfoPath log.text), false⟩)) := by
    rcases act_openFile_cases sh (x 0) s .fd (logInfoPath log.text) false false with
      hact | ⟨c, -, hact⟩ | ⟨hcreates, -⟩
    · simp [hact] at hopen
    · exact hact
    · exact absurd hcreates Bool.false_ne_true
  have htarget := target_setOpen (f := .fd)
    (h := ⟨s.disk.path (logInfoPath log.text), false⟩) hnode
  rw [hact, if_pos rfl] at hv hcomplete
  simp only at hv hcomplete
  generalize s.setOpen .fd (some ⟨s.disk.path (logInfoPath log.text), false⟩) = t
    at hv hcomplete htarget
  obtain ⟨hv, hcalls⟩ := exec_value sh hv
  rw [hcalls] at hcomplete
  have hlength : List.length (act sh (.read .fd LogInfo.byteSize) (x 1) t).1 = 8 :=
    hcomplete _ (List.mem_cons_of_mem _ List.mem_cons_self)
  have htake : (Item.text (Item.ofText logInfo.bytes)).take LogInfo.byteSize = logInfo.bytes := by
    rw [Item.text_ofText]
    exact List.take_of_length_le (Nat.le_refl 8)
  have hread : (act sh (.read .fd LogInfo.byteSize) (x 1) t).1 = logInfo.bytes := by
    rw [act_read_whole htarget (by rw [htake, hlength]; exact Nat.le_refl 8), htake]
  obtain ⟨hv, -⟩ := exec_value sh hv
  have hv := Option.some.inj hv
  simp only [Nat.zero_add, hread] at hv
  rw [← hv, LogInfo.ofBytes_bytes hcount hindex]

/-- A counter that was read as a whole is the one that is there. -/
theorem read_value (h : log.Counter s.disk logInfo) {x : ℕ → Choice} {read : LogInfo}
    (hcomplete : ∀ e ∈ ((ReadLogInfo log.text).exec (perform sh) x s).calls, Complete e)
    (hvalue : ((ReadLogInfo log.text).exec (perform sh) x s).value = some read) :
    read = logInfo := by
  have hlookup : s.disk.lookup (logInfoPath log.text) = _ := lookup_info
  simp only [ReadLogInfo, request_bind] at hcomplete hvalue
  obtain ⟨hv, hcalls⟩ := exec_value sh hvalue
  rw [hcalls] at hcomplete
  cases h with
  | missing hnone hdir =>
    have hstat : (act sh (.stat (logInfoPath log.text)) (x 0) s).1 = none := by
      rw [act, hlookup, LogFile.info, hnone]
      rfl
    rw [hstat, Option.isNone_none, if_pos rfl] at hv
    obtain ⟨hv, -⟩ := exec_value sh hv
    split_ifs at hv
    · obtain ⟨hv, -⟩ := exec_value sh hv
      obtain ⟨hv, -⟩ := exec_value sh hv
      exact (Option.some.inj hv).symm
    · exact (Option.some.inj hv).symm
  | stored hinfo hcount hindex =>
    have hfile : s.disk.lookup (logInfoPath log.text) = some (.file (Item.ofText logInfo.bytes)) :=
      hlookup.trans hinfo
    have hstat : (act sh (.stat (logInfoPath log.text)) (x 0) s).1.isNone = false := by
      rw [act, hfile]
      rfl
    rw [hstat, if_neg Bool.false_ne_true] at hv hcomplete
    obtain ⟨hv, hcalls⟩ := exec_value sh hv
    rw [hcalls] at hcomplete
    refine readStored_value hfile hcount hindex (fun e he => hcomplete e ?_) hv
    exact List.mem_cons_of_mem _ (List.mem_cons_of_mem _ he)

variable (log) in
theorem makes_readStored (memory : Text) :
    (readStored (logInfoPath log.text) memory).Makes (log.Counting fun _ => False) := by
  refine ⟨⟨rfl, rfl⟩, fun opened => ?_⟩
  cases opened
  · trivial
  · exact ⟨trivial, fun _ => ⟨trivial, fun _ => trivial⟩⟩

variable (sh) in
/-- Reading leaves the counter as it was, if nothing is pending. -/
theorem read_counter (h : log.Counter s.disk logInfo) (hf : log.Framed s s) (x : ℕ → Choice)
    (hpending : ¬log.Pending False ((ReadLogInfo log.text).exec (perform sh) x s).calls) :
    log.Counter ((ReadLogInfo log.text).exec (perform sh) x s).state.disk logInfo := by
  have hframe := (hf.exec sh (makes_ReadLogInfo log) x).1
  have hdir := isDir_congr (hframe.others (Path.resolve s.disk.cwd log.dir) (log.path_ne_dir _ _))
  rcases counting_settles sh False x (makes_ReadLogInfo log) hf hpending with
    ⟨-, hinfo⟩ | ⟨e, he, hc, -, hinfo⟩
  · exact counter_congr h hframe.cwd hinfo hdir
  cases h with
  | missing hnone hd =>
    rw [← hframe.cwd] at hinfo
    exact .stored hinfo (by decide) (by decide)
  | stored hstored hcount hindex =>
    -- a counter that is there is not written to
    have hfile : s.disk.lookup (logInfoPath log.text) = some (.file (Item.ofText logInfo.bytes)) :=
      lookup_info.trans hstored
    have hstat : (act sh (.stat (logInfoPath log.text)) (x 0) s).1.isNone = false := by
      rw [act, hfile]
      rfl
    simp only [ReadLogInfo, request_bind] at he
    rcases mem_calls sh he with rfl | he
    · cases hc
    rw [hstat, if_neg Bool.false_ne_true] at he
    rcases mem_calls sh he with rfl | he
    · cases hc
    have hmakes := (makes_readStored log _).exec (perform sh) _ _ e he
    rw [hc] at hmakes
    exact hmakes.2.elim

end ConferenceCall.Log

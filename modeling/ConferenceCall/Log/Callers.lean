import ConferenceCall.Log.Days
import ConferenceCall.Log.Retention

/-! The callers that log to one file without a common lock: `dbg_log`, `DBG_signal_safe` and the
pass of `DBGHandleOldLog` when it comes to the file. Their system calls are interleaved, each being
atomic; a caller has its own descriptors, and a file that is renamed stays open for all. -/

namespace ConferenceCall.Log

open Library Program

/-! ### `dbg_log` -/

/-- `"%b%e %T"`. -/
def strftime (t : ℤ) : Text :=
  let tm := gmtime t
  let months := ["Jan", "Feb", "Mar", "Apr", "May", "Jun", "Jul", "Aug", "Sep", "Oct", "Nov", "Dec"]
  let day := Decimal.print 0 tm.tm_mday
  (months.getD tm.tm_mon.toNat "?").toList ++ (if tm.tm_mday < 10 then ' ' :: day else day) ++
    ' ' :: clockTime t

def make_log_with_time (t : ℤ) (dbgStr : Text) : Text :=
  snprintf MAX_LOG_BUFFER_SIZE ('[' :: strftime t ++ "] ".toList ++ dbgStr)

/-- One round of the loop, with the result when it is the last one. The stream is written out when
it is closed. -/
def dbg_log_round (dbgStr filePath : Text) : Prog (Option ℤ) := do
  let there ← Sys.access filePath
  if there then
    let size ← get_file_size filePath
    if DBG_LOG_SIZE_MAX < size then
      BackupLogFile filePath
      return none
    else
      let opened ← Sys.openFile .logFd filePath true true
      if !opened then return some (-1)
      let (t, _) ← Sys.gettimeofday
      let _ ← Sys.write .logFd (make_log_with_time t dbgStr)
      Sys.close .logFd
      return some 0
  else
    let _ ← Sys.system ("touch ".toList ++ filePath)
    return none

/-- The loop, as far as some number of rounds. -/
def dbg_log (dbgStr filePath : Text) : ℕ → Prog (Option ℤ)
  | 0 => return none
  | n + 1 => do
    match ← dbg_log_round dbgStr filePath with
    | some result => return some result
    | none => dbg_log dbgStr filePath n

/-! ### Callers -/

/-- What a caller does up to a rotation of the file, with what it does afterwards; `none` when it
ends without one. -/
abbrev Task := Prog (Option (Prog Unit))

/-- A task with its rotation. -/
def Task.whole (filePath : Text) (task : Task) : Prog Unit := do
  match ← task with
  | none => pure ()
  | some rest => do BackupLogFile filePath; rest

/-- Append a text that is made when the file is open. -/
def append (text : Prog Text) (filePath : Text) : Prog Unit := do
  let opened ← Sys.openFile .logFd filePath true true
  if opened then
    let text ← text
    let _ ← Sys.write .logFd text
    Sys.close .logFd

def signalSafeTask (dbgStr filePath : Text) : Task := do
  Sys.stderr dbgStr
  let size ← get_file_size filePath
  if DBG_LOG_SIZE_MAX < size then return some (append (pure dbgStr) filePath)
  else
    append (pure dbgStr) filePath
    return none

def logTask (dbgStr filePath : Text) : Task := do
  let there ← Sys.access filePath
  if there then
    let size ← get_file_size filePath
    if DBG_LOG_SIZE_MAX < size then return some (pure ())
    else
      append (do return make_log_with_time (← Sys.gettimeofday).1 dbgStr) filePath
      return none
  else
    let _ ← Sys.system ("touch ".toList ++ filePath)
    return none

/-- The pass with its own log open, at a file that it does not pack. -/
def passTask (passLog folderPath : Text) (d_name : Name) : Task := do
  let opened ← Sys.openFile .logFd passLog true true
  if opened then
    let d_type ← Sys.readdir folderPath d_name
    if d_type = some .DT_REG then
      let newPath := folderPath ++ '/' :: d_name
      let size ← get_file_size newPath
      if DBG_LOG_SIZE_MAX < size then
        let _ ← Sys.write .logFd ("file ".toList ++ newPath ++ " need compress\n".toList)
        return some (Sys.close .logFd)
      else
        Sys.close .logFd
        return none
    else
      Sys.close .logFd
      return none
  else return none

section

variable (dbgStr filePath : Text)

theorem append_bind {α : Type} (text : Prog Text) (f : Unit → Prog α) :
    append text filePath >>= f = (do
      let opened ← Sys.openFile .logFd filePath true true
      if opened then
        let text ← text
        let _ ← Sys.write .logFd text
        Sys.close .logFd
        f ()
      else f ()) := by
  simp only [append, request_bind, call_bind]
  refine call_congr fun opened => ?_
  cases opened
  · rfl
  · exact bind_assoc _ _ _

/-- A call of `DBG_signal_safe` rotates at most once. -/
theorem DBG_signal_safe_eq :
    (DBG_signal_safe (some dbgStr) filePath >>= fun _ => pure ()) =
      (signalSafeTask dbgStr filePath).whole filePath := by
  simp only [DBG_signal_safe, signalSafeTask, Task.whole, get_file_size, request_bind, call_bind,
    Program.pure_bind]
  refine call_congr fun _ => call_congr fun size => ?_
  by_cases hlarge : DBG_LOG_SIZE_MAX < size.getD 0
  · simp only [if_pos hlarge, bind_assoc, Program.pure_bind, call_bind]
    refine congrArg _ (funext fun _ => call_congr fun opened => ?_)
    cases opened <;> rfl
  · simp only [if_neg hlarge, append_bind, call_bind]
    refine call_congr fun opened => ?_
    cases opened <;> rfl

/-- So does a round of `dbg_log`. -/
theorem dbg_log_round_eq :
    (dbg_log_round dbgStr filePath >>= fun _ => pure ()) =
      (logTask dbgStr filePath).whole filePath := by
  simp only [dbg_log_round, logTask, Task.whole, get_file_size, request_bind, call_bind,
    Program.pure_bind]
  refine call_congr fun there => ?_
  cases there
  · rfl
  · refine call_congr fun size => ?_
    by_cases hlarge : DBG_LOG_SIZE_MAX < size.getD 0
    · simp only [if_pos hlarge]
      exact bind_assoc _ _ _
    · simp only [if_neg hlarge, append_bind, call_bind]
      refine call_congr fun opened => ?_
      cases opened <;> rfl

/-- So does the pass at a file that it does not pack. -/
theorem passTask_eq (passLog folderPath : Text) {d_name : Name} (h : needsCompress d_name = false) :
    (passTask passLog folderPath d_name).whole (folderPath ++ '/' :: d_name) = (do
      let opened ← Sys.openFile .logFd passLog true true
      if opened then
        visitFile folderPath d_name
        Sys.close .logFd) := by
  simp only [passTask, visitFile, HandleFile, Task.whole, get_file_size, request_bind, call_bind, h,
    Bool.false_eq_true, if_false, Program.pure_bind]
  refine call_congr fun opened => ?_
  cases opened
  · rfl
  · simp only [if_true, call_bind]
    refine call_congr fun d_type => ?_
    by_cases hfile : d_type = some .DT_REG
    · simp only [if_pos hfile, call_bind]
      refine call_congr fun size => ?_
      by_cases hlarge : DBG_LOG_SIZE_MAX < size.getD 0
      · simp only [if_pos hlarge, call_bind]
        rfl
      · simp only [if_neg hlarge]
        rfl
    · simp only [if_neg hfile]
      rfl

end

/-! ### Interleaving -/

/-- Where a caller is: before a rotation or without one, or in it, with what it does afterwards. -/
inductive Code
  | idle
  | outside (task : Task)
  | inside (p rest : Prog Unit)

def Code.Rotates : Code → Prop
  | .inside .. => True
  | _ => False

/-- The callers on their disk, each with its own descriptors. -/
structure Callers (θ : Type) where
  disk : Disk
  opened : θ → Fd → Option Handle := fun _ _ => none
  code : θ → Code := fun _ => .idle

/-- What logs to a file. A pass comes to it in its folder, where it packs other names. -/
inductive Caller (log : LogFile)
  | signalSafe (dbgStr : Text)
  | log (dbgStr : Text)
  | pass (passLog folderPath : Text) (folder : log.dir = folderPath ++ ['/'])
    (entry : needsCompress log.name = false)

namespace Caller

variable {log : LogFile}

/-- The call of a function, a round of its loop, or what a pass does with one entry. -/
def program : Caller log → Prog Unit
  | .signalSafe dbgStr => DBG_signal_safe (some dbgStr) log.text >>= fun _ => pure ()
  | .log dbgStr => dbg_log_round dbgStr log.text >>= fun _ => pure ()
  | .pass passLog folderPath _ _ => do
    let opened ← Sys.openFile .logFd passLog true true
    if opened then
      visitFile folderPath log.name
      Sys.close .logFd

def task : Caller log → Task
  | .signalSafe dbgStr => signalSafeTask dbgStr log.text
  | .log dbgStr => logTask dbgStr log.text
  | .pass passLog folderPath _ _ => passTask passLog folderPath log.name

/-- A caller rotates the log file, and at most once. -/
theorem task_whole (caller : Caller log) : caller.task.whole log.text = caller.program := by
  cases caller with
  | signalSafe dbgStr => exact (DBG_signal_safe_eq dbgStr log.text).symm
  | log dbgStr => exact (dbg_log_round_eq dbgStr log.text).symm
  | pass passLog folderPath folder entry =>
    have htext : log.text = folderPath ++ '/' :: log.name := by
      rw [LogFile.text, folder, List.append_assoc]
      rfl
    rw [htext]
    exact passTask_eq passLog folderPath entry

end Caller

/-- A caller starts, or the next one of its calls is made. -/
inductive Turn (θ : Type) (log : LogFile)
  | start (t : θ) (caller : Caller log)
  | call (t : θ) (x : Choice)

/-- The descriptors of another caller after a call: a file is renamed or removed for all. -/
def others (sh : Text → List (List Text)) (a : Call) (x : Choice) (s : State) :
    Fd → Option Handle :=
  match a with
  | .rename .. | .unlink _ | .system _ => (act sh a x s).2.opened
  | _ => s.opened

namespace Callers

variable {θ : Type} (c : Callers θ) (t : θ)

/-- What a caller sees. -/
def view : State := ⟨c.disk, c.opened t⟩

variable [DecidableEq θ] (sh : Text → List (List Text))

def become (code : Code) : Callers θ := { c with code := Function.update c.code t code }

/-- A call is made, or the caller ends before it. -/
def make (a : Call) (x : Choice) (next : a.Answer → Code) : Callers θ × Trace :=
  if x.fate = .stops then
    ({ c with opened := Function.update c.opened t fun _ => none }.become t .idle, [])
  else
    let e := event sh a x (c.view t)
    ({ disk := e.after.disk
       opened := fun u => if u = t then e.after.opened else others sh a x (c.view u)
       code := Function.update c.code t (next e.answer) }, [e])

section

variable {c : Callers θ} {t u : θ} {sh : Text → List (List Text)} {a : Call} {x : Choice}
  {next : a.Answer → Code} {code : Code}

theorem become_code_self : (c.become t code).code t = code := Function.update_self ..

theorem become_code_of_ne (h : u ≠ t) : (c.become t code).code u = c.code u :=
  Function.update_of_ne h ..

@[simp] theorem become_become (code' : Code) : (c.become t code).become t code' = c.become t code' := by
  simp only [become, Function.update_idem]

variable (hx : x.fate ≠ .stops)
include hx

theorem make_calls : (c.make t sh a x next).2 = [event sh a x (c.view t)] := by
  rw [make, if_neg hx]

theorem make_disk : (c.make t sh a x next).1.disk = (act sh a x (c.view t)).2.disk := by
  rw [make, if_neg hx]
  rfl

theorem make_opened_self :
    (c.make t sh a x next).1.opened t = (act sh a x (c.view t)).2.opened := by
  rw [make, if_neg hx]
  exact if_pos rfl

theorem make_opened_of_ne (h : u ≠ t) :
    (c.make t sh a x next).1.opened u = others sh a x (c.view u) := by
  rw [make, if_neg hx]
  exact if_neg h

theorem make_code_self :
    (c.make t sh a x next).1.code t = next (act sh a x (c.view t)).1 := by
  rw [make, if_neg hx]
  exact Function.update_self ..

theorem make_code_of_ne (h : u ≠ t) : (c.make t sh a x next).1.code u = c.code u := by
  rw [make, if_neg hx]
  exact Function.update_of_ne h ..

/-- A call that only looks. -/
theorem make_look (hact : (act sh a x (c.view t)).2 = c.view t)
    (hothers : ∀ s, others sh a x s = s.opened) :
    (c.make t sh a x next).1 = c.become t (next (act sh a x (c.view t)).1) := by
  have hopened : (fun u => if u = t then c.opened t else c.opened u) = c.opened := by
    funext u
    split_ifs with hu
    · rw [hu]
    · rfl
  rw [make, if_neg hx]
  simp only [event, hact, hothers]
  exact congrArg (fun opened => Callers.mk c.disk opened _) hopened

end

def step (log : LogFile) : Step (Turn θ log) (Callers θ) (Event Call Call.Answer State)
  | .start t caller, c =>
    match c.code t with
    | .idle => (c.become t (.outside caller.task), [])
    | _ => (c, [])
  | .call t x, c =>
    match c.code t with
    | .idle => (c, [])
    | .outside (.done none) => (c.become t .idle, [])
    | .outside (.done (some rest)) => (c.become t (.inside (BackupLogFile log.text) rest), [])
    | .outside (.call a next) => c.make t sh a x fun r => .outside (next r)
    | .inside (.done _) rest => (c.become t (.outside (rest >>= fun _ => pure none)), [])
    | .inside (.call a next) rest => c.make t sh a x fun r => .inside (next r) rest

end Callers

end ConferenceCall.Log

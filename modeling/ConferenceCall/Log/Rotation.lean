import ConferenceCall.Library.Word
import ConferenceCall.Log.Names
import ConferenceCall.Log.System

/-! Rotation of a log file. The counter of the backups lies in a file of its own; it is read and
rewritten by every rotation, and no result of a call but that of `open` is looked at. -/

namespace ConferenceCall.Log

open Library Program

def MAX_LOG_FILE_NUM : ℤ := 63

def DBG_LOG_SIZE_MAX : ℕ := 20 * 2 ^ 20

structure LogInfo where
  count : ℤ
  oldestIndex : ℤ
  deriving DecidableEq

namespace LogInfo

/-- `sizeof(LogInfo)`. -/
def byteSize : ℕ := 8

/-- The memory of a `LogInfo`. -/
def bytes (logInfo : LogInfo) : Text := Word.bytes logInfo.count ++ Word.bytes logInfo.oldestIndex

def ofBytes (s : Text) : LogInfo := ⟨Word.ofBytes s, Word.ofBytes (s.drop 4)⟩

/-- The index of the next backup. -/
def target (logInfo : LogInfo) : ℤ :=
  if logInfo.count < MAX_LOG_FILE_NUM then logInfo.count
  else Word.int32 (logInfo.oldestIndex + logInfo.count)

/-- The counter after it. -/
def next (logInfo : LogInfo) : LogInfo :=
  if logInfo.count < MAX_LOG_FILE_NUM then { logInfo with count := logInfo.count + 1 }
  else { logInfo with oldestIndex := Word.int32 (logInfo.oldestIndex + 1) }

end LogInfo

/-- The memory of the result is written to only as far as the file is read. -/
def ReadLogInfo (origFilePath : Text) : Prog LogInfo := do
  let logInfoPath := logInfoPath origFilePath
  let found ← Sys.stat logInfoPath
  if found.isNone then
    let opened ← Sys.openFile .fd logInfoPath true false
    if opened then
      let _ ← Sys.write .fd (LogInfo.bytes ⟨0, 0⟩)
      Sys.close .fd
    return ⟨0, 0⟩
  else
    let memory ← Sys.uninitialised
    let opened ← Sys.openFile .fd logInfoPath false false
    if opened then
      let s ← Sys.read .fd LogInfo.byteSize
      Sys.close .fd
      return .ofBytes (s ++ memory.drop s.length)
    else
      return .ofBytes memory

def WriteLogInfo (origFilePath : Text) (logInfo : LogInfo) : Prog Unit := do
  let opened ← Sys.openFile .fd (logInfoPath origFilePath) false false
  if opened then
    let _ ← Sys.write .fd logInfo.bytes
    Sys.close .fd

/-- Move the file away under the next index and go on counting; the oldest backup goes first when
there are enough. -/
def rotate (origFilePath : Text) (logInfo : LogInfo) : Prog Unit := do
  if logInfo.count < MAX_LOG_FILE_NUM then
    let _ ← Sys.rename origFilePath (backupFilePath origFilePath logInfo.count)
    WriteLogInfo origFilePath { logInfo with count := logInfo.count + 1 }
  else
    let _ ← Sys.unlink (backupFilePath origFilePath logInfo.oldestIndex)
    let _ ← Sys.rename origFilePath
      (backupFilePath origFilePath (Word.int32 (logInfo.oldestIndex + logInfo.count)))
    WriteLogInfo origFilePath { logInfo with oldestIndex := Word.int32 (logInfo.oldestIndex + 1) }

def BackupLogFile (origFilePath : Text) : Prog Unit := do
  let logInfo ← ReadLogInfo origFilePath
  rotate origFilePath logInfo

def get_file_size (fileName : Text) : Prog ℕ := do
  let size ← Sys.stat fileName
  return size.getD 0

def DBG_signal_safe (dbgStr : Option Text) (filePath : Text) : Prog ℤ :=
  match dbgStr with
  | none => return -1
  | some dbgStr => do
    Sys.stderr dbgStr
    let size ← get_file_size filePath
    if DBG_LOG_SIZE_MAX < size then
      BackupLogFile filePath
    let opened ← Sys.openFile .logFd filePath true true
    if !opened then
      return -2
    let _ ← Sys.write .logFd dbgStr
    Sys.close .logFd
    return 0

/-- The calls of a rotation. -/
def Call.Rotates : Call → Prop
  | .stat _ | .uninitialised | .rename .. | .unlink _ => True
  | .openFile f .. | .read f _ | .write f _ | .close f => f = .fd
  | _ => False

theorem rotates_WriteLogInfo (p : Text) (logInfo : LogInfo) :
    Makes Call.Rotates (WriteLogInfo p logInfo) := by
  refine ⟨rfl, fun opened => ?_⟩
  cases opened with
  | false => trivial
  | true => exact ⟨rfl, fun _ => ⟨rfl, fun _ => trivial⟩⟩

theorem rotates_BackupLogFile (p : Text) : Makes Call.Rotates (BackupLogFile p) := by
  have hread : Makes Call.Rotates (ReadLogInfo p) := by
    refine ⟨trivial, fun found => ?_⟩
    cases found with
    | none =>
      refine ⟨rfl, fun opened => ?_⟩
      cases opened with
      | false => trivial
      | true => exact ⟨rfl, fun _ => ⟨rfl, fun _ => trivial⟩⟩
    | some size =>
      refine ⟨trivial, fun memory => ⟨rfl, fun opened => ?_⟩⟩
      cases opened with
      | false => trivial
      | true => exact ⟨rfl, fun _ => ⟨rfl, fun _ => trivial⟩⟩
  refine hread.bind fun logInfo => ?_
  rw [rotate]
  split_ifs
  · exact ⟨trivial, fun _ => rotates_WriteLogInfo _ _⟩
  · exact ⟨trivial, fun _ => ⟨trivial, fun _ => rotates_WriteLogInfo _ _⟩⟩

/-- A call of `rename`. -/
def Call.isRename : Call → Bool
  | .rename .. => true
  | _ => false

theorem counts_ReadLogInfo (p : Text) : Counts Call.isRename (ReadLogInfo p) 0 := by
  simp only [ReadLogInfo, request_bind]
  refine .call fun found => ?_
  split_ifs
  · refine .call fun opened => ?_
    split_ifs
    · exact .call fun _ => .call fun _ => .pure _
    · exact .pure _
  · refine .call fun memory => .call fun opened => ?_
    split_ifs
    · exact .call fun _ => .call fun _ => .pure _
    · exact .pure _

theorem counts_WriteLogInfo (p : Text) (logInfo : LogInfo) :
    Counts Call.isRename (WriteLogInfo p logInfo) 0 := by
  simp only [WriteLogInfo, request_bind]
  refine .call fun opened => ?_
  split_ifs
  · exact .call fun _ => .call fun _ => .pure _
  · exact .pure _

/-- A rotation renames once. -/
theorem counts_BackupLogFile (p : Text) : Counts Call.isRename (BackupLogFile p) 1 := by
  refine (counts_ReadLogInfo p).bind (n := 1) fun logInfo => ?_
  simp only [rotate, request_bind]
  split_ifs
  · exact .call fun _ => counts_WriteLogInfo p _
  · exact .call fun _ => .call fun _ => counts_WriteLogInfo p _

end ConferenceCall.Log

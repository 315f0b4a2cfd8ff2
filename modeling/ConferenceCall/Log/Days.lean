import ConferenceCall.Log.Folder

/-! The log directory with a folder for each day. A line goes to the folder of its day; the folders
of earlier days are packed and removed, and when the directory has grown too large its oldest entry
is removed. -/

namespace ConferenceCall.Log

open Library Program

/-- Megabytes. -/
def MAX_APLOG_RESERVED_SIZE : ℕ := 212

def MAX_LOG_BUFFER_SIZE : ℕ := 4096

def APP_LOG_PATH : Text := "/APLog/".toList

/-- What `snprintf` leaves in a buffer. -/
def snprintf (size : ℕ) (s : Text) : Text := s.take (size - 1)

/-- What precedes each slash of a text. -/
def slashPrefixes (before : Text) : Text → List Text
  | [] => []
  | c :: s =>
    if c = '/' then before :: slashPrefixes (before ++ [c]) s else slashPrefixes (before ++ [c]) s

def makeMissing (str : Text) : Prog Unit := do
  let found ← Sys.access str
  if !found then
    let _ ← Sys.mkdir str

def mkdirs (muldir : Text) : Prog Unit := do
  each makeMissing (slashPrefixes [] muldir)
  if muldir ≠ [] then
    makeMissing muldir

def GetTotalFolderSizeMb (path : Text) : Prog ℕ := do
  let gTotalFolderSize ← Sys.ftw path
  return gTotalFolderSize / 1000000

/-- `"%02d:%02d:%02d"` of a time. -/
def clockTime (t : ℤ) : Text :=
  let tm := gmtime t
  Decimal.print 2 tm.tm_hour ++ ':' :: (Decimal.print 2 tm.tm_min ++ ':' :: Decimal.print 2 tm.tm_sec)

def GetDebugLogPayload (t : ℤ) : Text :=
  snprintf 128 ('[' :: clockTime t ++ "]<>".toList)

/-- The path of the folder of a day, with a slash at the end. -/
def pathBuf (path : Text) (t : ℤ) : Text :=
  snprintf 256 (path ++ '/' :: APP_LOG_PATH ++ '/' :: dayName t ++ ['/'])

/-- Append a line to a file, making its folder. The lock is released at the end. -/
def publishTo (newPath filename newLog : Text) : Prog ℤ := do
  mkdirs newPath
  let opened ← Sys.openFile .logFd (newPath ++ filename) true true
  if !opened then
    Sys.quiet
    return -2
  let _ ← Sys.write .logFd newLog
  Sys.close .logFd
  Sys.quiet
  return 0

/-- Write a line to the file of its day. -/
def logAndPublish (stamp : ℤ × ℕ → Text) (dbgStr : Option Text) (path filename : Text) : Prog ℤ :=
  match dbgStr with
  | none => return -1
  | some dbgStr => do
    Sys.quiet
    let tv ← Sys.gettimeofday
    let newLog := stamp tv ++ dbgStr
    Sys.stderr newLog
    publishTo (pathBuf path tv.1) filename newLog

/-- What precedes a line in the log. -/
def payloadLog (tv : ℤ × ℕ) : Text :=
  snprintf MAX_LOG_BUFFER_SIZE
    ('[' :: clockTime tv.1 ++ '.' :: Decimal.print 0 (tv.2 / 1000 : ℕ) ++ "]<>".toList)

def DBGLogAndPublish : Option Text → Text → Text → Prog ℤ := logAndPublish payloadLog

def DataLogAndPublish : Option Text → Text → Text → Prog ℤ := logAndPublish fun _ => []

/-- What becomes of a folder. -/
inductive Ageing
  | archive
  | current
  | leave
  deriving DecidableEq

/-- Folders whose name is no day are left alone. -/
def ageing (t : ℤ) (d_name : Name) : Ageing :=
  match folderTime d_name with
  | none => .leave
  | some folderTime =>
    if folderTime < midnight t then .archive
    else if midnight t = folderTime then .current
    else .leave

def tarFolderCommand (apLogFolder : Text) (d_name : Name) : Text :=
  "tar zcf ".toList ++ apLogFolder ++ d_name ++ ".tgz -C ".toList ++ apLogFolder ++ ' ' :: d_name ++
    "\n".toList

/-- Pack the folder of a day and remove it. -/
def archiveFolder (apLogFolder timeString : Text) (t : ℤ) (d_name : Name) : Prog Unit := do
  let cmd := tarFolderCommand apLogFolder d_name
  let _ ← Sys.write .logFd timeString
  let _ ← Sys.write .logFd cmd
  let _ ← Sys.write .logFd (snprintf 512 ("CurT = ".toList ++ Decimal.print 0 (midnight t) ++
    ", FodlerT = ".toList ++ Decimal.print 0 ((folderTime d_name).getD 0) ++
    ", Folder Name = ".toList ++ d_name ++ "\n".toList))
  let _ ← Sys.system cmd
  let cmd := rmCommand (apLogFolder ++ d_name)
  let _ ← Sys.write .logFd timeString
  let _ ← Sys.write .logFd cmd
  let _ ← Sys.system cmd
  Sys.quiet

/-- A folder of the log directory. -/
def HandleDay (apLogFolder timeString : Text) (t : ℤ) (d_name : Name) : Prog Unit :=
  match ageing t d_name with
  | .archive => archiveFolder apLogFolder timeString t d_name
  | .current => HandleCurrentApLogFolder (apLogFolder ++ d_name)
  | .leave => pure ()

/-- A round of the loop over the log directory. -/
def visitDay (apLogFolder timeString : Text) (t : ℤ) (d_name : Name) : Prog Unit := do
  let d_type ← Sys.readdir apLogFolder d_name
  if d_type = some .DT_DIR then HandleDay apLogFolder timeString t d_name

def HandleOldLog (path : Text) (t : ℤ) : Prog Unit := do
  let timeString := GetDebugLogPayload t
  let apLogFolder := path ++ APP_LOG_PATH
  let names ← Sys.opendir apLogFolder
  match names with
  | none =>
    let _ ← Sys.write .logFd timeString
    let _ ← Sys.write .logFd ("[HandleOldLog]Failed to open ".toList ++ path ++ "\n".toList)
  | some names =>
    each (visitDay apLogFolder timeString t) names
    Sys.quiet

/-- The entry with the earliest day so far, and its time. -/
def takeOlder (path : Text) (oldest : ℤ × Text) (d_name : Name) : ℤ × Text :=
  match folderTime d_name with
  | none => oldest
  | some time => if time < oldest.1 then (time, path ++ d_name) else oldest

/-- Folders and regular files are treated alike: the `.tgz` of the format is not looked at. -/
def RemoveTheOldestLog (path : Text) : Prog Unit := do
  let now ← Sys.gettimeofday
  let timeString := GetDebugLogPayload now.1
  let currentTime := midnight now.1
  let names ← Sys.opendir path
  match names with
  | none =>
    let _ ← Sys.write .logFd timeString
    let _ ← Sys.write .logFd ("[RemoveTheOldestLog]Failed to open ".toList ++ path ++ "\n".toList)
  | some names =>
    let (theOldestTime, theOldestPath) ← fold (fun oldest d_name => do
      let d_type ← Sys.readdir path d_name
      return if d_type.isSome then takeOlder path oldest d_name else oldest) names (currentTime, [])
    if theOldestTime ≠ currentTime ∧ theOldestPath ≠ [] then
      let cmd := "rm -rf ".toList ++ theOldestPath
      let _ ← Sys.write .logFd timeString
      let _ ← Sys.write .logFd cmd
      let _ ← Sys.system cmd
      let _ ← Sys.write .logFd
        ("[RemoveTheOldestLog]remove the oldest log path = ".toList ++ path ++ "\n".toList)
    Sys.quiet

def DBGHandleOldLog (path filename : Text) : Prog ℤ := do
  let tv ← Sys.gettimeofday
  Sys.quiet
  let opened ← Sys.openFile .logFd (pathBuf path tv.1 ++ filename) true true
  if !opened then
    Sys.quiet
    return -2
  HandleOldLog path tv.1
  let newPath := path ++ APP_LOG_PATH
  let size ← GetTotalFolderSizeMb newPath
  if MAX_APLOG_RESERVED_SIZE < size then
    RemoveTheOldestLog newPath
  Sys.close .logFd
  Sys.quiet
  return 0

end ConferenceCall.Log

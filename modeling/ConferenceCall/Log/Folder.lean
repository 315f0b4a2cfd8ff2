import ConferenceCall.Log.Rotation
import Mathlib.Data.List.Infix

/-! The pass over the folder of the current day. Backups are packed and removed by two commands of
the shell whose results nobody looks at; every other file that has grown too large is rotated. -/

namespace ConferenceCall.Log

open Library Program

/-- `strstr`. -/
def strstr (s needle : Text) : Bool := needle <:+: s

/-- The backups that are not packed yet. -/
def needsCompress (d_name : Name) : Bool :=
  strstr d_name ".txt-".toList && !strstr d_name ".tgz".toList

def tarCommand (newPath : Text) : Text :=
  "tar zcf ".toList ++ newPath ++ ".tgz ".toList ++ newPath ++ "\n".toList

def rmCommand (newPath : Text) : Text := "rm -rf ".toList ++ newPath ++ "\n".toList

/-- The words of a command without quotes. -/
def splitWords (command : Text) : List (List Text) :=
  [(command.filter (· ≠ '\n')).splitOn ' ']

/-- Pack a backup and remove it. -/
def compress (newPath : Text) : Prog Unit := do
  let _ ← Sys.write .logFd ("Compress ".toList ++ newPath ++ "\n".toList)
  let _ ← Sys.system (tarCommand newPath)
  let _ ← Sys.write .logFd (tarCommand newPath)
  let _ ← Sys.system (rmCommand newPath)
  let _ ← Sys.write .logFd (rmCommand newPath)

/-- A regular file of the folder. -/
def HandleFile (folderPath : Text) (d_name : Name) : Prog Unit := do
  let newPath := folderPath ++ '/' :: d_name
  if needsCompress d_name then
    compress newPath
  else
    let size ← get_file_size newPath
    if DBG_LOG_SIZE_MAX < size then
      let _ ← Sys.write .logFd ("file ".toList ++ newPath ++ " need compress\n".toList)
      BackupLogFile newPath

/-- A round of the loop over the folder. -/
def visitFile (folderPath : Text) (d_name : Name) : Prog Unit := do
  let d_type ← Sys.readdir folderPath d_name
  if d_type = some .DT_REG then HandleFile folderPath d_name

def HandleCurrentApLogFolder (folderPath : Text) : Prog Unit := do
  let names ← Sys.opendir folderPath
  match names with
  | none =>
    let _ ← Sys.write .logFd ("Failed to open ".toList ++ folderPath ++ "\n".toList)
  | some names =>
    each (visitFile folderPath) names
    Sys.quiet

end ConferenceCall.Log

import ConferenceCall.Library.Accounts
import ConferenceCall.Log.Days
import ConferenceCall.Log.Reading

/-! What the passes over the log directory and over the folder of the current day delete, whatever
fails: entries, after the command that packs them was run, and backups that are too many. -/

namespace ConferenceCall.Log

open Library Program

/-- An entry that is packed: the folder of a day, or a backup in the folder of the current day. -/
inductive Entry
  | day (apLogFolder : Text) (d_name : Name)
  | backup (folderPath : Text) (d_name : Name)

namespace Entry

def path : Entry → Text
  | .day apLogFolder d_name => apLogFolder ++ d_name
  | .backup folderPath d_name => folderPath ++ '/' :: d_name

def tarCommand : Entry → Text
  | .day apLogFolder d_name => tarFolderCommand apLogFolder d_name
  | .backup folderPath d_name => Log.tarCommand (folderPath ++ '/' :: d_name)

def rmCommand (entry : Entry) : Text := Log.rmCommand entry.path

/-- The words of the two commands when the path of the entry is one word. -/
def tarWords : Entry → List Text
  | .day apLogFolder d_name =>
    ["tar".toList, "zcf".toList, apLogFolder ++ d_name ++ ".tgz".toList, "-C".toList, apLogFolder,
      d_name]
  | .backup folderPath d_name => ["tar".toList, "zcf".toList,
    folderPath ++ '/' :: d_name ++ ".tgz".toList, folderPath ++ '/' :: d_name]

def rmWords (entry : Entry) : List Text := ["rm".toList, "-rf".toList, entry.path]

/-- The shell takes the path of the entry as one word. -/
def Whole (sh : Text → List (List Text)) (entry : Entry) : Prop :=
  sh entry.tarCommand = [entry.tarWords] ∧ sh entry.rmCommand = [entry.rmWords]

/-- The entries a pass over the log directory at a time packs, by their names. -/
def Old (path : Text) (t : ℤ) : Entry → Prop
  | .day apLogFolder d_name => apLogFolder = path ++ APP_LOG_PATH ∧ ageing t d_name = .archive
  | .backup folderPath d_name =>
    (∃ n, folderPath = path ++ APP_LOG_PATH ++ n ∧ ageing t n = .current) ∧ needsCompress d_name = true

/-- The entries a pass over the folder of a day packs. -/
def In (folderPath : Text) : Entry → Prop
  | .day .. => False
  | .backup folderPath' d_name => folderPath' = folderPath ∧ needsCompress d_name = true

end Entry

/-- The event of a path that is deleted; a file that is renamed is kept. -/
def Deletes (e : Event Call Call.Answer State) (p : Path) : Prop :=
  e.before.disk.node p ≠ none ∧ e.after.disk.node p = none ∧ e.call.isRename = false

variable (sh : Text → List (List Text))

/-- The command that packs the entry was run and succeeded. -/
def Entry.Packed (entry : Entry) (calls : Trace) : Prop :=
  ∃ rans s t, (⟨.system entry.tarCommand, rans, s, t⟩ : Event Call Call.Answer State) ∈ calls ∧
    rans ≠ [] ∧ ∀ ran ∈ rans, ran.ok = true

/-- Only entries are deleted, and only when they are packed. -/
def OnlyPacked (entries : Entry → Prop) (calls : Trace) : Prop :=
  Accounted (fun l e => ∀ p, Deletes e p → ∃ entry, entries entry ∧
    e.before.disk.path entry.path <+: p ∧ entry.Packed l) calls

/-- A command of an entry. If the shell takes the entry as one word, it is the one that removes it,
after the one that packs it. -/
def Entry.Removes (entry : Entry) (l : Trace) (e : Event Call Call.Answer State) (p : Path) :
    Prop :=
  (e.call = .system entry.tarCommand ∨ e.call = .system entry.rmCommand) ∧
    (entry.Whole sh → e.call = .system entry.rmCommand ∧ e.before.disk.path entry.path <+: p ∧
      ∃ e' ∈ l, e'.call = .system entry.tarCommand)

/-- The oldest backup of a file that is too large and has too many of them. -/
def Drops (folder : Text → Prop) (l : Trace) (e : Event Call Call.Answer State) (p : Path) : Prop :=
  ∃ folderPath d_name logInfo, folder folderPath ∧ needsCompress d_name = false ∧
    e.call = .unlink (backupFilePath (folderPath ++ '/' :: d_name) logInfo.oldestIndex) ∧
    e.before.disk.path (backupFilePath (folderPath ++ '/' :: d_name) logInfo.oldestIndex) = p ∧
    ¬logInfo.count < MAX_LOG_FILE_NUM ∧
    (∃ size s t, (⟨.stat (folderPath ++ '/' :: d_name), some size, s, t⟩ :
      Event Call Call.Answer State) ∈ l ∧ DBG_LOG_SIZE_MAX < size) ∧
    ∃ x s,
      ((ReadLogInfo (folderPath ++ '/' :: d_name)).exec (perform sh) x s).value = some logInfo ∧
      ((ReadLogInfo (folderPath ++ '/' :: d_name)).exec (perform sh) x s).calls <:+ l

/-- An entry, after it was to be packed, or a backup that is too many. -/
def PackedOrDropped (entries : Entry → Prop) (folder : Text → Prop) (l : Trace)
    (e : Event Call Call.Answer State) : Prop :=
  ∀ p, Deletes e p → (∃ entry, entries entry ∧ entry.Removes sh l e p) ∨ Drops sh folder l e p

section Deletes

variable {sh} {d : Disk} {p : Path} {s t : State} {x : Choice}

theorem put_kept {q : Path} {n : Node} (h : d.node p ≠ none) :
    (d.put q (some n)).node p ≠ none := by
  by_cases hq : p = q
  · subst hq
    simp
  · rwa [Disk.put_node_of_ne hq]

theorem touched_kept (operands : List Text) (h : d.node p ≠ none) :
    (operands.foldl touched d).node p ≠ none := by
  induction operands generalizing d with
  | nil => exact h
  | cons w operands ih =>
    refine ih ?_
    unfold touched
    split_ifs
    · exact put_kept h
    · exact h

/-- Of the commands only `rm` deletes. -/
theorem run_deletes {command : Command} {tool : Tool} (h : d.node p ≠ none)
    (hgone : (command.run tool d).1.node p = none) :
    ∃ operands, command = .rm operands ∧ ∃ w ∈ operands, d.path w <+: p := by
  cases command with
  | tar target base operands =>
    simp only [Command.run] at hgone
    split_ifs at hgone
    · exact absurd hgone h
    · exact absurd hgone (put_kept h)
    · split at hgone
      · exact absurd hgone h
      · exact absurd hgone (put_kept h)
  | rm operands =>
    refine ⟨operands, rfl, ?_⟩
    by_contra hnone
    have hkept : ¬rmPaths d operands p := by
      rintro ⟨w, hw, -, hprefix⟩
      exact hnone ⟨w, hw, hprefix⟩
    exact h ((if_neg fun hrm => hkept hrm.1).symm.trans hgone)
  | touch operands =>
    simp only [Command.run] at hgone
    split_ifs at hgone
    · exact absurd hgone (touched_kept operands h)
    · exact absurd hgone h
  | other => exact absurd hgone h

theorem run_cwd (command : Command) (tool : Tool) (d : Disk) :
    (command.run tool d).1.cwd = d.cwd := by
  have htouched (operands : List Text) (d : Disk) : (operands.foldl touched d).cwd = d.cwd := by
    induction operands generalizing d with
    | nil => rfl
    | cons w operands ih =>
      refine (ih _).trans ?_
      unfold touched
      split_ifs <;> rfl
  cases command with
  | tar target base operands =>
    simp only [Command.run]
    split_ifs
    · rfl
    · rfl
    · split <;> rfl
  | rm operands => rfl
  | touch operands =>
    simp only [Command.run]
    split_ifs
    · exact htouched operands d
    · rfl
  | other => rfl

theorem runCommands_deletes {tools : ℕ → Tool} {k : ℕ} {l : List Command} (h : d.node p ≠ none)
    (hgone : (runCommands tools k l d).1.node p = none) :
    ∃ operands, .rm operands ∈ l ∧ ∃ w ∈ operands, d.path w <+: p := by
  induction l generalizing d k with
  | nil => exact absurd hgone h
  | cons command l ih =>
    by_cases hfirst : (command.run (tools k) d).1.node p = none
    · obtain ⟨operands, rfl, hw⟩ := run_deletes h hfirst
      exact ⟨operands, by simp, hw⟩
    · obtain ⟨operands, hm, w, hw, hprefix⟩ := ih hfirst hgone
      refine ⟨operands, by simp [hm], w, hw, ?_⟩
      rwa [Disk.path, run_cwd] at hprefix

/-- A path is deleted by `unlink`, or by a command `rm` for it. -/
theorem act_deletes {c : Call} (h : s.disk.node p ≠ none)
    (hgone : (act sh c x s).2.disk.node p = none) (hrename : c.isRename = false) :
    (∃ path, c = .unlink path ∧ s.disk.path path = p) ∨
      ∃ command operands, c = .system command ∧ (∃ words ∈ sh command,
        Command.ofWords words = .rm operands) ∧ ∃ w ∈ operands, s.disk.path w <+: p := by
  cases c with
  | openFile f path creates appends =>
    rcases act_openFile_cases sh x s f path creates appends with
      hact | ⟨c, -, hact⟩ | ⟨-, -, hact⟩ <;> rw [hact] at hgone
    · exact absurd hgone h
    · exact absurd hgone h
    · exact absurd hgone (put_kept h)
  | write f text => exact absurd ((write_node_none sh x f text s p).mp hgone) h
  | rename old new => cases hrename
  | unlink path =>
    rcases act_unlink_cases sh x s path with hact | ⟨c, -, hact⟩ <;> rw [hact] at hgone
    · exact absurd hgone h
    · by_cases hp : p = s.disk.path path
      · exact .inl ⟨path, rfl, hp.symm⟩
      · exact absurd ((Disk.put_node_of_ne hp).symm.trans hgone) h
  | mkdir path =>
    simp only [act] at hgone
    split_ifs at hgone
    · exact absurd hgone h
    · exact absurd hgone (put_kept h)
  | system command =>
    simp only [act] at hgone
    split_ifs at hgone
    · exact absurd hgone h
    · obtain ⟨operands, hm, hw⟩ := runCommands_deletes h hgone
      obtain ⟨words, hwords, hrm⟩ := List.mem_map.mp hm
      exact .inr ⟨command, operands, rfl, ⟨words, hwords, hrm⟩, hw⟩
  | _ => exact absurd hgone h

end Deletes

/-- Calls that delete nothing. -/
def Call.Keeps : Call → Prop
  | .unlink _ | .system _ => False
  | _ => True

section Accounts

variable {sh} {entries : Entry → Prop} {folder : Text → Prop} {l : Trace} {c : Call} {x : Choice}
  {s t : State} {r : c.Answer}

theorem not_deletes (hc : c.Keeps) (h : perform sh c x s = some (r, t)) (p : Path) :
    ¬Deletes ⟨c, r, s, t⟩ p := by
  rintro ⟨hbefore, hafter, hrename⟩
  obtain ⟨-, hact⟩ := (perform_eq_some sh).mp h
  obtain rfl : (act sh c x s).2 = t := congrArg Prod.snd hact
  rcases act_deletes hbefore hafter hrename with ⟨path, rfl, -⟩ | ⟨command, -, rfl, -⟩
  · exact hc
  · exact hc

theorem packedOrDropped_of_keeps (hc : c.Keeps) (h : perform sh c x s = some (r, t)) :
    PackedOrDropped sh entries folder l ⟨c, r, s, t⟩ :=
  fun p hp => absurd hp (not_deletes hc h p)

/-- What a command of the shell deletes. -/
theorem system_deletes {command : Text} {rans : List Ran} {words : List Text} {p : Path}
    (h : perform sh (.system command) x s = some (rans, t))
    (hdeletes : Deletes ⟨.system command, rans, s, t⟩ p) (hwords : sh command = [words]) :
    ∃ operands, Command.ofWords words = .rm operands ∧ ∃ w ∈ operands, s.disk.path w <+: p := by
  obtain ⟨hbefore, hafter, hrename⟩ := hdeletes
  obtain ⟨-, hact⟩ := (perform_eq_some sh).mp h
  obtain rfl : (act sh (.system command) x s).2 = t := congrArg Prod.snd hact
  rcases act_deletes hbefore hafter hrename with ⟨path, hc, -⟩ | ⟨c, operands, hc, hrm, hw⟩
  · cases hc
  · cases hc
    obtain ⟨words', hmem, hrm⟩ := hrm
    rw [hwords, List.mem_singleton] at hmem
    exact ⟨operands, hmem ▸ hrm, hw⟩

variable {entry : Entry} {rans : List Ran}

theorem ofWords_rmWords (entry : Entry) : Command.ofWords entry.rmWords = .rm [entry.path] := by
  simp [Entry.rmWords, Command.ofWords]

theorem ofWords_day (apLogFolder : Text) (d_name : Name) :
    Command.ofWords (Entry.day apLogFolder d_name).tarWords =
      .tar (apLogFolder ++ d_name ++ ".tgz".toList) apLogFolder [d_name] := by
  simp [Entry.tarWords, Command.ofWords, Command.ofTar]

theorem ofWords_backup (folderPath : Text) (d_name : Name) :
    Command.ofWords (Entry.backup folderPath d_name).tarWords =
      .tar (folderPath ++ '/' :: d_name ++ ".tgz".toList) [] [folderPath ++ '/' :: d_name] := by
  simp [Entry.tarWords, Command.ofWords, Command.ofTar]

theorem ofWords_tarWords (entry : Entry) (operands : List Text) :
    Command.ofWords entry.tarWords ≠ .rm operands := by
  cases entry with
  | day apLogFolder d_name => simp [ofWords_day]
  | backup folderPath d_name => simp [ofWords_backup]

theorem tar_accounted (hentry : entries entry)
    (h : perform sh (.system entry.tarCommand) x s = some (rans, t)) :
    PackedOrDropped sh entries folder l ⟨.system entry.tarCommand, rans, s, t⟩ := by
  intro p hp
  refine .inl ⟨entry, hentry, .inl rfl, fun hwhole => ?_⟩
  obtain ⟨operands, hrm, -⟩ := system_deletes h hp hwhole.1
  exact absurd hrm (ofWords_tarWords entry operands)

theorem rm_accounted (hentry : entries entry) (htar : ∃ e ∈ l, e.call = .system entry.tarCommand)
    (h : perform sh (.system entry.rmCommand) x s = some (rans, t)) :
    PackedOrDropped sh entries folder l ⟨.system entry.rmCommand, rans, s, t⟩ := by
  intro p hp
  refine .inl ⟨entry, hentry, .inr rfl, fun hwhole => ?_⟩
  obtain ⟨operands, hrm, w, hw, hprefix⟩ := system_deletes h hp hwhole.2
  rw [ofWords_rmWords] at hrm
  cases hrm
  rw [List.mem_singleton] at hw
  exact ⟨rfl, hw ▸ hprefix, htar⟩

/-- An entry is packed and removed. -/
theorem accounts_compress {folderPath d_name : Text}
    (hentry : entries (.backup folderPath d_name)) :
    Accounts (perform sh) (PackedOrDropped sh entries folder)
      (compress (folderPath ++ '/' :: d_name)) := by
  refine accounts_call fun x s r t h => ⟨packedOrDropped_of_keeps trivial h, ?_⟩
  refine accounts_call fun x' s' r' t' h' => ⟨tar_accounted hentry h', ?_⟩
  refine accounts_call fun x s r t h => ⟨packedOrDropped_of_keeps trivial h, ?_⟩
  refine accounts_call fun x s r t h => ⟨rm_accounted hentry ?_ h, ?_⟩
  · exact ⟨⟨_, r', s', t'⟩, by simp, rfl⟩
  refine accounts_call fun x s r t h => ⟨packedOrDropped_of_keeps trivial h, ?_⟩
  exact accounts_done ()

theorem accounts_archiveFolder {apLogFolder d_name : Text} (timeString : Text) (u : ℤ)
    (hentry : entries (.day apLogFolder d_name)) :
    Accounts (perform sh) (PackedOrDropped sh entries folder)
      (archiveFolder apLogFolder timeString u d_name) := by
  refine accounts_call fun x s r t h => ⟨packedOrDropped_of_keeps trivial h, ?_⟩
  refine accounts_call fun x s r t h => ⟨packedOrDropped_of_keeps trivial h, ?_⟩
  refine accounts_call fun x s r t h => ⟨packedOrDropped_of_keeps trivial h, ?_⟩
  refine accounts_call fun x' s' r' t' h' => ⟨tar_accounted hentry h', ?_⟩
  refine accounts_call fun x s r t h => ⟨packedOrDropped_of_keeps trivial h, ?_⟩
  refine accounts_call fun x s r t h => ⟨packedOrDropped_of_keeps trivial h, ?_⟩
  refine accounts_call fun x s r t h => ⟨rm_accounted hentry ?_ h, ?_⟩
  · exact ⟨⟨_, r', s', t'⟩, by simp, rfl⟩
  refine accounts_call fun x s r t h => ⟨packedOrDropped_of_keeps trivial h, ?_⟩
  exact accounts_done ()

theorem makes_keeps_ReadLogInfo (origFilePath : Text) :
    (ReadLogInfo origFilePath).Makes Call.Keeps := by
  refine ⟨trivial, fun found => ?_⟩
  cases found with
  | none =>
    refine ⟨trivial, fun opened => ?_⟩
    cases opened
    · trivial
    · exact ⟨trivial, fun _ => ⟨trivial, fun _ => trivial⟩⟩
  | some size =>
    refine ⟨trivial, fun memory => ⟨trivial, fun opened => ?_⟩⟩
    cases opened
    · trivial
    · exact ⟨trivial, fun _ => ⟨trivial, fun _ => trivial⟩⟩

theorem makes_keeps_WriteLogInfo (origFilePath : Text) (logInfo : LogInfo) :
    (WriteLogInfo origFilePath logInfo).Makes Call.Keeps := by
  refine ⟨trivial, fun opened => ?_⟩
  cases opened
  · trivial
  · exact ⟨trivial, fun _ => ⟨trivial, fun _ => trivial⟩⟩

/-- Moving the file away removes a backup that is too many. -/
theorem accounts_rotate {folderPath d_name : Text} {l : Trace} {logInfo : LogInfo} {x : ℕ → Choice}
    {s : State} (hfolder : folder folderPath) (hneeds : needsCompress d_name = false)
    (hsize : ∃ size s t, (⟨.stat (folderPath ++ '/' :: d_name), some size, s, t⟩ :
      Event Call Call.Answer State) ∈ l ∧ DBG_LOG_SIZE_MAX < size)
    (hread : ((ReadLogInfo (folderPath ++ '/' :: d_name)).exec (perform sh) x s).value =
      some logInfo) :
    Accounts (perform sh) (fun l' => PackedOrDropped sh entries folder
        (l ++ ((ReadLogInfo (folderPath ++ '/' :: d_name)).exec (perform sh) x s).calls ++ l'))
      (rotate (folderPath ++ '/' :: d_name) logInfo) := by
  unfold rotate
  split_ifs with hcount
  · refine accounts_call fun x s r t h => ⟨packedOrDropped_of_keeps trivial h, ?_⟩
    exact accounts_makes (makes_keeps_WriteLogInfo _ _) fun _ _ _ _ _ _ => packedOrDropped_of_keeps
  · refine accounts_call fun y u r t h => ⟨?_, ?_⟩
    · rintro p ⟨hbefore, hafter, hrename⟩
      obtain ⟨-, hact⟩ := (perform_eq_some sh).mp h
      obtain rfl : (act sh _ y u).2 = t := congrArg Prod.snd hact
      rcases act_deletes hbefore hafter hrename with ⟨path, hc, hp⟩ | ⟨command, -, hc, -⟩
      · cases hc
        refine .inr ⟨folderPath, d_name, logInfo, hfolder, hneeds, rfl, hp, hcount, ?_, x, s, hread,
          ?_⟩
        · obtain ⟨size, s', t', hmem, hlarge⟩ := hsize
          exact ⟨size, s', t', by simp [hmem], hlarge⟩
        · simp
      · cases hc
    · refine accounts_call fun x s r t h => ⟨packedOrDropped_of_keeps trivial h, ?_⟩
      exact accounts_makes (makes_keeps_WriteLogInfo _ _) fun _ _ _ _ _ _ =>
        packedOrDropped_of_keeps

/-- A regular file of the folder. -/
theorem accounts_HandleFile {folderPath d_name : Text} (hfolder : folder folderPath)
    (hentry : needsCompress d_name = true → entries (.backup folderPath d_name)) :
    Accounts (perform sh) (PackedOrDropped sh entries folder) (HandleFile folderPath d_name) := by
  unfold HandleFile
  split_ifs with hneeds
  · exact accounts_compress (hentry hneeds)
  · simp only [get_file_size, request_bind]
    refine accounts_call fun x₁ s₁ size t₁ h₁ => ⟨packedOrDropped_of_keeps trivial h₁, ?_⟩
    refine accounts_bind (accounts_done _) fun b x s hb => ?_
    cases hb
    split_ifs with hlarge
    · refine accounts_call fun x₂ s₂ r₂ t₂ h₂ => ⟨packedOrDropped_of_keeps trivial h₂, ?_⟩
      rw [BackupLogFile]
      refine accounts_bind (accounts_makes (makes_keeps_ReadLogInfo _) fun _ _ _ _ _ _ =>
        packedOrDropped_of_keeps) fun logInfo y u hread => ?_
      have hsize : ∃ n s t, (⟨.stat (folderPath ++ '/' :: d_name), some n, s, t⟩ :
          Event Call Call.Answer State) ∈ [⟨.stat (folderPath ++ '/' :: d_name), size, s₁, t₁⟩,
            ⟨.write .logFd _, r₂, s₂, t₂⟩] ∧ DBG_LOG_SIZE_MAX < n := by
        cases size with
        | none => exact absurd hlarge (by decide)
        | some n => exact ⟨n, s₁, t₁, by simp, hlarge⟩
      exact accounts_rotate hfolder (by simpa using hneeds) hsize hread
    · exact accounts_done ()

theorem packedOrDropped_append (l l' : Trace) (e : Event Call Call.Answer State)
    (h : PackedOrDropped sh entries folder l' e) :
    PackedOrDropped sh entries folder (l ++ l') e := by
  intro p hp
  rcases h p hp with ⟨entry, hentry, hcommand, hwhole⟩ |
    ⟨folderPath, d_name, logInfo, hfolder, hneeds, hc, hpath, hcount, hsize, y, u, hread, hsuffix⟩
  · refine .inl ⟨entry, hentry, hcommand, fun h => ?_⟩
    obtain ⟨hrm, hprefix, e', hmem, htar⟩ := hwhole h
    exact ⟨hrm, hprefix, e', by simp [hmem], htar⟩
  · obtain ⟨size, s', t', hmem, hlarge⟩ := hsize
    exact .inr ⟨folderPath, d_name, logInfo, hfolder, hneeds, hc, hpath, hcount,
      ⟨size, s', t', by simp [hmem], hlarge⟩, y, u, hread, hsuffix.trans (List.suffix_append _ _)⟩

/-- The entries of a folder, one after the other. -/
theorem accounts_entries {folderPath : Text} {d_type : DType} {f : Name → Prog Unit}
    (names : List Name)
    (hf : ∀ d_name, Accounts (perform sh) (PackedOrDropped sh entries folder) (f d_name)) :
    Accounts (perform sh) (PackedOrDropped sh entries folder) (do
      each (fun d_name => do
        let r ← Sys.readdir folderPath d_name
        if r = some d_type then f d_name) names
      Sys.quiet) := by
  refine accounts_bind (accounts_each packedOrDropped_append (fun d_name => ?_) names)
    fun _ x s _ => ?_
  · refine accounts_call fun x s r t h => ⟨packedOrDropped_of_keeps trivial h, ?_⟩
    show Accounts (perform sh) _ (if r = some d_type then f d_name else pure ())
    split_ifs
    · exact (hf d_name).mono fun l => packedOrDropped_append [_] l
    · exact accounts_done ()
  · exact accounts_makes (.request trivial) fun _ _ _ _ _ _ => packedOrDropped_of_keeps

/-- The pass over the folder of a day. -/
theorem accounts_HandleCurrentApLogFolder {folderPath : Text} (hfolder : folder folderPath)
    (hentry : ∀ d_name, needsCompress d_name = true → entries (.backup folderPath d_name)) :
    Accounts (perform sh) (PackedOrDropped sh entries folder)
      (HandleCurrentApLogFolder folderPath) := by
  refine accounts_call fun x s names t h => ⟨packedOrDropped_of_keeps trivial h, ?_⟩
  cases names with
  | none => exact accounts_makes (.request trivial) fun _ _ _ _ _ _ => packedOrDropped_of_keeps
  | some names =>
    exact (accounts_entries names fun d_name => accounts_HandleFile hfolder (hentry d_name)).mono
      fun l => packedOrDropped_append [_] l

/-- The pass over the log directory. -/
theorem accounts_HandleOldLog {path : Text} {u : ℤ}
    (hfolder : ∀ d_name, ageing u d_name = .current → folder (path ++ APP_LOG_PATH ++ d_name))
    (hentry : ∀ entry : Entry, entry.Old path u → entries entry) :
    Accounts (perform sh) (PackedOrDropped sh entries folder) (HandleOldLog path u) := by
  have hday (d_name : Name) : Accounts (perform sh) (PackedOrDropped sh entries folder)
      (HandleDay (path ++ APP_LOG_PATH) (GetDebugLogPayload u) u d_name) := by
    unfold HandleDay
    cases hageing : ageing u d_name with
    | archive => exact accounts_archiveFolder _ u (hentry _ ⟨rfl, hageing⟩)
    | current =>
      exact accounts_HandleCurrentApLogFolder (hfolder d_name hageing) fun n hn =>
        hentry _ ⟨⟨d_name, rfl, hageing⟩, hn⟩
    | leave => exact accounts_done ()
  refine accounts_call fun x s names t h => ⟨packedOrDropped_of_keeps trivial h, ?_⟩
  cases names with
  | none =>
    exact accounts_makes ⟨trivial, fun _ => .request trivial⟩ fun _ _ _ _ _ _ =>
      packedOrDropped_of_keeps
  | some names =>
    exact (accounts_entries names hday).mono fun l => packedOrDropped_append [_] l

end Accounts

/-- Whatever fails, the passes delete an entry only after the command that packs it was run, and a
backup only when there are too many. -/
theorem deletions_packed_or_dropped (x : ℕ → Choice) (s : State) :
    (∀ path u, Accounted (PackedOrDropped sh (Entry.Old path u)
        fun folderPath => ∃ n, folderPath = path ++ APP_LOG_PATH ++ n ∧ ageing u n = .current)
      ((HandleOldLog path u).exec (perform sh) x s).calls) ∧
    ∀ folderPath, Accounted (PackedOrDropped sh (Entry.In folderPath) (· = folderPath))
      ((HandleCurrentApLogFolder folderPath).exec (perform sh) x s).calls := by
  refine ⟨fun path u => ?_, fun folderPath => ?_⟩
  · exact accounts_HandleOldLog (fun d_name h => ⟨d_name, rfl, h⟩) (fun _ h => h) x s
  · have hpass : Accounts (perform sh) (PackedOrDropped sh (Entry.In folderPath) (· = folderPath))
        (HandleCurrentApLogFolder folderPath) :=
      accounts_HandleCurrentApLogFolder rfl fun _ h => ⟨rfl, h⟩
    exact hpass x s

/-! ### What is deleted although it was not packed -/

/-- No command was run that succeeded as a whole. -/
def Unpacked : Event Call Call.Answer State → Bool
  | ⟨.system _, rans, _, _⟩ => rans.any fun ran => !ran.ok
  | _ => true

theorem not_packed {entry : Entry} {l : Trace} (h : l.all Unpacked = true) : ¬entry.Packed l := by
  rintro ⟨rans, s, t, hmem, -, hok⟩
  have hevent := List.all_eq_true.mp h _ hmem
  obtain ⟨ran, hran, hfails⟩ := List.any_eq_true.mp hevent
  simp [hok ran hran] at hfails

/-- The event number `k` deletes a path, and nothing was packed before. -/
def strays (calls : Trace) (k : ℕ) (p : Path) : Bool :=
  (calls.take k).all Unpacked && (calls[k]?).any fun e =>
    (e.before.disk.node p).isSome && (e.after.disk.node p).isNone && !e.call.isRename

theorem not_onlyPacked {entries : Entry → Prop} {calls : Trace} {k : ℕ} {p : Path}
    (h : strays calls k p = true) : ¬OnlyPacked entries calls := by
  rw [strays, Bool.and_eq_true] at h
  obtain ⟨hunpacked, hany⟩ := h
  cases he : calls[k]? with
  | none => simp [he] at hany
  | some e =>
    simp only [he, Option.any_some, Bool.and_eq_true, Option.isSome_iff_ne_none,
      Option.isNone_iff_eq_none, Bool.not_eq_true'] at hany
    refine not_accounted he fun hJ => ?_
    obtain ⟨entry, -, -, hpacked⟩ := hJ p ⟨hany.1.1, hany.1.2, hany.2⟩
    exact not_packed hunpacked hpacked

/-- A log that is too large, its counter at the limit and its oldest backup. -/
def largeDisk : Disk where
  cwd := []
  node p :=
    if p = ["tmp".toList] then some .dir
    else if p = ["tmp".toList, "a.txt".toList] then
      some (.file [.archive (DBG_LOG_SIZE_MAX + 1) fun _ => none])
    else if p = ["tmp".toList, "a.logInfo".toList] then
      some (.file (Item.ofText (LogInfo.bytes ⟨63, 0⟩)))
    else if p = ["tmp".toList, "a.txt-0".toList] then some (.file [])
    else none

/-- The folder of a day with a log. -/
def dayDisk : Disk where
  cwd := []
  node p :=
    if p = ["tmp".toList] ∨ p = ["tmp".toList, "APLog".toList] ∨
        p = ["tmp".toList, "APLog".toList, "2024-02-29".toList] then some .dir
    else if p = ["tmp".toList, "APLog".toList, "2024-02-29".toList, "a.txt".toList] then
      some (.file [])
    else none

/-- The listing has one name, and the command of one call fails. -/
def failsAt (d_name : Name) (failing : Option ℕ) (k : ℕ) : Choice where
  names := [d_name]
  tools := fun _ => { ok := some k ≠ failing }

/-- A rotation removes a plain backup, and a folder is removed although `tar` fails. -/
theorem unpacked_deleted :
    ¬OnlyPacked (Entry.In "/tmp".toList) ((HandleCurrentApLogFolder "/tmp".toList).exec
      (perform splitWords) (failsAt "a.txt".toList none) { disk := largeDisk }).calls ∧
    ¬OnlyPacked (Entry.Old "/tmp".toList 1709251200) ((HandleOldLog "/tmp".toList 1709251200).exec
      (perform splitWords) (failsAt "2024-02-29".toList (some 5)) { disk := dayDisk }).calls := by
  refine ⟨?_, ?_⟩
  · exact not_onlyPacked (k := 9) (p := ["tmp".toList, "a.txt-0".toList]) (by decide +kernel)
  · exact not_onlyPacked (k := 8) (p := ["tmp".toList, "APLog".toList, "2024-02-29".toList])
      (by decide +kernel)

end ConferenceCall.Log

import ConferenceCall.Log.Deletion

/-! Names that need no quotes in the shell, and a shell that splits a line of such words at its
blanks. The commands of the program quote nothing. -/

namespace ConferenceCall.Log

open Library Program

/-- The characters that have to be quoted. -/
def quoted : Text := " \t\n|&;<>()$`\\\"'*?[#~=%".toList

/-- A word that needs no quotes. -/
def Clean (w : Text) : Prop := ∀ c ∈ w, c ∉ quoted

instance (w : Text) : Decidable (Clean w) := List.decidableBAll (· ∉ quoted) w

/-- A line of words that need no quotes is one command with these words, also when a newline
follows. -/
def SplitsWords (sh : Text → List (List Text)) : Prop :=
  ∀ words : List Text, words ≠ [] → (∀ w ∈ words, w ≠ [] ∧ Clean w) →
    sh ([' '].intercalate words) = [words] ∧ sh ([' '].intercalate words ++ ['\n']) = [words]

variable {sh : Text → List (List Text)} {w w' apLogFolder folderPath : Text} {d_name : Name}

theorem clean_append : Clean (w ++ w') ↔ Clean w ∧ Clean w' := by
  simp only [Clean, List.mem_append, or_imp, forall_and]

theorem clean_cons {c : Char} : Clean (c :: w) ↔ c ∉ quoted ∧ Clean w := by
  simp only [Clean, List.mem_cons, forall_eq_or_imp]

theorem clean_nil : ∀ w ∈ ([] : List Text), w ≠ [] ∧ Clean w :=
  fun _ hw => absurd hw List.not_mem_nil

theorem clean_tgz (h : Clean w) : Clean (w ++ ".tgz".toList) :=
  clean_append.mpr ⟨h, by decide⟩

theorem clean_backupFilePath (h : Clean w) (i : ℤ) : Clean (backupFilePath w i) := by
  refine clean_append.mpr ⟨h, clean_cons.mpr ⟨by decide, fun c hc => ?_⟩⟩
  have hdigit (c : Char) (hc : c.isDigit = true) : c ∉ quoted := by
    intro hq
    have hnone : quoted.all (fun c => !c.isDigit) = true := by decide
    simpa [hc] using List.all_eq_true.mp hnone c hq
  rcases Decimal.mem_print hc with hc | rfl
  · exact hdigit c hc
  · decide

theorem clean_logInfoPath (h : Clean w) : Clean (logInfoPath w) := by
  obtain ⟨t, ht, hmem⟩ := logInfoPath_suffix w
  rw [ht]
  refine clean_append.mpr ⟨fun c hc => ?_, by decide⟩
  rcases hmem c hc with hc | rfl
  · exact h c hc
  · decide

section Texts

theorem tar_toList : "tar zcf ".toList = "tar".toList ++ ' ' :: ("zcf".toList ++ [' ']) := by decide

theorem rm_toList : "rm -rf ".toList = "rm".toList ++ ' ' :: ("-rf".toList ++ [' ']) := by decide

theorem base_toList : ".tgz -C ".toList = ".tgz".toList ++ ' ' :: ("-C".toList ++ [' ']) := by decide

theorem tgz_toList : ".tgz ".toList = ".tgz".toList ++ [' '] := by decide

theorem newline_toList : "\n".toList = ['\n'] := by decide

theorem clean_tar : "tar".toList ≠ [] ∧ Clean "tar".toList := by decide

theorem clean_zcf : "zcf".toList ≠ [] ∧ Clean "zcf".toList := by decide

theorem rmCommand_eq (path : Text) :
    rmCommand path = [' '].intercalate ["rm".toList, "-rf".toList, path] ++ ['\n'] := by
  unfold rmCommand
  rw [rm_toList, newline_toList]
  simp only [List.intercalate_cons_cons, List.intercalate_singleton]
  simp only [List.append_assoc, List.cons_append, List.nil_append]

theorem clean_rmWords (h : w ≠ [] ∧ Clean w) :
    ∀ w' ∈ ["rm".toList, "-rf".toList, w], w' ≠ [] ∧ Clean w' := by
  have hrm : "rm".toList ≠ [] ∧ Clean "rm".toList := by decide
  have hforce : "-rf".toList ≠ [] ∧ Clean "-rf".toList := by decide
  simp only [List.forall_mem_cons]
  exact ⟨hrm, hforce, h, clean_nil⟩

end Texts

/-- A command that is one line of words that need no quotes. -/
theorem SplitsWords.line (hsh : SplitsWords sh) {command : Text} {words : List Text}
    (hcommand : command = [' '].intercalate words ++ ['\n']) (hne : words ≠ [])
    (hwords : ∀ w ∈ words, w ≠ [] ∧ Clean w) : sh command = [words] := by
  rw [hcommand]
  exact (hsh words hne hwords).2

/-- The commands for a folder of clean names are taken as they are meant. -/
theorem whole_day (hsh : SplitsWords sh) (hfolder : Clean apLogFolder) (hne : apLogFolder ≠ [])
    (hname : Clean d_name) (hproper : d_name ≠ []) : (Entry.day apLogFolder d_name).Whole sh := by
  have hpath : apLogFolder ++ d_name ≠ [] ∧ Clean (apLogFolder ++ d_name) :=
    ⟨by simp [hne], clean_append.mpr ⟨hfolder, hname⟩⟩
  have htgz : apLogFolder ++ d_name ++ ".tgz".toList ≠ [] ∧
      Clean (apLogFolder ++ d_name ++ ".tgz".toList) := ⟨by simp [hne], clean_tgz hpath.2⟩
  refine ⟨hsh.line ?_ (by simp [Entry.tarWords]) ?_, hsh.line ?_ (by simp [Entry.rmWords]) ?_⟩
  · change tarFolderCommand apLogFolder d_name = [' '].intercalate ["tar".toList, "zcf".toList,
      apLogFolder ++ d_name ++ ".tgz".toList, "-C".toList, apLogFolder, d_name] ++ ['\n']
    unfold tarFolderCommand
    rw [tar_toList, base_toList, newline_toList]
    simp only [List.intercalate_cons_cons, List.intercalate_singleton]
    simp only [List.append_assoc, List.cons_append, List.nil_append]
  · simp only [Entry.tarWords, List.forall_mem_cons]
    have hbase : "-C".toList ≠ [] ∧ Clean "-C".toList := by decide
    exact ⟨clean_tar, clean_zcf, htgz, hbase, ⟨hne, hfolder⟩, ⟨hproper, hname⟩, clean_nil⟩
  · exact rmCommand_eq _
  · exact clean_rmWords hpath

theorem whole_backup (hsh : SplitsWords sh) (hfolder : Clean folderPath)
    (hname : Clean d_name) : (Entry.backup folderPath d_name).Whole sh := by
  have hpath : folderPath ++ '/' :: d_name ≠ [] ∧ Clean (folderPath ++ '/' :: d_name) :=
    ⟨by simp, clean_append.mpr ⟨hfolder, clean_cons.mpr ⟨by decide, hname⟩⟩⟩
  have htgz : folderPath ++ '/' :: d_name ++ ".tgz".toList ≠ [] ∧
      Clean (folderPath ++ '/' :: d_name ++ ".tgz".toList) := ⟨by simp, clean_tgz hpath.2⟩
  refine ⟨hsh.line ?_ (by simp [Entry.tarWords]) ?_, hsh.line ?_ (by simp [Entry.rmWords]) ?_⟩
  · change tarCommand (folderPath ++ '/' :: d_name) = [' '].intercalate ["tar".toList, "zcf".toList,
      folderPath ++ '/' :: d_name ++ ".tgz".toList, folderPath ++ '/' :: d_name] ++ ['\n']
    unfold tarCommand
    rw [tar_toList, tgz_toList, newline_toList]
    simp only [List.intercalate_cons_cons, List.intercalate_singleton]
    simp only [List.append_assoc, List.cons_append, List.nil_append]
  · simp only [Entry.tarWords, List.forall_mem_cons]
    exact ⟨clean_tar, clean_zcf, htgz, hpath, clean_nil⟩
  · exact rmCommand_eq _
  · exact clean_rmWords hpath

theorem not_mem_intercalate {c : Char} {sep : Text} {words : List Text} (hsep : c ∉ sep)
    (hwords : ∀ w ∈ words, c ∉ w) : c ∉ sep.intercalate words := by
  induction words with
  | nil => exact List.not_mem_nil
  | cons w words ih =>
    have hw : c ∉ w := hwords w List.mem_cons_self
    have hrest : c ∉ sep.intercalate words := ih fun w' hw' => hwords w' (List.mem_cons_of_mem w hw')
    cases words with
    | nil => simpa using hw
    | cons w' words => simp [List.intercalate_cons_cons, hw, hsep, hrest]

/-- The shell of the examples is one. -/
theorem splits_splitWords : SplitsWords splitWords := by
  intro words hne hwords
  have hblank : ' ' ∈ quoted := by decide
  have hnewline : '\n' ∈ quoted := by decide
  have hsplit : ([' '].intercalate words).splitOn ' ' = words :=
    List.splitOn_intercalate ' ' (fun w hw hmem => (hwords w hw).2 _ hmem hblank) hne
  have hline : ([' '].intercalate words).filter (· ≠ '\n') = [' '].intercalate words := by
    refine List.filter_eq_self.mpr fun c hc => decide_eq_true ?_
    rintro rfl
    exact not_mem_intercalate (by decide) (fun w hw hmem => (hwords w hw).2 _ hmem hnewline) hc
  constructor
  · rw [splitWords, hline, hsplit]
  · rw [splitWords, List.filter_append, hline]
    simp [hsplit]

end ConferenceCall.Log

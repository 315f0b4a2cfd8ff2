import ConferenceCall.Library.Paths
import ConferenceCall.Log.Clock

/-! The names the rotation of a log file makes from its path: the file of its counter and its
backups. -/

namespace ConferenceCall.Log

open Library

/-- `find_last_of`. -/
def findLastOf (c : Char) : Text → Option ℕ
  | [] => none
  | d :: s =>
    match findLastOf c s with
    | some n => some (n + 1)
    | none => if d = c then some 0 else none

def LOG_INFO_EXTENSION_NAME : Text := "logInfo".toList

/-- The path of the counter: the extension of the file name, if it has one, is replaced. -/
def logInfoPath (origFilePath : Text) : Text :=
  match findLastOf '.' origFilePath with
  | none => origFilePath ++ '.' :: LOG_INFO_EXTENSION_NAME
  | some pos =>
    if (findLastOf '/' origFilePath).any (pos < ·) then
      origFilePath ++ '.' :: LOG_INFO_EXTENSION_NAME
    else origFilePath.take (pos + 1) ++ LOG_INFO_EXTENSION_NAME

def backupFilePath (origFilePath : Text) (index : ℤ) : Text :=
  origFilePath ++ '-' :: Decimal.print 0 index

theorem findLastOf_eq_none {c : Char} {s : Text} : findLastOf c s = none ↔ c ∉ s := by
  induction s with
  | nil => simp [findLastOf]
  | cons d s ih =>
    rw [findLastOf]
    cases hs : findLastOf c s with
    | none =>
      have hn := ih.mp hs
      split_ifs with hd <;> simp_all [eq_comm]
    | some n =>
      have hn : c ∈ s := by
        by_contra hc
        simp [ih.mpr hc] at hs
      simp [hn]

theorem findLastOf_append (c : Char) (s t : Text) :
    findLastOf c (s ++ t) = ((findLastOf c t).map (s.length + ·)).or (findLastOf c s) := by
  induction s with
  | nil =>
    rw [List.nil_append]
    cases findLastOf c t <;> simp [findLastOf]
  | cons d s ih =>
    rw [List.cons_append, findLastOf, ih, findLastOf]
    cases findLastOf c t with
    | none => simp
    | some n => simp [Nat.add_right_comm]

theorem findLastOf_lt {c : Char} {s : Text} {n : ℕ} (h : findLastOf c s = some n) :
    n < s.length := by
  induction s generalizing n with
  | nil => simp [findLastOf] at h
  | cons d s ih =>
    rw [findLastOf] at h
    cases hs : findLastOf c s with
    | none =>
      simp only [hs, Option.ite_none_right_eq_some, Option.some.injEq] at h
      simp only [List.length_cons]
      omega
    | some m =>
      rw [hs] at h
      have hm := ih hs
      simp only [Option.some.injEq] at h
      simp only [List.length_cons]
      omega

variable {dir name : Text}

/-- The counter stands next to the file. -/
theorem logInfoPath_append (hd : Path.Folder dir) (hn : '/' ∉ name) :
    logInfoPath (dir ++ name) = dir ++ logInfoPath name := by
  have hslash : findLastOf '/' name = none := findLastOf_eq_none.mpr hn
  rw [logInfoPath, logInfoPath, findLastOf_append, findLastOf_append, hslash]
  cases hdot : findLastOf '.' name with
  | some pos =>
    have hany : (findLastOf '/' dir).any (dir.length + pos < ·) = false := by
      cases hs : findLastOf '/' dir with
      | none => rfl
      | some n =>
        have hn := findLastOf_lt hs
        simp only [Option.any_some, decide_eq_false_iff_not]
        omega
    have htake : dir.take (dir.length + (pos + 1)) = dir := List.take_of_length_le (by omega)
    simp [hany, List.take_append, Nat.add_assoc, htake]
  | none =>
    cases hd' : findLastOf '.' dir with
    | none => simp
    | some pos =>
      have hany : (findLastOf '/' dir).any (pos < ·) = true := by
        rcases hd with rfl | ⟨t, rfl⟩
        · simp [findLastOf] at hd'
        · have hpos : findLastOf '.' t = some pos := by simpa [findLastOf_append, findLastOf] using hd'
          have hlt := findLastOf_lt hpos
          simpa [findLastOf_append, findLastOf] using hlt
      simp [hany]

theorem logInfoPath_suffix (s : Text) :
    ∃ t, logInfoPath s = t ++ LOG_INFO_EXTENSION_NAME ∧ ∀ c ∈ t, c ∈ s ∨ c = '.' := by
  have hdot : ∀ c ∈ s ++ ['.'], c ∈ s ∨ c = '.' := by simp
  unfold logInfoPath
  split
  · exact ⟨s ++ ['.'], by simp, hdot⟩
  · next pos _ =>
    split
    · exact ⟨s ++ ['.'], by simp, hdot⟩
    · exact ⟨s.take (pos + 1), rfl, fun c hc => .inl (List.mem_of_mem_take hc)⟩

/-- A counter is no backup: the one ends with a letter, the other with a digit. -/
theorem logInfoPath_ne_backup (s t : Text) (i : ℤ) : logInfoPath s ≠ backupFilePath t i := by
  intro h
  obtain ⟨u, hu, -⟩ := logInfoPath_suffix s
  obtain ⟨v, c, hv, hc⟩ := Decimal.print_concat 0 i
  have hlast := congrArg List.getLast? h
  have ho : LOG_INFO_EXTENSION_NAME.getLast? = some 'o' := rfl
  rw [hu, backupFilePath, hv, List.getLast?_append, List.getLast?_append, ← List.cons_append,
    List.getLast?_concat, ho, Option.some_or, Option.some_or, Option.some.injEq] at hlast
  subst hlast
  exact absurd hc (by decide)

/-- Neither a counter nor a backup has the extension of an archive. -/
theorem ne_tgz {s : Text} (h : s.getLast? ≠ some 'z') (t : Text) : s ≠ t ++ ".tgz".toList := by
  rintro rfl
  exact h (by rw [List.getLast?_append]; rfl)

theorem logInfoPath_ne_tgz (s t : Text) : logInfoPath s ≠ t ++ ".tgz".toList := by
  obtain ⟨u, hu, -⟩ := logInfoPath_suffix s
  refine ne_tgz ?_ t
  have ho : LOG_INFO_EXTENSION_NAME.getLast? = some 'o' := rfl
  rw [hu, List.getLast?_append, ho, Option.some_or]
  decide

theorem backupFilePath_ne_tgz (s : Text) (i : ℤ) (t : Text) :
    backupFilePath s i ≠ t ++ ".tgz".toList := by
  obtain ⟨v, c, hv, hc⟩ := Decimal.print_concat 0 i
  refine ne_tgz ?_ t
  rw [backupFilePath, hv, ← List.cons_append, ← List.append_assoc, List.getLast?_concat]
  rintro ⟨⟩
  exact absurd hc (by decide)

theorem backupFilePath_append (dir name : Text) (index : ℤ) :
    backupFilePath (dir ++ name) index = dir ++ backupFilePath name index :=
  List.append_assoc ..

theorem backupFilePath_inj {name : Text} {i j : ℤ} :
    backupFilePath name i = backupFilePath name j ↔ i = j := by
  simp [backupFilePath, (Decimal.print_injective 0).eq_iff]

theorem backupFilePath_ne (name : Text) (i : ℤ) : backupFilePath name i ≠ name := by
  simp [backupFilePath]

theorem proper_of_length {n : Name} (h : 2 < n.length) (hslash : '/' ∉ n) : Path.Proper n := by
  refine ⟨?_, ?_, ?_, hslash⟩ <;> rintro rfl <;> simp at h

theorem proper_logInfoPath {n : Name} (h : Path.Proper n) : Path.Proper (logInfoPath n) := by
  obtain ⟨t, ht, hmem⟩ := logInfoPath_suffix n
  have hlen : LOG_INFO_EXTENSION_NAME.length = 7 := rfl
  rw [ht]
  refine proper_of_length (by rw [List.length_append]; omega) fun hs => ?_
  rcases List.mem_append.mp hs with hs | hs
  · exact (hmem _ hs).elim h.2.2.2 (by decide)
  · exact absurd hs (by decide)

theorem proper_backupFilePath {n : Name} (h : Path.Proper n) (i : ℤ) :
    Path.Proper (backupFilePath n i) := by
  have hne : n ≠ [] := h.1
  have hlen := List.length_pos_of_ne_nil hne
  obtain ⟨v, c, hv, -⟩ := Decimal.print_concat 0 i
  refine proper_of_length (by simp [backupFilePath, hv]; omega) fun hs => ?_
  rcases List.mem_append.mp hs with hs | hs
  · exact h.2.2.2 hs
  · simp [Decimal.print_ne_slash] at hs

/-- A log file: its path is that of a directory and a name in it. -/
structure LogFile where
  dir : Text
  name : Name
  folder : Path.Folder dir
  proper : Path.Proper name

namespace LogFile

variable (log : LogFile)

/-- The path of the file, as the program is given it. -/
def text : Text := log.dir ++ log.name

/-- A name next to the log file. -/
def path (cwd : Path) (n : Name) : Path := Path.resolve cwd log.dir ++ [n]

theorem path_inj {cwd : Path} {n n' : Name} : log.path cwd n = log.path cwd n' ↔ n = n' := by
  simp [path]

theorem path_ne_dir (cwd : Path) (n : Name) : Path.resolve cwd log.dir ≠ log.path cwd n := by
  simp [path]

theorem logInfoPath_text : logInfoPath log.text = log.dir ++ logInfoPath log.name :=
  logInfoPath_append log.folder log.proper.2.2.2

theorem backupFilePath_text (i : ℤ) :
    backupFilePath log.text i = log.dir ++ backupFilePath log.name i :=
  backupFilePath_append ..

end LogFile

end ConferenceCall.Log

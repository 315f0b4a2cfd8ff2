import ConferenceCall.Library.Tree
import ConferenceCall.Log.Archives
import ConferenceCall.Log.Deletion
import ConferenceCall.Log.Retained

/-! The archives in the folder of a day under any number of passes. A pass leaves an archive alone
unless it has grown too large, when it is rotated like a log, or a backup is packed to its name. -/

namespace ConferenceCall.Log

open Library Program

/-- A step of the system: a program writes to the logs, the log of the pass is opened, also again
after such a program, or the pass comes to an entry. -/
inductive PassMove
  | openLog (h : Option Handle)
  | log (p : Prog Unit) (x : ℕ → Choice)
  | visit (d_name : Name) (x : ℕ → Choice)

/-- The calls of the passes are recorded. -/
def passMove (sh : Text → List (List Text)) (folderPath : Text) :
    Step PassMove State (Event Call Call.Answer State)
  | .openLog h, s => (s.setOpen .logFd h, [])
  | .log p x, s => ((p.exec (perform sh) x s).state, [])
  | .visit d_name x, s =>
    let o := (visitFile folderPath d_name).exec (perform sh) x s
    (o.state, o.calls)

/-- The passes that spare the archives: their log is none, nothing is packed over one, and no file
that has grown too large is an archive or a backup. -/
def PassMove.Spares (sh : Text → List (List Text)) (folderPath : Text) : PassMove → State → Prop
  | .visit d_name _, s => (∀ f, ∀ h ∈ s.opened f, ¬IsArchive h.path) ∧ ∀ content,
    s.disk.lookup (folderPath ++ '/' :: d_name) = some (.file content) →
      if needsCompress d_name = true then
        ∀ command ∈ [tarCommand (folderPath ++ '/' :: d_name),
          rmCommand (folderPath ++ '/' :: d_name)], ∀ words ∈ sh command,
            (Command.ofWords words).Spares s.disk
      else DBG_LOG_SIZE_MAX < (content.map Item.size).sum →
        (∀ n, d_name ≠ n ++ ".tgz".toList) ∧
          ∀ t i, folderPath ++ '/' :: d_name ≠ backupFilePath t i
  | _, _ => True

variable {sh : Text → List (List Text)} {folderPath : Text} {d_name : Name} {s t : State}
  {d : Disk}

section Programs

/-- A rotation, given what is asked of the name. -/
theorem makes_rotation {P : Call → Prop} (log : LogFile)
    (hcounting : ∀ (Q : Text → Prop) (c : Call), log.Counting Q c → P c)
    (hrename : ∀ i, P (.rename log.text (backupFilePath log.text i)))
    (hunlink : ∀ i, P (.unlink (backupFilePath log.text i))) :
    (BackupLogFile log.text).Makes P := by
  rw [BackupLogFile]
  refine ((makes_ReadLogInfo log).mono (hcounting _)).bind fun logInfo =>
    makes_rotate logInfo hrename hunlink fun logInfo => ?_
  exact (makes_WriteLogInfo log logInfo).mono (hcounting _)

end Programs

section Visits

/-- A file of the folder as a log. -/
def folderLog (folderPath : Text) (d_name : Name) (h : Path.Proper d_name) : LogFile :=
  ⟨folderPath ++ ['/'], d_name, .inr ⟨folderPath, rfl⟩, h⟩

theorem folderLog_text (folderPath : Text) (d_name : Name) (h : Path.Proper d_name) :
    (folderLog folderPath d_name h).text = folderPath ++ '/' :: d_name :=
  List.append_assoc ..

/-- What is listed as a regular file is found under its name. -/
theorem readdir_reg {x : Choice} (hne : folderPath ≠ [])
    (h : (act sh (.readdir folderPath d_name) x s).1 = some .DT_REG) : Path.Proper d_name ∧
      ∃ content, s.disk.lookup (folderPath ++ '/' :: d_name) = some (.file content) := by
  have hproper : Path.Proper d_name := by
    by_contra hproper
    simp only [act, if_neg hproper] at h
    cases h
  simp only [act, if_pos hproper] at h
  obtain ⟨n, hn, hreg⟩ := Option.map_eq_some_iff.mp h
  cases n with
  | dir => cases hreg
  | file content =>
    have hdir : Path.resolve s.disk.cwd (folderPath ++ ['/']) = s.disk.path folderPath :=
      Path.resolve_concat hne s.disk.cwd
    have htext : s.disk.lookup (folderLog folderPath d_name hproper).text =
        s.disk.node ((folderLog folderPath d_name hproper).path s.disk.cwd d_name) :=
      LogFile.lookup_text hproper
    refine ⟨hproper, content, ?_⟩
    rw [← folderLog_text folderPath d_name hproper, htext, LogFile.path, folderLog, hdir]
    exact hn

end Visits

section Runs

variable {content : List Item}

variable (sh folderPath) in
/-- A loop over the entries is a run of visits, as far as it comes. -/
theorem each_moves (names : List Name) (x : ℕ → Choice) (s : State) :
    ∃ l : List PassMove, (∀ m ∈ l, ∃ d_name y, m = .visit d_name y) ∧
      ((each (visitFile folderPath) names).exec (perform sh) x s).state =
        ((passMove sh folderPath).run l s).1 ∧
      ((each (visitFile folderPath) names).exec (perform sh) x s).calls =
        ((passMove sh folderPath).run l s).2 := by
  induction names generalizing x s with
  | nil => exact ⟨[], by simp, rfl, rfl⟩
  | cons d_name names ih =>
    rw [each, exec_bind]
    cases hvalue : ((visitFile folderPath d_name).exec (perform sh) x s).value with
    | none =>
      refine ⟨[.visit d_name x], by simp, ?_⟩
      simp only [Outcome.andThen, hvalue, Step.run_cons, Step.run_nil, List.append_nil]
      exact ⟨rfl, rfl⟩
    | some a =>
      obtain ⟨l, hl, hstate, hcalls⟩ :=
        ih (fun n => x (n + ((visitFile folderPath d_name).exec (perform sh) x s).calls.length))
          ((visitFile folderPath d_name).exec (perform sh) x s).state
      refine ⟨.visit d_name x :: l, ?_, ?_⟩
      · simp only [List.mem_cons, forall_eq_or_imp]
        exact ⟨⟨d_name, x, rfl⟩, hl⟩
      · simp only [Outcome.andThen, hvalue, Outcome.after_state, Outcome.after_calls, hstate,
          hcalls, Step.run_cons]
        exact ⟨rfl, rfl⟩

end Runs

/-- The calls of a pass around its visits. -/
def Call.Surrounds : Call → Prop
  | .opendir _ | .quiet => True
  | .write f _ => f = .logFd
  | _ => False

variable (sh) in
/-- The last call of a pass changes nothing. -/
theorem exec_then_quiet (p : Prog Unit) (x : ℕ → Choice) (s : State) :
    ((p >>= fun _ => Sys.quiet).exec (perform sh) x s).state =
        (p.exec (perform sh) x s).state ∧
      ∃ last : Trace, (∀ e ∈ last, e.call.Surrounds) ∧
        ((p >>= fun _ => Sys.quiet).exec (perform sh) x s).calls =
          (p.exec (perform sh) x s).calls ++ last := by
  have hquiet (y : ℕ → Choice) (t : State) : (Sys.quiet.exec (perform sh) y t).state = t := by
    rw [Sys.quiet, request, exec_call]
    split_ifs <;> rfl
  have hsurrounds : Makes Call.Surrounds Sys.quiet := Makes.request trivial
  rw [exec_bind, Outcome.andThen]
  cases (p.exec (perform sh) x s).value with
  | none => exact ⟨rfl, [], by simp, (List.append_nil _).symm⟩
  | some a => exact ⟨hquiet _ _, _, hsurrounds.exec (perform sh) _ _, rfl⟩

/-- A pass is a run of visits, or a message that the folder cannot be opened; the visits make its
calls, but for those around them. -/
theorem pass_moves (sh : Text → List (List Text)) (folderPath : Text) (x : ℕ → Choice)
    (s : State) : ∃ (l : List PassMove) (first last : Trace),
      (∀ m ∈ l, (∃ text y, m = .log (do let _ ← Sys.write .logFd text) y) ∨
        ∃ d_name y, m = .visit d_name y) ∧
      (∀ e ∈ first ++ last, e.call.Surrounds) ∧
      ((HandleCurrentApLogFolder folderPath).exec (perform sh) x s).state =
        ((passMove sh folderPath).run l s).1 ∧
      ((HandleCurrentApLogFolder folderPath).exec (perform sh) x s).calls =
        first ++ ((passMove sh folderPath).run l s).2 ++ last := by
  rw [HandleCurrentApLogFolder, request_bind, exec_call]
  by_cases hstops : (x 0).fate = .stops
  · rw [if_pos hstops]
    exact ⟨[], [], [], by simp, by simp, rfl, rfl⟩
  rw [if_neg hstops, Outcome.after_state, Outcome.after_calls]
  have hsame : (act sh (.opendir folderPath) (x 0) s).2 = s := rfl
  rw [hsame]
  cases hnames : (act sh (.opendir folderPath) (x 0) s).1 with
  | none =>
    have hwrite : Makes Call.Surrounds (do
        let _ ← Sys.write .logFd ("Failed to open ".toList ++ folderPath ++ "\n".toList)) :=
      ⟨rfl, fun _ => trivial⟩
    refine ⟨[.log _ fun n => x (n + 1)], [event sh (.opendir folderPath) (x 0) s], _, ?_, ?_, rfl,
      rfl⟩
    · exact fun m hm => .inl ⟨_, _, List.mem_singleton.mp hm⟩
    · intro e he
      rcases List.mem_append.mp he with he | he
      · rw [List.mem_singleton.mp he]
        trivial
      · exact hwrite.exec (perform sh) _ _ e he
  | some names =>
    obtain ⟨l, hl, hstate, hcalls⟩ := each_moves sh folderPath names (fun n => x (n + 1)) s
    obtain ⟨hquiet, last, hlast, hend⟩ :=
      exec_then_quiet sh (each (visitFile folderPath) names) (fun n => x (n + 1)) s
    refine ⟨l, [event sh (.opendir folderPath) (x 0) s], last, fun m hm => .inr (hl m hm), ?_,
      hquiet.trans hstate, ?_⟩
    · intro e he
      rcases List.mem_append.mp he with he | he
      · rw [List.mem_singleton.mp he]
        trivial
      · exact hlast e he
    · rw [List.append_assoc, ← hcalls]
      exact congrArg _ hend

end ConferenceCall.Log

import ConferenceCall.Library.Loop
import ConferenceCall.Log.Callers
import ConferenceCall.Log.Footprint
import ConferenceCall.Log.Interrupted
import ConferenceCall.Log.Mkdirs
import ConferenceCall.Log.Reading

/-! The loop of `dbg_log`. It rotates the file while it is too large and runs `touch` while it is
not there, and looks at no result of these, so that it ends when they have worked. -/

namespace ConferenceCall.Log

open Library Program

/-- The part of a round that does not write: whether the file is ready, or else what is done about
it. -/
def prepare (filePath : Text) : Prog Bool := do
  let there ← Sys.access filePath
  if there then
    let size ← get_file_size filePath
    if DBG_LOG_SIZE_MAX < size then
      BackupLogFile filePath
      return false
    else
      return true
  else
    let _ ← Sys.system ("touch ".toList ++ filePath)
    return false

/-- The part that writes. -/
def writeOut (dbgStr filePath : Text) : Prog ℤ := do
  let opened ← Sys.openFile .logFd filePath true true
  if !opened then return -1
  let (t, _) ← Sys.gettimeofday
  let _ ← Sys.write .logFd (make_log_with_time t dbgStr)
  Sys.close .logFd
  return 0

/-- The file is there and not too large. -/
def Ready (filePath : Text) (dirSize : ℕ) (s : State) : Prop :=
  ∃ n, s.disk.lookup filePath = some n ∧ statSize dirSize n ≤ DBG_LOG_SIZE_MAX

/-- The file cannot be opened, or takes the whole message. -/
def Takes (dbgStr : Text) (x : ℕ → Choice) : Prop :=
  (x 0).fate ≠ .fails →
    (x 2).fate.moved (make_log_with_time (x 1).now dbgStr) = make_log_with_time (x 1).now dbgStr

/-- The same of a path that may also be that of a directory, which is never opened. -/
def Whole (dbgStr filePath : Text) (x : ℕ → Choice) (s : State) : Prop :=
  ∀ content, s.disk.lookup filePath = some (.file content) → Takes dbgStr x

/-- The file is there and too large. -/
def TooLarge (filePath : Text) (dirSize : ℕ) (s : State) : Prop :=
  ∃ n, s.disk.lookup filePath = some n ∧ DBG_LOG_SIZE_MAX < statSize dirSize n

/-- What a run of `touch` leaves. -/
def touching (sh : Text → List (List Text)) (filePath : Text) (x : Choice) (s : State) : State :=
  (act sh (.system ("touch ".toList ++ filePath)) x s).2

/-- A rotation; two calls of the round come before it. -/
def rotating (sh : Text → List (List Text)) (filePath : Text) (x : ℕ → Choice) (s : State) :
    Outcome State (Event Call Call.Answer State) Unit :=
  (BackupLogFile filePath).exec (perform sh) (fun n => x (n + 2)) s

/-- The choices behind a rotation. -/
def later (sh : Text → List (List Text)) (filePath : Text) (x : ℕ → Choice) (s : State) :
    ℕ → Choice :=
  rest (rotating sh filePath x s) fun n => x (n + 2)

/-- A call of `rename` moves the file. -/
def Renames (filePath : Text) (l : Trace) : Prop :=
  ∃ new s t, (⟨.rename filePath new, true, s, t⟩ : Event Call Call.Answer State) ∈ l

/-- While the file is missing, `touch` makes it, after any number of runs that do not. -/
inductive Made (sh : Text → List (List Text)) (filePath : Text) :
    (ℕ → Choice) → State → (ℕ → Choice) → State → Prop
  | works {x : ℕ → Choice} {s : State} (hmissing : s.disk.lookup filePath = none)
      (hmakes : (touching sh filePath (x 1) s).disk.lookup filePath ≠ none) :
      Made sh filePath x s (fun n => x (n + 2)) (touching sh filePath (x 1) s)
  | fails {x y : ℕ → Choice} {s t : State} (hmissing : s.disk.lookup filePath = none)
      (hrest : Made sh filePath (fun n => x (n + 2)) (touching sh filePath (x 1) s) y t) :
      Made sh filePath x s y t

/-- While the file is too large, `rename` moves it, after any number of calls that do not. -/
inductive Moved (sh : Text → List (List Text)) (filePath : Text) :
    (ℕ → Choice) → State → (ℕ → Choice) → State → Prop
  | works {x : ℕ → Choice} {s : State} (hlarge : TooLarge filePath (x 1).dirSize s)
      (hmoves : Renames filePath (rotating sh filePath x s).calls) :
      Moved sh filePath x s (later sh filePath x s) (rotating sh filePath x s).state
  | fails {x y : ℕ → Choice} {s t : State} (hlarge : TooLarge filePath (x 1).dirSize s)
      (hrest : Moved sh filePath (later sh filePath x s) (rotating sh filePath x s).state y t) :
      Moved sh filePath x s y t

/-- The rotation that is not about moving a file: of a directory, or of the counter itself. -/
def Odd (filePath : Text) (s : State) : Prop :=
  s.disk.lookup filePath = some .dir ∨ s.disk.path (logInfoPath filePath) = s.disk.path filePath

/-- What `rename` and `touch` have to do: a file that is too large is moved, a file that is missing
is made. A file that is ready then takes the whole message, or cannot be opened. -/
inductive Settles (sh : Text → List (List Text)) (dbgStr filePath : Text) :
    (ℕ → Choice) → State → Prop
  | ready {x : ℕ → Choice} {s : State} (hready : Ready filePath (x 1).dirSize s)
      (hwhole : Whole dbgStr filePath (fun n => x (n + 2)) s) : Settles sh dbgStr filePath x s
  | made {x y : ℕ → Choice} {s t : State} (hmade : Made sh filePath x s y t)
      (hrest : Settles sh dbgStr filePath y t) : Settles sh dbgStr filePath x s
  | moved {x y : ℕ → Choice} {s t : State} (hmoved : Moved sh filePath x s y t)
      (hrest : Settles sh dbgStr filePath y t) : Settles sh dbgStr filePath x s
  | odd {x : ℕ → Choice} {s : State} (hodd : Odd filePath s)
      (hlarge : TooLarge filePath (x 1).dirSize s)
      (hrest : Settles sh dbgStr filePath (later sh filePath x s)
        (rotating sh filePath x s).state) : Settles sh dbgStr filePath x s

/-- The stamped message is appended to the file. -/
def Appends (dbgStr filePath : Text) (e : Event Call Call.Answer State) : Prop :=
  ∃ time content, e.call = .write .logFd (make_log_with_time time dbgStr) ∧
    e.before.disk.lookup filePath = some (.file content) ∧
    e.after.disk.lookup filePath =
      some (.file (content ++ Item.ofText (make_log_with_time time dbgStr)))

/-- A result the caller can rely on: a negative one, or 0 with the message in the file. -/
def Reports (dbgStr filePath : Text)
    (o : Outcome State (Event Call Call.Answer State) (Option ℤ)) : Prop :=
  ∃ result, o.value = some (some result) ∧
    (result < 0 ∨ result = 0 ∧ ∃ e ∈ o.calls, Appends dbgStr filePath e)

variable {sh : Text → List (List Text)} {dbgStr filePath : Text} {x y : ℕ → Choice} {s t : State}
  {n : ℕ}

variable (dbgStr filePath) in
theorem dbg_log_eq (n : ℕ) :
    dbg_log dbgStr filePath n = loop (dbg_log_round dbgStr filePath) n := by
  induction n with
  | zero => rfl
  | succ n ih =>
    rw [dbg_log, loop, ih]
    refine congrArg _ (funext fun result => ?_)
    cases result <;> rfl

variable (dbgStr filePath) in
theorem dbg_log_round_prepare : dbg_log_round dbgStr filePath = (do
    if ← prepare filePath then return some (← writeOut dbgStr filePath) else return none) := by
  have hthen (p : Prog Unit) (f : Bool → Prog (Option ℤ)) (hf : f false = pure none) :
      (p >>= fun _ => pure none) = (p >>= fun _ => pure false) >>= f := by
    rw [Program.bind_assoc, ← hf]
    rfl
  simp only [dbg_log_round, prepare, writeOut, get_file_size, request_bind, call_bind,
    Program.pure_bind]
  refine call_congr fun there => ?_
  cases there with
  | false => rfl
  | true =>
    refine call_congr fun size => ?_
    by_cases hlarge : DBG_LOG_SIZE_MAX < size.getD 0
    · simp only [if_pos hlarge]
      exact hthen (BackupLogFile filePath) _ rfl
    · simp only [if_neg hlarge]
      refine call_congr fun opened => ?_
      cases opened <;> rfl

section Prepare

/-- Calls that do not write to the file. -/
def Call.Prepares : Call → Prop
  | .write f _ => f = .fd
  | _ => True

theorem makes_prepares_BackupLogFile (filePath : Text) :
    (BackupLogFile filePath).Makes Call.Prepares := by
  refine (rotates_BackupLogFile filePath).mono fun c hc => ?_
  cases c with
  | write f _ => exact hc
  | _ => trivial

theorem makes_prepares (filePath : Text) : (prepare filePath).Makes Call.Prepares := by
  simp only [prepare, get_file_size, request_bind, call_bind, Program.pure_bind]
  refine ⟨trivial, fun there => ?_⟩
  cases there with
  | false => exact ⟨trivial, fun _ => trivial⟩
  | true =>
    refine ⟨trivial, fun size => ?_⟩
    dsimp only
    split_ifs
    · exact (makes_prepares_BackupLogFile filePath).bind fun _ => trivial
    · trivial

variable (sh s) in
/-- A program that is not stopped comes to its end. -/
theorem value_ne_none {α : Type} (p : Prog α) (hx : ∀ n, (x n).fate ≠ .stops) :
    ∃ a, (p.exec (perform sh) x s).value = some a := by
  induction p generalizing x s with
  | done a => exact ⟨a, rfl⟩
  | call c next ih =>
    rw [exec_call, if_neg (hx 0)]
    exact ih _ _ fun n => hx (n + 1)

variable (sh) in
/-- A file that is too large is rotated. -/
theorem prepare_large (hx : ∀ n, (x n).fate ≠ .stops) (h : TooLarge filePath (x 1).dirSize s) :
    (prepare filePath).exec (perform sh) x s = ⟨some false, (rotating sh filePath x s).state,
      [event sh (.access filePath) (x 0) s, event sh (.stat filePath) (x 1) s] ++
        (rotating sh filePath x s).calls⟩ := by
  obtain ⟨n, hn, hlarge⟩ := h
  have haccess : act sh (.access filePath) (x 0) s = (true, s) := by
    rw [act, hn]
    rfl
  have hstat : act sh (.stat filePath) (x 1) s = (some (statSize (x 1).dirSize n), s) := by
    rw [act, hn]
    rfl
  obtain ⟨a, ha⟩ := value_ne_none sh s (BackupLogFile filePath) fun n => hx (n + 1 + 1)
  simp only [prepare, get_file_size, request_bind, call_bind, Program.pure_bind]
  rw [exec_call, if_neg (hx 0), haccess]
  simp only [if_true]
  rw [exec_call, if_neg (hx 1), hstat]
  simp only [Option.getD_some, if_pos hlarge]
  rw [exec_bind, rotating]
  generalize (BackupLogFile filePath).exec (perform sh) (fun n => x (n + 1 + 1)) s = o at ha ⊢
  obtain ⟨value, t, l⟩ := o
  cases ha
  change Outcome.mk _ t (_ :: _ :: (l ++ [])) = _
  rw [List.append_nil]
  rfl

variable (sh) in
/-- For a file that is missing `touch` is run. -/
theorem prepare_missing (hx : ∀ n, (x n).fate ≠ .stops) (h : s.disk.lookup filePath = none) :
    (prepare filePath).exec (perform sh) x s = ⟨some false, touching sh filePath (x 1) s,
      [event sh (.access filePath) (x 0) s,
        event sh (.system ("touch ".toList ++ filePath)) (x 1) s]⟩ := by
  have haccess : act sh (.access filePath) (x 0) s = (false, s) := by
    rw [act, h]
    rfl
  simp only [prepare, request_bind]
  rw [exec_call, if_neg (hx 0), haccess]
  simp only [Bool.false_eq_true, if_false]
  rw [exec_call, if_neg (hx 1)]
  rfl

theorem missing_or_large (h : ¬Ready filePath n s) :
    s.disk.lookup filePath = none ∨ TooLarge filePath n s := by
  cases hnode : s.disk.lookup filePath with
  | none => exact .inl rfl
  | some node => exact .inr ⟨node, hnode, Nat.lt_of_not_le fun hsize => h ⟨node, hnode, hsize⟩⟩

variable (sh) in
/-- A file that is not ready is rotated, or `touch` is run. -/
theorem prepare_not_ready (hx : ∀ n, (x n).fate ≠ .stops) (h : ¬Ready filePath (x 1).dirSize s) :
    ((prepare filePath).exec (perform sh) x s).value = some false := by
  rcases missing_or_large h with hmissing | hlarge
  · rw [prepare_missing sh hx hmissing]
  · rw [prepare_large sh hx hlarge]

end Prepare

section WriteOut

end WriteOut

section Rounds

variable (sh dbgStr) in
/-- A round without the file being ready has no result. -/
theorem round_not_ready (hx : ∀ n, (x n).fate ≠ .stops) (h : ¬Ready filePath (x 1).dirSize s) :
    ((dbg_log_round dbgStr filePath).exec (perform sh) x s).value = some none ∧
      ((dbg_log_round dbgStr filePath).exec (perform sh) x s).state =
        ((prepare filePath).exec (perform sh) x s).state ∧
      ((dbg_log_round dbgStr filePath).exec (perform sh) x s).calls =
        ((prepare filePath).exec (perform sh) x s).calls := by
  have hvalue := prepare_not_ready sh hx h
  rw [dbg_log_round_prepare, exec_bind]
  generalize (prepare filePath).exec (perform sh) x s = o at hvalue
  obtain ⟨value, t, l⟩ := o
  cases hvalue
  exact ⟨rfl, rfl, List.append_nil l⟩

end Rounds

section Loop

theorem reports_after {o : Outcome State (Event Call Call.Answer State) (Option ℤ)} {l : Trace}
    (hl : ∀ e ∈ l, Call.Prepares e.call) :
    Reports dbgStr filePath (o.after l) ↔ Reports dbgStr filePath o := by
  constructor
  · rintro ⟨result, hvalue, hreport⟩
    refine ⟨result, hvalue, hreport.imp_right (And.imp_right ?_)⟩
    rintro ⟨e, he, happends⟩
    refine ⟨e, (List.mem_append.mp he).resolve_left fun he => ?_, happends⟩
    obtain ⟨_, _, hcall, -⟩ := happends
    have hprepares := hl e he
    rw [hcall] at hprepares
    cases hprepares
  · rintro ⟨result, hvalue, hreport⟩
    refine ⟨result, hvalue, hreport.imp_right (And.imp_right ?_)⟩
    rintro ⟨e, he, happends⟩
    exact ⟨e, List.mem_append_right _ he, happends⟩

/-- The loop after a round without the file being ready. -/
theorem dbg_log_later (hx : ∀ n, (x n).fate ≠ .stops) (h : ¬Ready filePath (x 1).dirSize s)
    (n : ℕ) : (dbg_log dbgStr filePath (n + 1)).exec (perform sh) x s =
      ((dbg_log dbgStr filePath n).exec (perform sh)
        (rest ((prepare filePath).exec (perform sh) x s) x)
        ((prepare filePath).exec (perform sh) x s).state).after
          ((prepare filePath).exec (perform sh) x s).calls := by
  obtain ⟨hvalue, hstate, hcalls⟩ := round_not_ready sh dbgStr hx h
  have hrest : rest ((dbg_log_round dbgStr filePath).exec (perform sh) x s) x =
      rest ((prepare filePath).exec (perform sh) x s) x := by
    funext k
    rw [rest, rest, hcalls]
  rw [dbg_log_eq, dbg_log_eq, loop_next hvalue, hrest, hstate, hcalls]

theorem reports_later (hx : ∀ n, (x n).fate ≠ .stops) (h : ¬Ready filePath (x 1).dirSize s) :
    (∃ n, Reports dbgStr filePath ((dbg_log dbgStr filePath n).exec (perform sh) x s)) ↔
      ∃ n, Reports dbgStr filePath ((dbg_log dbgStr filePath n).exec (perform sh)
        (rest ((prepare filePath).exec (perform sh) x s) x)
        ((prepare filePath).exec (perform sh) x s).state) := by
  have hcalls := (makes_prepares filePath).exec (perform sh) x s
  constructor
  · rintro ⟨_ | n, hn⟩
    · obtain ⟨result, hvalue, -⟩ := hn
      cases hvalue
    · rw [dbg_log_later hx h] at hn
      exact ⟨n, (reports_after hcalls).mp hn⟩
  · rintro ⟨n, hn⟩
    refine ⟨n + 1, ?_⟩
    rw [dbg_log_later hx h]
    exact (reports_after hcalls).mpr hn

/-- After a run of `touch` the loop starts over. -/
theorem reports_missing (hx : ∀ n, (x n).fate ≠ .stops) (h : s.disk.lookup filePath = none) :
    (∃ n, Reports dbgStr filePath ((dbg_log dbgStr filePath n).exec (perform sh) x s)) ↔
      ∃ n, Reports dbgStr filePath ((dbg_log dbgStr filePath n).exec (perform sh)
        (fun n => x (n + 2)) (touching sh filePath (x 1) s)) := by
  have hready : ¬Ready filePath (x 1).dirSize s := by
    rintro ⟨n, hn, -⟩
    rw [h] at hn
    cases hn
  rw [reports_later hx hready, prepare_missing sh hx h]
  rfl

theorem rest_large (hx : ∀ n, (x n).fate ≠ .stops) (h : TooLarge filePath (x 1).dirSize s) :
    rest ((prepare filePath).exec (perform sh) x s) x = later sh filePath x s := by
  funext n
  rw [prepare_large sh hx h, later, rest, rest, List.length_append]
  refine congrArg x ?_
  simp only [List.length_cons, List.length_nil]
  omega

/-- After a rotation the loop starts over. -/
theorem reports_large (hx : ∀ n, (x n).fate ≠ .stops) (h : TooLarge filePath (x 1).dirSize s) :
    (∃ n, Reports dbgStr filePath ((dbg_log dbgStr filePath n).exec (perform sh) x s)) ↔
      ∃ n, Reports dbgStr filePath ((dbg_log dbgStr filePath n).exec (perform sh)
        (later sh filePath x s) (rotating sh filePath x s).state) := by
  have hready : ¬Ready filePath (x 1).dirSize s := by
    rintro ⟨n, hn, hsmall⟩
    obtain ⟨n', hn', hlarge⟩ := h
    cases hn.symm.trans hn'
    exact absurd hlarge (Nat.not_lt.mpr hsmall)
  rw [reports_later hx hready, rest_large hx h, prepare_large sh hx h]

end Loop

section Environment

theorem Made.reports (h : Made sh filePath x s y t) (hx : ∀ n, (x n).fate ≠ .stops) :
    (∃ n, Reports dbgStr filePath ((dbg_log dbgStr filePath n).exec (perform sh) x s)) ↔
      ∃ n, Reports dbgStr filePath ((dbg_log dbgStr filePath n).exec (perform sh) y t) := by
  induction h with
  | works hmissing => exact reports_missing hx hmissing
  | fails hmissing hrest ih => exact (reports_missing hx hmissing).trans (ih fun n => hx (n + 2))

theorem Moved.reports (h : Moved sh filePath x s y t) (hx : ∀ n, (x n).fate ≠ .stops) :
    (∃ n, Reports dbgStr filePath ((dbg_log dbgStr filePath n).exec (perform sh) x s)) ↔
      ∃ n, Reports dbgStr filePath ((dbg_log dbgStr filePath n).exec (perform sh) y t) := by
  induction h with
  | works hlarge => exact reports_large hx hlarge
  | fails hlarge hrest ih => exact (reports_large hx hlarge).trans (ih fun n => hx _)

/-- A file that is made is missing. -/
theorem Made.missing (h : Made sh filePath x s y t) : s.disk.lookup filePath = none := by
  cases h with
  | works hmissing => exact hmissing
  | fails hmissing => exact hmissing

theorem Moved.large (h : Moved sh filePath x s y t) : TooLarge filePath (x 1).dirSize s := by
  cases h with
  | works hlarge => exact hlarge
  | fails hlarge => exact hlarge

theorem TooLarge.not_missing (h : TooLarge filePath n s) : s.disk.lookup filePath ≠ none := by
  obtain ⟨node, hnode, -⟩ := h
  rw [hnode]
  simp

/-- A run of `touch` before what the environment does then. -/
theorem Settles.touch (hmissing : s.disk.lookup filePath = none)
    (h : Settles sh dbgStr filePath (fun n => x (n + 2)) (touching sh filePath (x 1) s)) :
    Settles sh dbgStr filePath x s := by
  by_cases hmakes : (touching sh filePath (x 1) s).disk.lookup filePath = none
  · cases h with
    | ready hready =>
      obtain ⟨n, hn, -⟩ := hready
      rw [hmakes] at hn
      cases hn
    | made hmade hrest => exact .made (.fails hmissing hmade) hrest
    | moved hmoved => exact absurd hmakes hmoved.large.not_missing
    | odd _ hlarge => exact absurd hmakes hlarge.not_missing
  · exact .made (.works hmissing hmakes) h

/-- The backup of a path lies elsewhere. -/
theorem path_backup_ne (d : Disk) (filePath : Text) (i : ℤ) :
    d.path (backupFilePath filePath i) ≠ d.path filePath := by
  obtain ⟨dir, n, rfl, hfolder, hn⟩ := exists_folder filePath
  have hdash : '-' ∈ backupFilePath n i := by simp [backupFilePath]
  have hproper : Path.Proper (backupFilePath n i) := by
    refine ⟨?_, ?_, ?_, ?_⟩
    · simp [backupFilePath]
    · exact fun h => absurd (h ▸ hdash) (by decide)
    · exact fun h => absurd (h ▸ hdash) (by decide)
    · intro h
      rcases List.mem_append.mp h with h | h
      · exact hn h
      · simp [Decimal.print_ne_slash] at h
  have hpath : d.path (backupFilePath (dir ++ n) i) =
      Path.resolve d.cwd dir ++ [backupFilePath n i] := by
    rw [backupFilePath_append]
    exact Path.resolve_proper d.cwd hfolder hproper
  have hself : d.path (dir ++ n) = _ := Path.resolve_folder d.cwd hfolder hn
  rw [hpath, hself]
  intro h
  have hlength := congrArg List.length h
  rcases Path.descend_cases (Path.resolve d.cwd dir) n with hstay | hup | hdown
  · rw [hstay, List.length_append, List.length_singleton] at hlength
    omega
  · rw [hup, List.length_append, List.length_dropLast, List.length_singleton] at hlength
    omega
  · rw [hdown, List.append_cancel_left_eq, List.singleton_inj] at h
    simp [backupFilePath] at h

theorem not_renames_after {l l' : Trace} (h : ¬Renames filePath (l ++ l')) : ¬Renames filePath l' :=
  fun ⟨new, u, v, hmem⟩ => h ⟨new, u, v, List.mem_append_right l hmem⟩

variable (sh) in
theorem sameOn_rename {logInfo : LogInfo} {new : Text} {p : Path}
    (hinfo : s.disk.path (logInfoPath filePath) ≠ p)
    (hstays : ¬Renames filePath ((Program.call (.rename filePath new) fun _ =>
      WriteLogInfo filePath logInfo).exec (perform sh) x s).calls) :
    SameOn (fun q => ¬q ≠ p) s.disk ((Program.call (.rename filePath new) fun _ =>
      WriteLogInfo filePath logInfo).exec (perform sh) x s).state.disk := by
  rw [exec_call] at hstays ⊢
  split_ifs at hstays ⊢
  · exact .refl _ _
  rcases act_rename_cases sh (x 0) s filePath new with hact | ⟨content, -, -, hact⟩
  · rw [Outcome.after_state, hact]
    exact sameOn_WriteLogInfo sh (B := (· ≠ p)) hinfo logInfo fun n => x (n + 1)
  · refine absurd ⟨new, s, s.move (s.disk.path filePath) (s.disk.path new), ?_⟩ hstays
    rw [Outcome.after_calls]
    refine List.mem_append_left _ (List.mem_singleton.mpr ?_)
    rw [event, hact]

variable (sh) in
theorem sameOn_rotate {logInfo : LogInfo} {p : Path}
    (hinfo : s.disk.path (logInfoPath filePath) ≠ p)
    (hbackup : ∀ i, s.disk.path (backupFilePath filePath i) ≠ p)
    (hstays : ¬Renames filePath ((rotate filePath logInfo).exec (perform sh) x s).calls) :
    SameOn (fun q => ¬q ≠ p) s.disk
      ((rotate filePath logInfo).exec (perform sh) x s).state.disk := by
  rw [rotate] at hstays ⊢
  split_ifs at hstays ⊢
  · exact sameOn_rename sh hinfo hstays
  · simp only [request_bind] at hstays ⊢
    rw [exec_call] at hstays ⊢
    split_ifs at hstays ⊢
    · exact .refl _ _
    rw [Outcome.after_calls] at hstays
    have hunlinked : SameOn (fun q => ¬q ≠ p) s.disk (act sh
        (.unlink (backupFilePath filePath logInfo.oldestIndex)) (x 0) s).2.disk := by
      rcases act_unlink_cases sh (x 0) s (backupFilePath filePath logInfo.oldestIndex) with
        hact | ⟨content, hl, hact⟩ <;> rw [hact]
      · exact .refl _ _
      · refine .put_other (not_not.mpr (hbackup _)) ?_ (by simp)
        rw [Disk.node_of_lookup hl]
        simp
    refine hunlinked.trans (sameOn_rename sh ?_ (not_renames_after hstays))
    rw [hunlinked.path]
    exact hinfo

/-- A rotation that does not move the file leaves it there. -/
theorem rotating_not_renames
    (hinfo : s.disk.path (logInfoPath filePath) ≠ s.disk.path filePath)
    (hstays : ¬Renames filePath (rotating sh filePath x s).calls) :
    SameOn (fun q => ¬q ≠ s.disk.path filePath) s.disk (rotating sh filePath x s).state.disk := by
  have hread := sameOn_ReadLogInfo sh (B := (· ≠ s.disk.path filePath)) hinfo fun n => x (n + 2)
  rw [rotating, BackupLogFile, exec_bind] at hstays ⊢
  generalize (ReadLogInfo filePath).exec (perform sh) (fun n => x (n + 2)) s = o at hread hstays ⊢
  obtain ⟨value, t, l⟩ := o
  cases value with
  | none => exact hread
  | some logInfo =>
    refine hread.trans (sameOn_rotate sh ?_ (fun i => ?_) (not_renames_after hstays))
    · rw [hread.path]
      exact hinfo
    · rw [hread.path]
      exact path_backup_ne s.disk filePath i

/-- A rotation before what the environment does then. -/
theorem Settles.rotate (hlarge : TooLarge filePath (x 1).dirSize s)
    (h : Settles sh dbgStr filePath (later sh filePath x s) (rotating sh filePath x s).state) :
    Settles sh dbgStr filePath x s := by
  by_cases hodd : Odd filePath s
  · exact .odd hodd hlarge h
  by_cases hmoves : Renames filePath (rotating sh filePath x s).calls
  · exact .moved (.works hlarge hmoves) h
  obtain ⟨node, hnode, hsize⟩ := id hlarge
  cases node with
  | dir => exact absurd (.inl hnode) hodd
  | file content =>
    have hsame := rotating_not_renames (fun hown => hodd (.inr hown)) hmoves
    have hstill := (hsame.lookup (not_not.mpr rfl)).trans hnode
    cases h with
    | ready hready =>
      obtain ⟨n, hn, hsmall⟩ := hready
      cases hn.symm.trans hstill
      exact absurd hsize (Nat.not_lt.mpr hsmall)
    | made hmade => exact absurd hmade.missing (by rw [hstill]; simp)
    | moved hmoved hrest => exact .moved (.fails hlarge hmoved) hrest
    | odd hodd' =>
      rcases hodd' with hdir | hown
      · cases hdir.symm.trans hstill
      · exact absurd (.inr (by rw [← hsame.path, ← hsame.path, hown])) hodd

end Environment

section Working

variable {log : LogFile}

/-- The words of the command that makes the file. -/
def touchWords (filePath : Text) : List Text := ["touch".toList, filePath]

/-- A run of `touch` that works. -/
def Touches (y : Choice) : Prop := y.fate ≠ .fails ∧ (y.tools 0).ok = true

theorem ofWords_touchWords (filePath : Text) :
    Command.ofWords (touchWords filePath) = .touch [filePath] := by
  simp [touchWords, Command.ofWords]

/-- A file that can be made is made by `touch`. -/
theorem touching_new {c : Choice} (hc : Touches c) (hnew : s.disk.Creatable filePath)
    (hwords : sh ("touch ".toList ++ filePath) = [touchWords filePath]) :
    (touching sh filePath c s).disk = s.disk.put (s.disk.path filePath) (some (.file [])) := by
  simp only [touching, act, if_neg hc.1, hwords, List.map_cons, List.map_nil, ofWords_touchWords,
    runCommands, Command.run, hc.2, if_true, List.foldl_cons, List.foldl_nil, touched, if_pos hnew]
  rfl

theorem touching_same {c : Choice} (h : ¬(Touches c ∧ s.disk.Creatable filePath))
    (hwords : sh ("touch ".toList ++ filePath) = [touchWords filePath]) :
    (touching sh filePath c s).disk = s.disk := by
  by_cases hfails : c.fate = .fails
  · simp only [touching, act, if_pos hfails]
  simp only [touching, act, if_neg hfails, hwords, List.map_cons, List.map_nil, ofWords_touchWords,
    runCommands, Command.run, List.foldl_cons, List.foldl_nil, touched]
  split_ifs with hok hnew
  · exact absurd ⟨⟨hfails, hok⟩, hnew⟩ h
  · rfl
  · rfl

theorem Made.first (hwords : sh ("touch ".toList ++ filePath) = [touchWords filePath])
    (h : Made sh filePath x s y t) : s.disk.Creatable filePath ∧
      ∃ n, (∀ m < n, ¬Touches (x (2 * m + 1))) ∧ Touches (x (2 * n + 1)) ∧
        (y = fun k => x (k + (2 * n + 2))) ∧
        t.disk = s.disk.put (s.disk.path filePath) (some (.file [])) := by
  induction h with
  | @works x s hmissing hmakes =>
    by_cases hworks : Touches (x 1) ∧ s.disk.Creatable filePath
    · exact ⟨hworks.2, 0, by simp, hworks.1, rfl, touching_new hworks.1 hworks.2 hwords⟩
    · rw [touching_same hworks hwords] at hmakes
      exact absurd hmissing hmakes
  | @fails x y s t hmissing hrest ih =>
    have hworks : ¬(Touches (x 1) ∧ s.disk.Creatable filePath) := by
      rintro ⟨htouch, hnew⟩
      have hstill := hrest.missing
      rw [touching_new htouch hnew hwords, Disk.lookup_file hnew.2.1 Disk.put_node_self] at hstill
      cases hstill
    obtain ⟨hnew, n, hbefore, hn, hy, ht⟩ := ih
    rw [touching_same hworks hwords] at hnew ht
    refine ⟨hnew, n + 1, fun m hm htouch => ?_, hn, hy, ht⟩
    cases m with
    | zero => exact hworks ⟨htouch, hnew⟩
    | succ m => exact hbefore m (Nat.lt_of_succ_lt_succ hm) htouch

/-- A rotation takes no directory away. -/
theorem rotating_dirs : SameOn (fun _ => ¬True) s.disk (rotating sh filePath x s).state.disk := by
  have hmakes : (BackupLogFile filePath).Makes (Call.On s.disk.cwd fun _ => True) := by
    refine (rotates_BackupLogFile filePath).mono fun c hc => ?_
    cases c with
    | openFile f => exact ⟨hc, trivial⟩
    | rename => exact ⟨trivial, trivial⟩
    | _ => exact hc
  exact (Confined.exec sh (fun _ _ => trivial) hmakes fun n => x (n + 2)).disk

theorem counting_not_renames {P : Text → Prop} {l : Trace}
    (h : ∀ e ∈ l, log.Counting P e.call) : ¬Renames filePath l := by
  rintro ⟨new, u, v, hmem⟩
  exact h _ hmem

/-- The counter of a log that is not its own. -/
theorem path_info_ne (hown : logInfoPath log.name ≠ log.name) (d : Disk) :
    d.path (logInfoPath log.text) ≠ d.path log.text := by
  rw [info_text, LogFile.info, LogFile.text, LogFile.path_text log.proper, Ne, log.path_inj]
  exact hown

/-- After a `rename` that works and the counter that is written then, the log is not there. -/
theorem rename_gone {logInfo : LogInfo} {i : ℤ}
    (hown : logInfoPath log.name ≠ log.name)
    (hmoves : Renames log.text ((Program.call (.rename log.text (backupFilePath log.text i))
      fun _ => WriteLogInfo log.text logInfo).exec (perform sh) x s).calls) :
    ((Program.call (.rename log.text (backupFilePath log.text i)) fun _ =>
      WriteLogInfo log.text logInfo).exec (perform sh) x s).state.disk.lookup log.text = none := by
  rw [exec_call] at hmoves ⊢
  split_ifs at hmoves ⊢
  · obtain ⟨new, u, v, hmem⟩ := hmoves
    cases hmem
  rcases act_rename_cases sh (x 0) s log.text (backupFilePath log.text i) with
    hact | ⟨content, -, -, hact⟩
  · obtain ⟨new, u, v, hmem⟩ := hmoves
    rcases List.mem_cons.mp hmem with hhead | htail
    · rw [event, hact] at hhead
      cases hhead
    · have hwrite := (makes_WriteLogInfo log logInfo).exec (perform sh) (fun n => x (n + 1))
        (act sh (.rename log.text (backupFilePath log.text i)) (x 0) s).2
      exact absurd ⟨new, u, v, htail⟩ (counting_not_renames hwrite)
  · rw [Outcome.after_state, hact]
    set u := s.move (s.disk.path log.text) (s.disk.path (backupFilePath log.text i)) with hu
    have hmoved : u.disk.node (u.disk.path log.text) = none := by
      change (s.disk.move _ _).node ((s.disk.move _ _).path log.text) = none
      rw [Disk.move_path, Disk.move, if_neg (path_backup_ne s.disk log.text i).symm,
        Disk.put_node_self]
    have hwrite := sameOn_WriteLogInfo sh (B := (· ≠ u.disk.path log.text))
      (path_info_ne hown u.disk) logInfo fun n => x (n + 1)
    rw [hwrite.lookup (not_not.mpr rfl)]
    exact Disk.lookup_none hmoved

theorem rotate_gone {logInfo : LogInfo}
    (hown : logInfoPath log.name ≠ log.name)
    (hmoves : Renames log.text ((rotate log.text logInfo).exec (perform sh) x s).calls) :
    ((rotate log.text logInfo).exec (perform sh) x s).state.disk.lookup log.text = none := by
  rw [rotate] at hmoves ⊢
  split_ifs at hmoves ⊢
  · exact rename_gone hown hmoves
  · simp only [request_bind] at hmoves ⊢
    rw [exec_call] at hmoves ⊢
    split_ifs at hmoves ⊢
    · obtain ⟨new, u, v, hmem⟩ := hmoves
      cases hmem
    refine rename_gone hown ?_
    obtain ⟨new, u, v, hmem⟩ := hmoves
    rcases List.mem_cons.mp hmem with hhead | htail
    · cases hhead
    · exact ⟨new, u, v, htail⟩

/-- A rotation that moves the log leaves none. -/
theorem rotating_renames (hown : logInfoPath log.name ≠ log.name)
    (hmoves : Renames log.text (rotating sh log.text x s).calls) :
    (rotating sh log.text x s).state.disk.lookup log.text = none := by
  have hread := (makes_ReadLogInfo log).exec (perform sh) (fun n => x (n + 2)) s
  rw [rotating, BackupLogFile, exec_bind] at hmoves ⊢
  generalize (ReadLogInfo log.text).exec (perform sh) (fun n => x (n + 2)) s = o at hread hmoves ⊢
  obtain ⟨value, t, l⟩ := o
  cases value with
  | none => exact absurd hmoves (counting_not_renames hread)
  | some logInfo =>
    refine rotate_gone hown ?_
    obtain ⟨new, u, v, hmem⟩ := hmoves
    rcases List.mem_append.mp hmem with hread' | hrest
    · exact absurd ⟨new, u, v, hread'⟩ (counting_not_renames hread)
    · exact ⟨new, u, v, hrest⟩

theorem Moved.gone (hown : logInfoPath log.name ≠ log.name) (h : Moved sh log.text x s y t) :
    t.disk.lookup log.text = none ∧ SameOn (fun _ => ¬True) s.disk t.disk := by
  generalize htext : log.text = filePath at h
  induction h with
  | works hlarge hmoves =>
    subst htext
    exact ⟨rotating_renames hown hmoves, rotating_dirs⟩
  | @fails x y s t hlarge hrest ih => exact ⟨ih.1, rotating_dirs.trans ih.2⟩

end Working

section Never

/-- The disk as far as the loop can change it while the file cannot be made. -/
def Stuck (filePath : Text) (d : Disk) (x : ℕ → Choice) (s : State) : Prop :=
  (∀ n, (x n).fate ≠ .stops) ∧ SameOn (· = d.path filePath) d s.disk

end Never

end ConferenceCall.Log

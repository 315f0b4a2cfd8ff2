import ConferenceCall.Log.Kept

/-! Runs of the calls that write and tend the logs, over days and with clocks that may step back.
A line that was reported as written stays below the log directory, plain or packed, until the entry
of its day is removed as the oldest one or a call replaces or unlinks the file that holds it. -/

namespace ConferenceCall.Log

open Library Program

/-- The calls on the log directory. -/
inductive DayCall
  | publish (dbgStr : Option Text) (filename : Text)
  | pass (filename : Text)

def DayCall.program (path : Text) : DayCall → Prog ℤ
  | .publish dbgStr filename => DBGLogAndPublish dbgStr path filename
  | .pass filename => DBGHandleOldLog path filename

/-- What is published goes to a file below the folder of its day. -/
def DayCall.Lands (path : Text) (now : ℤ) (d : Disk) : DayCall → Prop
  | .publish (some _) filename => Filed (d.path (path ++ APP_LOG_PATH)) (dayName now)
    (d.path (pathBuf path now ++ filename))
  | _ => True

variable (sh : Text → List (List Text)) (path : Text)

/-- One call after the other, the system calls recorded. -/
def daily : Step (DayCall × (ℕ → Choice)) State (Event Call Call.Answer State) := fun i s =>
  let o := (i.1.program path).exec (perform sh) i.2 s
  ({ o.state with opened := fun _ => none }, o.calls)

/-- All system calls and commands of the call succeed, the names it lists need no quotes, and its
line goes to the folder of its day. -/
def Favoured (i : DayCall × (ℕ → Choice)) (s : State) : Prop :=
  (∀ k, (i.2 k).Succeeds) ∧ (∀ e ∈ (daily sh path i s).2, Orderly e) ∧
    i.1.Lands path (i.2 1).now s.disk

/-- A line stands in a file below a directory. -/
def Present (D : Path) (line : Text) (d : Disk) : Prop :=
  ∃ p c, D <+: p ∧ d.content p = some c ∧ Item.Holds line c

/-- Every line that was reported as written is there, or the entry of its day was removed since, or
a file that held it was replaced or unlinked. The second system call of a call that publishes reads
the clock. -/
def Conserved (l : List (DayCall × (ℕ → Choice))) (s : State) : Prop :=
  ∀ l₁ dbgStr filename x l₂, l = l₁ ++ (.publish (some dbgStr) filename, x) :: l₂ →
    ((DBGLogAndPublish (some dbgStr) path filename).exec (perform sh) x
      ((daily sh path).run l₁ s).1).value = some 0 →
    let line := payloadLog ((x 1).now, (x 1).usec) ++ dbgStr
    let since := ((daily sh path).run l₂
      ((daily sh path).run (l₁ ++ [(.publish (some dbgStr) filename, x)]) s).1).2
    Present (s.disk.path (path ++ APP_LOG_PATH)) line ((daily sh path).run l s).1.disk ∨
      Dropped (path ++ APP_LOG_PATH) (dayName (x 1).now) since ∨ ∃ e ∈ since, Loses sh line e

variable {sh path} {cwd : Path} {line : Text} {day : Name} {s : State}

theorem act_cwd (c : Call) (x : Choice) (s : State) : (act sh c x s).2.disk.cwd = s.disk.cwd := by
  by_cases hdir : ∃ path, c = .mkdir path
  · obtain ⟨path, rfl⟩ := hdir
    simp only [act]
    split_ifs <;> rfl
  · exact (within_act sh s x fun path hc => hdir ⟨path, hc⟩).cwd

theorem exec_cwd {α : Type} (p : Prog α) (x : ℕ → Choice) (s : State) :
    (p.exec (perform sh) x s).state.disk.cwd = s.disk.cwd := by
  induction p generalizing x s with
  | done a => rfl
  | call c next ih =>
    rw [exec_call]
    split_ifs
    · rfl
    · exact (ih _ _ _).trans (act_cwd c (x 0) s)

/-- No file is open after a call. -/
theorem Held.closed {P : Path → Prop} (h : Held cwd P line s) :
    Held cwd P line { s with opened := fun _ => none } := by
  obtain ⟨p, c, hp, hc, hline, -⟩ := h.held
  exact ⟨h.cwd, by simp, by simp, by simp, p, c, hp, hc, hline, by simp⟩

theorem folder_app (path : Text) : Path.Folder (path ++ APP_LOG_PATH) := by
  have happ : APP_LOG_PATH = "/APLog".toList ++ ['/'] := rfl
  exact .inr ⟨path ++ "/APLog".toList, by rw [happ, List.append_assoc]⟩

/-- What one call keeps if it loses nothing. -/
theorem daily_keeps (hsh : SplitsWords sh) (hclean : Clean path) {i : DayCall × (ℕ → Choice)}
    (hi : Favoured sh path i s) (hlost : ∀ e ∈ (daily sh path i s).2, ¬Loses sh line e)
    (hs : Held cwd (Keeper (Path.resolve cwd (path ++ APP_LOG_PATH)) day) line s) :
    Lasts cwd (path ++ APP_LOG_PATH) day line (daily sh path i s).1 (daily sh path i s).2 := by
  obtain ⟨call, x⟩ := i
  obtain ⟨hx, horderly, -⟩ := hi
  have hlasts : Conserves sh line (call.program path)
      (fun _ t l => Lasts cwd (path ++ APP_LOG_PATH) day line t l) s := by
    cases call with
    | publish dbgStr filename =>
      exact (conserves_makes (gentle_DBGLogAndPublish dbgStr path filename) hs).mono
        fun _ _ _ ht => .inl ht
    | pass filename =>
      exact conserves_DBGHandleOldLog (folder_app path) hsh
        (clean_append.mpr ⟨hclean, by decide⟩) rfl (by simp [APP_LOG_PATH]) hs
  obtain ⟨⟨a, -, ht⟩, -⟩ := hlasts x hx fun e he => ⟨horderly e he, hlost e he⟩
  exact ht.imp_left Held.closed

/-- A line is kept, or its day was removed, or a file that held it was replaced or unlinked. -/
def Traced (sh : Text → List (List Text)) (cwd : Path) (folder : Text) (day : Name) (line : Text)
    (t : State) (l : Trace) : Prop :=
  Lasts cwd folder day line t l ∨ ∃ e ∈ l, Loses sh line e

theorem daily_traced (hsh : SplitsWords sh) (hclean : Clean path) (i : DayCall × (ℕ → Choice))
    (s : State) (o : Trace) (hs : Traced sh cwd (path ++ APP_LOG_PATH) day line s o)
    (hi : Favoured sh path i s) : Traced sh cwd (path ++ APP_LOG_PATH) day line
      (daily sh path i s).1 (o ++ (daily sh path i s).2) := by
  rcases hs with (hs | hdropped) | ⟨e, he, hlost⟩
  · by_cases hlost : ∃ e ∈ (daily sh path i s).2, Loses sh line e
    · obtain ⟨e, he, hlost⟩ := hlost
      exact .inr ⟨e, List.mem_append_right o he, hlost⟩
    · have hkept := daily_keeps hsh hclean hi (fun e he h => hlost ⟨e, he, h⟩) hs
      exact .inl (hkept.imp_right fun h => h.append_left o)
  · exact .inl (.inr (hdropped.append_right _))
  · exact .inr ⟨e, List.mem_append_left _ he, hlost⟩

/-- A call that takes no file away. -/
def Call.Adds : Call → Prop
  | .rename _ _ | .unlink _ | .system _ => False
  | _ => True

theorem Call.Adds.not_loses {e : Event Call Call.Answer State} (h : e.call.Adds) :
    ¬Loses sh line e := by
  obtain ⟨c, r, s, t⟩ := e
  cases c with
  | rename old new => exact h.elim
  | unlink path => exact h.elim
  | system command => exact h.elim
  | _ => exact not_false

/-- A line that is reported as written is there. -/
theorem daily_publishes {dbgStr filename : Text} {x : ℕ → Choice} (hcwd : s.disk.cwd = cwd)
    (hopened : s.opened = fun _ => none)
    (hi : Favoured sh path (.publish (some dbgStr) filename, x) s)
    (hvalue : ((DBGLogAndPublish (some dbgStr) path filename).exec (perform sh) x s).value =
      some 0) :
    Held cwd (Keeper (Path.resolve cwd (path ++ APP_LOG_PATH)) (dayName (x 1).now))
      (payloadLog ((x 1).now, (x 1).usec) ++ dbgStr)
      (daily sh path (.publish (some dbgStr) filename, x) s).1 := by
  subst hcwd
  obtain ⟨hx, horderly, hlands⟩ := hi
  have hexec : (DBGLogAndPublish (some dbgStr) path filename).exec (perform sh) x s = _ :=
    exec_logAndPublish sh hx payloadLog dbgStr path filename s
  set line := payloadLog ((x 1).now, (x 1).usec) ++ dbgStr
  have hadds : (publishTo (pathBuf path (x 1).now) filename line).Makes Call.Adds :=
    makes_publishTo (makes_mkdirs (fun _ => trivial) (fun _ => trivial) _) trivial trivial trivial
      trivial
  have hwritten : Conserves sh line (publishTo (pathBuf path (x 1).now) filename line)
      (fun a t _ => a = 0 → Held s.disk.cwd
        (Keeper (s.disk.path (path ++ APP_LOG_PATH)) (dayName (x 1).now)) line t) s :=
    conserves_publishTo rfl hopened (.inr hlands)
  have hcalls : (daily sh path (.publish (some dbgStr) filename, x) s).2 = _ :=
    congrArg Outcome.calls hexec
  rw [hcalls] at horderly
  obtain ⟨⟨a, ha, ht⟩, -⟩ := hwritten _ (fun n => hx (n + 3)) fun e he =>
    ⟨horderly e (by simp [Outcome.after, he]), (hadds.exec (perform sh) _ _ e he).not_loses⟩
  have hstate : (daily sh path (.publish (some dbgStr) filename, x) s).1 = _ :=
    congrArg (fun o => { o.state with opened := fun _ => none }) hexec
  rw [hstate]
  rw [hexec, Outcome.after_value, ha] at hvalue
  exact (ht (Option.some.inj hvalue)).closed

theorem Held.present {D : Path} (h : Held cwd (Keeper D day) line s) : Present D line s.disk := by
  obtain ⟨p, c, hp, hc, hline, -⟩ := h.held
  refine ⟨p, c, ?_, hc, hline⟩
  rcases hp with rfl | ⟨r, n, rfl, -⟩
  · exact List.prefix_append ..
  · exact List.prefix_append ..

/-- What became of a line since it was reported as written. -/
theorem traced_run (hsh : SplitsWords sh) (hclean : Clean path)
    {l₁ l₂ : List (DayCall × (ℕ → Choice))} {dbgStr filename : Text} {x : ℕ → Choice} {d : Disk}
    (hl : (daily sh path).Along (Favoured sh path)
      (l₁ ++ (.publish (some dbgStr) filename, x) :: l₂) { disk := d })
    (hvalue : ((DBGLogAndPublish (some dbgStr) path filename).exec (perform sh) x
      ((daily sh path).run l₁ { disk := d }).1).value = some 0) :
    Traced sh d.cwd (path ++ APP_LOG_PATH) (dayName (x 1).now)
      (payloadLog ((x 1).now, (x 1).usec) ++ dbgStr)
      ((daily sh path).run (l₁ ++ (.publish (some dbgStr) filename, x) :: l₂) { disk := d }).1
      ((daily sh path).run l₂ ((daily sh path).run
        (l₁ ++ [(.publish (some dbgStr) filename, x)]) { disk := d }).1).2 := by
  obtain ⟨hl₁, hrest⟩ := Step.along_append.mp hl
  obtain ⟨hpublish, hl₂⟩ := Step.along_cons.mp hrest
  have hidle : ((daily sh path).run l₁ { disk := d }).1.disk.cwd = d.cwd ∧
      ((daily sh path).run l₁ { disk := d }).1.opened = fun _ => none := by
    refine Step.run_invariant (I := fun s : State => s.disk.cwd = d.cwd ∧ s.opened = fun _ => none)
      ?_ l₁ _ ⟨rfl, rfl⟩
    rintro i s ⟨hs, -⟩
    exact ⟨(exec_cwd _ _ _).trans hs, rfl⟩
  have hheld := daily_publishes hidle.1 hidle.2 hpublish hvalue
  rw [Step.run_append, Step.run_append]
  exact Step.run_records (daily_traced hsh hclean) l₂ _ [] (.inl (.inl hheld)) hl₂

/-- No line is lost but by the removal of its day or by a call that falls on its file. -/
theorem lines_conserved (hsh : SplitsWords sh) (hclean : Clean path)
    {l : List (DayCall × (ℕ → Choice))} {d : Disk}
    (hl : (daily sh path).Along (Favoured sh path) l { disk := d }) :
    Conserved sh path l { disk := d } := by
  rintro l₁ dbgStr filename x l₂ rfl hvalue
  rcases traced_run hsh hclean hl hvalue with (hheld | hdropped) | hlost
  · exact .inl hheld.present
  · exact .inr (.inl hdropped)
  · exact .inr (.inr hlost)

instance : DecidablePred Orderly := fun e =>
  match e with
  | ⟨.readdir _ name, d_type, _, _⟩ => inferInstanceAs (Decidable (¬d_type = none → Clean name))
  | ⟨.system _, rans, _, _⟩ => inferInstanceAs (Decidable (∀ ran ∈ rans, ran.ok = true))
  | ⟨.stat _, _, _, _⟩ | ⟨.openFile .., _, _, _⟩ | ⟨.read .., _, _, _⟩ | ⟨.write .., _, _, _⟩
  | ⟨.close _, _, _, _⟩ | ⟨.rename .., _, _, _⟩ | ⟨.unlink _, _, _, _⟩ | ⟨.access _, _, _, _⟩
  | ⟨.mkdir _, _, _, _⟩ | ⟨.opendir _, _, _, _⟩
  | ⟨.ftw _, _, _, _⟩ | ⟨.gettimeofday, _, _, _⟩ | ⟨.uninitialised, _, _, _⟩
  | ⟨.stderr _, _, _, _⟩ | ⟨.quiet, _, _, _⟩ => isTrue trivial

/-- A device without a clock that was on for a day before. -/
def bootDisk : Disk where
  cwd := []
  node p :=
    if p = ["tmp".toList] ∨ p = ["tmp".toList, "APLog".toList] ∨
        p = ["tmp".toList, "APLog".toList, "2024-03-01".toList] then some .dir
    else none

/-- The clock and what the directories hold. -/
def dayChoice (now : ℤ) (k : ℕ) : Choice where
  now := now
  names := if k = 15 then ["a.txt".toList]
    else ["2024-02-29".toList, "2024-02-29.tgz".toList, "2024-03-01".toList]

/-- A line of one character, on the first day. -/
def publishFirst (ch : Char) : DayCall × (ℕ → Choice) :=
  (.publish (some [ch]) "a.txt".toList, dayChoice 1709164800)

/-- A pass on the second day. -/
def passSecond : DayCall × (ℕ → Choice) := (.pass "a.txt".toList, dayChoice 1709251200)

/-- The clock steps back after the first pass, and the second one packs the day again. -/
def steppedBack : List (DayCall × (ℕ → Choice)) :=
  [publishFirst '!', passSecond, publishFirst '?', passSecond]

/-- All calls of the run succeed. -/
theorem steppedBack_favoured : (daily splitWords "/tmp".toList).Along
    (Favoured splitWords "/tmp".toList) steppedBack { disk := bootDisk } := by
  have hgood (i : DayCall × (ℕ → Choice)) (s : State) (hx : ∃ t, i.2 = dayChoice t)
      (horderly : ∀ e ∈ (daily splitWords "/tmp".toList i s).2, Orderly e)
      (hlands : i.1.Lands "/tmp".toList (i.2 1).now s.disk) :
      Favoured splitWords "/tmp".toList i s := by
    obtain ⟨t, ht⟩ := hx
    exact ⟨fun k => ht ▸ ⟨rfl, fun _ => rfl⟩, horderly, hlands⟩
  have hfiled : Filed ["tmp".toList, "APLog".toList] "2024-02-29".toList
      ["tmp".toList, "APLog".toList, "2024-02-29".toList, "a.txt".toList] :=
    ⟨[], "a.txt".toList, rfl, not_isCounter (by decide)⟩
  refine Step.along_cons.mpr ⟨hgood _ _ ⟨_, rfl⟩ (by decide +kernel) hfiled, ?_⟩
  refine Step.along_cons.mpr ⟨hgood _ _ ⟨_, rfl⟩ (by decide +kernel) trivial, ?_⟩
  refine Step.along_cons.mpr ⟨hgood _ _ ⟨_, rfl⟩ (by decide +kernel) hfiled, ?_⟩
  refine Step.along_cons.mpr ⟨hgood _ _ ⟨_, rfl⟩ (by decide +kernel) trivial, ?_⟩
  exact Step.along_nil _ _

/-- The first line was in the archive that the second pass replaced, and the other one is packed. -/
theorem lines_conserved_steppedBack :
    Conserved splitWords "/tmp".toList steppedBack { disk := bootDisk } :=
  lines_conserved splits_splitWords (by decide) steppedBack_favoured

end ConferenceCall.Log

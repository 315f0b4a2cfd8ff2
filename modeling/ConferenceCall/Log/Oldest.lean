import ConferenceCall.Log.Days
import Mathlib.Data.List.Induction

/-! The removal of the oldest entry of the log directory. The loop keeps the entry with the least
date it has seen below the current day, so that the removed entry has the least date of all,
whatever the order of the listing is. -/

namespace ConferenceCall.Log

open Library Program

/-- The command a call hands to the shell. -/
def Call.command : Call → Option Text
  | .system command => some command
  | _ => none

/-- The commands handed to the shell along a run. -/
def commands (calls : Trace) : List Text := calls.filterMap fun e => e.call.command

/-- The date of a folder or a regular file whose name starts with one. -/
def entryTime (s : State) (path : Text) (d_name : Name) : Option ℤ :=
  if Path.Proper d_name ∧ (s.disk.node (s.disk.path path ++ [d_name])).isSome then folderTime d_name
  else none

/-- An entry of a listing with its date. -/
def Dated (s : State) (path : Text) (names : List Name) (d_name : Name) (time : ℤ) : Prop :=
  d_name ∈ names ∧ entryTime s path d_name = some time

/-- What the loop knows behind some entries: no date is below its own, and it has found an entry
of that date before the current day unless it holds the current day itself. -/
structure Scanned (s : State) (path : Text) (today : ℤ) (names : List Name) (oldest : ℤ × Text) :
    Prop where
  le : ∀ d_name time, Dated s path names d_name time → oldest.1 ≤ time
  found : oldest = (today, []) ∨
    ∃ d_name, Dated s path names d_name oldest.1 ∧ oldest.1 < today ∧ oldest.2 = path ++ d_name

/-- One round of the loop. -/
def scan (s : State) (path : Text) (oldest : ℤ × Text) (d_name : Name) : ℤ × Text :=
  match entryTime s path d_name with
  | none => oldest
  | some time => if time < oldest.1 then (time, path ++ d_name) else oldest

variable {s : State} {path : Text} {today : ℤ} {names : List Name} {oldest : ℤ × Text}

theorem scan_eq (s : State) (path : Text) (oldest : ℤ × Text) (d_name : Name) :
    scan s path oldest d_name =
      if Path.Proper d_name ∧ (s.disk.node (s.disk.path path ++ [d_name])).isSome then
        takeOlder path oldest d_name
      else oldest := by
  unfold scan entryTime
  split_ifs
  · unfold takeOlder
    cases folderTime d_name <;> rfl
  · rfl

theorem dated_concat {d_name d_name' : Name} {time : ℤ} :
    Dated s path (names ++ [d_name']) d_name time ↔
      Dated s path names d_name time ∨ d_name = d_name' ∧ entryTime s path d_name = some time := by
  simp only [Dated, List.mem_append, List.mem_singleton, or_and_right]

theorem Scanned.le_today (h : Scanned s path today names oldest) : oldest.1 ≤ today := by
  rcases h.found with rfl | ⟨_, -, hlt, -⟩
  · exact le_rfl
  · exact hlt.le

/-- A round keeps what the loop knows. -/
theorem Scanned.step (h : Scanned s path today names oldest) (d_name : Name) :
    Scanned s path today (names ++ [d_name]) (scan s path oldest d_name) := by
  rcases htime : entryTime s path d_name with _ | time
  · have hscan : scan s path oldest d_name = oldest := by simp only [scan, htime]
    rw [hscan]
    refine ⟨fun n t hd => ?_, h.found.imp_right fun ⟨n, hd, hrest⟩ =>
      ⟨n, dated_concat.mpr (.inl hd), hrest⟩⟩
    rcases dated_concat.mp hd with hd | ⟨rfl, ht⟩
    · exact h.le n t hd
    · exact absurd (htime.symm.trans ht) (by simp)
  by_cases hlt : time < oldest.1
  · have hscan : scan s path oldest d_name = (time, path ++ d_name) := by
      simp only [scan, htime, if_pos hlt]
    rw [hscan]
    refine ⟨fun n t hd => ?_, .inr ⟨d_name, dated_concat.mpr (.inr ⟨rfl, htime⟩),
      hlt.trans_le h.le_today, rfl⟩⟩
    rcases dated_concat.mp hd with hd | ⟨rfl, ht⟩
    · exact hlt.le.trans (h.le n t hd)
    · exact (Option.some.inj (htime.symm.trans ht)).le
  · have hscan : scan s path oldest d_name = oldest := by simp only [scan, htime, if_neg hlt]
    rw [hscan]
    refine ⟨fun n t hd => ?_, h.found.imp_right fun ⟨n, hd, hrest⟩ =>
      ⟨n, dated_concat.mpr (.inl hd), hrest⟩⟩
    rcases dated_concat.mp hd with hd | ⟨rfl, ht⟩
    · exact h.le n t hd
    · rw [← Option.some.inj (htime.symm.trans ht)]
      exact not_lt.mp hlt

/-- The whole loop, by induction over the listing from its end. -/
theorem scanned (s : State) (path : Text) (today : ℤ) (names : List Name) :
    Scanned s path today names (names.foldl (scan s path) (today, [])) := by
  induction names using List.reverseRecOn with
  | nil => exact ⟨fun n t hd => absurd hd.1 List.not_mem_nil, .inl rfl⟩
  | append_singleton names d_name ih =>
    rw [List.foldl_append]
    exact ih.step d_name

/-! ### The commands of a pass -/

theorem commands_append (l l' : Trace) : commands (l ++ l') = commands l ++ commands l' :=
  List.filterMap_append

variable (sh : Text → List (List Text))

/-- Every run that is not stopped issues these commands. -/
def Issues {α : Type} (p : Prog α) (cmds : List Text) (s : State) : Prop :=
  Ensures (perform sh) (fun x => x.fate ≠ .stops) p (fun o => commands o.calls = cmds) s

variable {sh}

theorem issues_pure {α : Type} (a : α) : Issues sh (pure a) [] s := ensures_pure rfl

theorem issues_call {α : Type} {c : Call} {next : c.Answer → Prog α} {cmds : List Text}
    (h : ∀ r t, Issues sh (next r) cmds t) :
    Issues sh (.call c next) (c.command.toList ++ cmds) s := by
  refine ensures_call (fun x hx hstop => ?_) fun x r t _ _ => (h r t).mono fun o ho => ?_
  · simp [perform, hx] at hstop
  · rw [Outcome.after_calls, commands_append, ho, commands, List.filterMap_cons]
    cases c.command <;> rfl

/-- A first part that issues nothing. -/
theorem issues_bind {α β : Type} {p : Prog β} {f : β → Prog α} {b : β} {t : State}
    {cmds : List Text} (hp : Ensures (perform sh) (fun x => x.fate ≠ .stops) p
      (fun o => o.value = some b ∧ o.state = t ∧ commands o.calls = []) s)
    (hf : Issues sh (f b) cmds t) : Issues sh (p >>= f) cmds s := by
  refine ensures_bind (hp.mono fun o ⟨hvalue, hstate, hcalls⟩ => ?_)
  rw [hvalue, hstate]
  exact hf.mono fun o' ho' => by rw [Outcome.after_calls, commands_append, hcalls, ho', List.nil_append]

/-- A round of the loop looks at one entry. -/
theorem ensures_scan (oldest : ℤ × Text) (d_name : Name) :
    Ensures (perform sh) (fun x => x.fate ≠ .stops) (do
      let d_type ← Sys.readdir path d_name
      return if d_type.isSome then takeOlder path oldest d_name else oldest)
      (fun o => o.value = some (scan s path oldest d_name) ∧ o.state = s ∧ commands o.calls = []) s := by
  refine ensures_call (fun x hx hstop => ?_) fun x r t _ hperform => ?_
  · simp [perform, hx] at hstop
  · obtain ⟨-, hact⟩ := (perform_eq_some sh).mp hperform
    obtain ⟨rfl, rfl⟩ := Prod.mk.inj hact
    refine ensures_done ⟨?_, rfl, rfl⟩
    rw [scan_eq]
    by_cases hproper : Path.Proper d_name
    · cases s.disk.node (s.disk.path path ++ [d_name]) <;> simp [hproper, Outcome.after]
    · simp [hproper, Outcome.after]

/-- What a pass does with a listing: the entry that was found is removed. -/
theorem issues_listing (names : List Name) (timeString : Text) (currentTime : ℤ) (s : State) :
    let oldest := names.foldl (scan s path) (currentTime, [])
    Issues sh (do
      let (theOldestTime, theOldestPath) ← fold (fun oldest d_name => do
        let d_type ← Sys.readdir path d_name
        return if d_type.isSome then takeOlder path oldest d_name else oldest) names (currentTime, [])
      if theOldestTime ≠ currentTime ∧ theOldestPath ≠ [] then
        let cmd := "rm -rf ".toList ++ theOldestPath
        let _ ← Sys.write .logFd timeString
        let _ ← Sys.write .logFd cmd
        let _ ← Sys.system cmd
        let _ ← Sys.write .logFd
          ("[RemoveTheOldestLog]remove the oldest log path = ".toList ++ path ++ "\n".toList)
      Sys.quiet)
      (if oldest.1 ≠ currentTime ∧ oldest.2 ≠ [] then ["rm -rf ".toList ++ oldest.2] else []) s := by
  intro oldest
  have happend (l l' : Trace) (hl : commands l = []) (hl' : commands l' = []) :
      commands (l ++ l') = [] := by
    rw [commands_append, hl, hl', List.append_nil]
  refine issues_bind (ensures_fold (P := fun l => commands l = []) rfl happend ensures_scan names
    (currentTime, [])) ?_
  change Issues sh (if oldest.1 ≠ currentTime ∧ oldest.2 ≠ [] then _ else _) _ s
  split_ifs
  · exact issues_call fun _ _ => issues_call fun _ _ => issues_call fun _ _ =>
      issues_call fun _ _ => issues_call fun _ _ => issues_pure ()
  · exact issues_call fun _ _ => issues_pure ()

variable (sh) in
/-- The commands of a pass over a listing. -/
theorem removeTheOldestLog_commands {x : ℕ → Choice} (hx : ∀ n, (x n).fate ≠ .stops)
    (hopen : (x 1).fate ≠ .fails) (hdir : s.disk.IsDir (s.disk.path path)) :
    ∃ oldest, Scanned s path (midnight (x 0).now) (x 1).names oldest ∧
      commands ((RemoveTheOldestLog path).exec (perform sh) x s).calls =
        if oldest.1 ≠ midnight (x 0).now ∧ oldest.2 ≠ [] then ["rm -rf ".toList ++ oldest.2]
        else [] := by
  refine ⟨_, scanned s path (midnight (x 0).now) (x 1).names, ?_⟩
  have hlist : act sh (.opendir path) (x 1) s = (some (x 1).names, s) := by
    simp only [act, hopen, hdir, not_true, or_self, if_false]
  rw [RemoveTheOldestLog, request_bind, exec_call, if_neg (hx 0), Outcome.after_calls,
    commands_append]
  simp only [act, request_bind]
  rw [exec_call, if_neg (hx 1), Outcome.after_calls, commands_append, hlist]
  exact issues_listing (x 1).names _ _ s (fun n => x (n + 1 + 1)) fun n => hx _

variable (sh) in
/-- A pass issues nothing when no date is before its day, and else removes an entry of the least
date. -/
theorem commands_cases {x : ℕ → Choice} (hx : ∀ n, (x n).fate ≠ .stops)
    (hopen : (x 1).fate ≠ .fails) (hdir : s.disk.IsDir (s.disk.path path)) :
    (commands ((RemoveTheOldestLog path).exec (perform sh) x s).calls = [] ∧
      ∀ n t, Dated s path (x 1).names n t → midnight (x 0).now ≤ t) ∨
    ∃ n t, commands ((RemoveTheOldestLog path).exec (perform sh) x s).calls =
        ["rm -rf ".toList ++ (path ++ n)] ∧
      Dated s path (x 1).names n t ∧ t < midnight (x 0).now ∧
      ∀ n' t', Dated s path (x 1).names n' t' → t ≤ t' := by
  obtain ⟨oldest, ⟨hle, hfound⟩, hcommands⟩ := removeTheOldestLog_commands sh hx hopen hdir
  rcases hfound with rfl | ⟨n, hn, hlt, hpath⟩
  · exact .inl ⟨hcommands.trans (if_neg fun h => h.1 rfl), hle⟩
  · have hne : path ++ n ≠ [] := by
      have hproper : Path.Proper n := by
        have htime := hn.2
        unfold entryTime at htime
        split_ifs at htime with h
        exact h.1
      simp [hproper.1]
    rw [if_pos ⟨hlt.ne, hpath ▸ hne⟩, hpath] at hcommands
    exact .inr ⟨n, _, hcommands, hn, hlt, hle⟩

/-- The program's midnight is that of the day, or the next one for a time before the Epoch. -/
theorem midnight_cases (t : ℤ) : midnight t =
    if 0 ≤ t ∨ t % SEC_PER_DAY = 0 then t - t % SEC_PER_DAY
    else t - t % SEC_PER_DAY + SEC_PER_DAY := by
  rw [midnight, Int.tmod_eq_emod]
  have hdvd : SEC_PER_DAY ∣ t ↔ t % SEC_PER_DAY = 0 := Int.dvd_iff_emod_eq_zero
  simp only [hdvd]
  have habs : (SEC_PER_DAY.natAbs : ℤ) = SEC_PER_DAY := rfl
  split_ifs <;> omega

/-- A pass over a listing removes at most one entry, and one exactly when some date is before its
day. The entry it removes has the least date of all, and every order of the listing leads to the
same date. -/
theorem oldest_entry_removed {x : ℕ → Choice} (hx : ∀ n, (x n).fate ≠ .stops)
    (hopen : (x 1).fate ≠ .fails) (hdir : s.disk.IsDir (s.disk.path path)) :
    let now := (x 0).now
    let today := if 0 ≤ now ∨ now % 86400 = 0 then now - now % 86400 else now - now % 86400 + 86400
    let removals (x : ℕ → Choice) := commands ((RemoveTheOldestLog path).exec (perform sh) x s).calls
    (removals x).length ≤ 1 ∧
    (removals x ≠ [] ↔ ∃ n t, Dated s path (x 1).names n t ∧ t < today) ∧
    (∀ cmd ∈ removals x, ∃ n t, cmd = "rm -rf ".toList ++ (path ++ n) ∧
      Dated s path (x 1).names n t ∧ t < today ∧
      ∀ n' t', Dated s path (x 1).names n' t' → t ≤ t') ∧
    ∀ y : ℕ → Choice, (∀ n, (y n).fate ≠ .stops) → (y 1).fate ≠ .fails →
      (y 1).names.Perm (x 1).names → ∀ n t n' t',
        removals x = ["rm -rf ".toList ++ (path ++ n)] → Dated s path (x 1).names n t →
        removals y = ["rm -rf ".toList ++ (path ++ n')] → Dated s path (y 1).names n' t' →
        t = t' := by
  intro now today removals
  have htoday : today = midnight now := (midnight_cases now).symm
  rw [htoday]
  have hremoved (y : ℕ → Choice) (hy : ∀ n, (y n).fate ≠ .stops) (hopen : (y 1).fate ≠ .fails)
      (n : Name) (t : ℤ) (hcmd : removals y = ["rm -rf ".toList ++ (path ++ n)])
      (hn : Dated s path (y 1).names n t) :
      ∀ n' t', Dated s path (y 1).names n' t' → t ≤ t' := by
    rcases commands_cases sh hy hopen hdir with ⟨hnone, -⟩ | ⟨m, u, hcmd', hm, -, hle⟩
    · exact absurd (hcmd.symm.trans hnone) (by simp)
    · have hname : n = m := by simpa using hcmd.symm.trans hcmd'
      have htime : t = u := by simpa [hname, hm.2] using hn.2.symm
      exact htime ▸ hle
  refine ⟨?_, ?_, ?_, ?_⟩
  · rcases commands_cases sh hx hopen hdir with ⟨h, -⟩ | ⟨_, _, h, -⟩ <;>
      simp only [removals, h, List.length_nil, List.length_singleton] <;> omega
  · rcases commands_cases sh hx hopen hdir with ⟨h, hle⟩ | ⟨n, t, h, hn, hlt, -⟩
    · refine iff_of_false (fun hne => hne h) ?_
      rintro ⟨n, t, hn, hlt⟩
      exact absurd hlt (not_lt.mpr (hle n t hn))
    · exact iff_of_true (by simp [removals, h]) ⟨n, t, hn, hlt⟩
  · intro cmd hcmd
    rcases commands_cases sh hx hopen hdir with ⟨h, -⟩ | ⟨n, t, h, hrest⟩
    · simp [removals, h] at hcmd
    · rw [show removals x = _ from h, List.mem_singleton] at hcmd
      exact ⟨n, t, hcmd, hrest⟩
  · intro y hy hyopen hperm n t n' t' hcmd hn hcmd' hn'
    have hmem (m : Name) (u : ℤ) : Dated s path (y 1).names m u ↔ Dated s path (x 1).names m u := by
      rw [Dated, Dated, hperm.mem_iff]
    exact le_antisymm (hremoved x hx hopen n t hcmd hn n' t' ((hmem n' t').mp hn'))
      (hremoved y hy hyopen n' t' hcmd' hn' n t ((hmem n t).mpr hn))

/-- A disk whose root holds a folder. -/
def oneFolder (d_name : Name) : State where
  disk := { cwd := [], node := fun p => if p = [d_name] then some .dir else none }

/-- A clock, and a listing with one name. -/
def oneName (now : ℤ) (d_name : Name) : ℕ → Choice
  | 0 => { now }
  | _ => { names := [d_name] }

/-- The folder of a leap day, the day after. -/
theorem leap_day_removed : commands ((RemoveTheOldestLog "/".toList).exec (perform fun _ => [])
    (oneName 1709251205 "2024-02-29".toList) (oneFolder "2024-02-29".toList)).calls ≠ [] := by
  have hx (n : ℕ) : (oneName 1709251205 "2024-02-29".toList n).fate ≠ .stops := by
    cases n <;> simp [oneName]
  refine (oldest_entry_removed hx (by decide) (.inl (by decide))).2.1.mpr
    ⟨"2024-02-29".toList, 1709164800, ⟨List.mem_singleton_self _, ?_⟩, by decide⟩
  decide +kernel

/-- The name that spells a date. -/
def spelled (date : Calendar.Date) : Text :=
  Decimal.print 0 date.year ++ '-' :: (Decimal.print 2 ((date.month : ℕ) + 1) ++
    '-' :: Decimal.print 2 date.day)

/-- The first day of a year whose number does not fit an `int`. -/
def farDay : Calendar.Date where
  year := 4294969320
  month := ⟨0, Nat.succ_pos 11⟩
  day := 1
  valid := by decide

example : spelled farDay = "4294969320-01-01".toList := by decide

/-- Five seconds before the Epoch the folder of the current day is removed. On a leap day a folder
is removed that spells a later date, whose year is stored as the current one. -/
theorem later_entries_removed :
    (¬∀ (sh : Text → List (List Text)) (path : Text) (s : State) (x : ℕ → Choice),
      (∀ n, (x n).fate ≠ .stops) → (x 1).fate ≠ .fails → s.disk.IsDir (s.disk.path path) →
      ∀ n t, commands ((RemoveTheOldestLog path).exec (perform sh) x s).calls =
        ["rm -rf ".toList ++ (path ++ n)] → Dated s path (x 1).names n t →
          t < (x 0).now - (x 0).now % 86400) ∧
    ¬∀ (sh : Text → List (List Text)) (path : Text) (s : State) (x : ℕ → Choice),
      0 ≤ (x 0).now → (∀ n, (x n).fate ≠ .stops) → (x 1).fate ≠ .fails →
      s.disk.IsDir (s.disk.path path) → ∀ date,
        commands ((RemoveTheOldestLog path).exec (perform sh) x s).calls =
          ["rm -rf ".toList ++ (path ++ spelled date)] →
          date.days * 86400 < (x 0).now - (x 0).now % 86400 := by
  have hx (now : ℤ) (d_name : Name) (n : ℕ) : (oneName now d_name n).fate ≠ .stops := by
    cases n <;> simp [oneName]
  have hdir (d_name : Name) :
      (oneFolder d_name).disk.IsDir ((oneFolder d_name).disk.path "/".toList) :=
    .inl rfl
  refine ⟨fun h => ?_, fun h => ?_⟩
  · let d_name := "1969-12-31".toList
    have htime : entryTime (oneFolder d_name) "/".toList d_name = some (-86400) := by decide +kernel
    rcases commands_cases (fun _ => []) (hx (-5) d_name) (by decide) (hdir d_name) with
      ⟨-, hle⟩ | ⟨n, t, hcmd, hn, -⟩
    · exact absurd (hle d_name _ ⟨List.mem_singleton_self _, htime⟩) (by decide)
    · have hlt := h _ _ _ _ (hx (-5) d_name) (by decide) (hdir d_name) n t hcmd hn
      have hname : n = d_name := List.mem_singleton.mp hn.1
      have heq : t = -86400 := Option.some.inj (hn.2.symm.trans (hname ▸ htime))
      rw [heq] at hlt
      exact absurd hlt (by decide)
  · have hlt := h (fun _ => []) "/".toList (oneFolder (spelled farDay))
      (oneName 1709164805 (spelled farDay)) (by decide) (hx _ _) (by decide) (hdir _) farDay
      (by decide +kernel)
    exact absurd hlt (by decide)

end ConferenceCall.Log

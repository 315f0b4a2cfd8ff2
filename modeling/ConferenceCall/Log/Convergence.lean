import ConferenceCall.Library.Descent
import ConferenceCall.Log.Oldest
import ConferenceCall.Log.Tending

/-! The quota of the log directory. Every pass that finds the directory too large removes an old
entry, and none adds one, so that as many passes as there are old entries are enough. -/

namespace ConferenceCall.Log

open Library Program

variable {sh : Text → List (List Text)} {cwd : Path} {today : ℤ} {s : State} {folder : Text}
  {n : Name}

/-- A time of the current day. -/
theorem midnight_of_fair {t : ℤ} (h : 0 ≤ t ∧ t - t % SEC_PER_DAY = today) : midnight t = today :=
  (midnight_eq h.1).trans h.2

/-- The folder of a time is that of its midnight. -/
theorem pathBuf_midnight (path : Text) (t : ℤ) :
    pathBuf path (t - t % SEC_PER_DAY) = pathBuf path t := by
  have hday : (t - t % SEC_PER_DAY) / SEC_PER_DAY = t / SEC_PER_DAY := by
    simp only [SEC_PER_DAY]
    omega
  simp only [pathBuf, dayName, gmtime, hday]

/-- A round of the loop looks at an entry. -/
theorem handles_scan {D : Path} (oldest : ℤ × Text) (d_name : Name) :
    Handles sh D today (do
      let d_type ← Sys.readdir folder d_name
      return if d_type.isSome then takeOlder folder oldest d_name else oldest)
      (fun a t _ => a = scan s folder oldest d_name ∧ t = s) s := by
  rw [request_bind]
  refine handles_call fun x hx _ => ⟨fun _ _ _ _ hm => hm, assures_pure ⟨?_, rfl⟩⟩
  rw [scan_eq]
  by_cases hproper : Path.Proper d_name
  · cases hnode : s.disk.node (s.disk.path folder ++ [d_name]) <;> simp [act, hproper, hnode]
  · simp [act, hproper]

/-- The old entries are those the loop takes for older than the current day. -/
theorem mem_oldEntries : n ∈ oldEntries (s.disk.path folder) today s.disk ↔
    ∃ time ∈ entryTime s folder n, time < today := by
  unfold entryTime
  split_ifs with h
  · exact ⟨fun hn => hn.2.2, fun hbefore => ⟨h.1, Option.isSome_iff_ne_none.mp h.2, hbefore⟩⟩
  · refine iff_of_false (fun hn => h ⟨hn.1, Option.isSome_iff_ne_none.mpr hn.2.1⟩) ?_
    rintro ⟨time, htime, -⟩
    cases htime

/-- The command without a newline at its end. -/
theorem split_removal (hsh : SplitsWords sh) (hclean : Clean folder)
    (hn : Path.Proper n ∧ Clean n) : sh ("rm -rf ".toList ++ (folder ++ n)) =
      [["rm".toList, "-rf".toList, folder ++ n]] := by
  have hpath : folder ++ n ≠ [] ∧ Clean (folder ++ n) :=
    ⟨by simp [hn.1.1], clean_append.mpr ⟨hclean, hn.2⟩⟩
  have hcommand : "rm -rf ".toList ++ (folder ++ n) =
      [' '].intercalate ["rm".toList, "-rf".toList, folder ++ n] := by
    rw [rm_toList]
    simp only [List.intercalate_cons_cons, List.intercalate_singleton]
    simp only [List.append_assoc, List.cons_append, List.nil_append]
  rw [hcommand]
  exact (hsh _ (List.cons_ne_nil _ _) (clean_rmWords hpath)).1

/-- The oldest entry is removed when it is old. -/
theorem handles_RemoveTheOldestLog (hfolder : Path.Folder folder) (hclean : Clean folder)
    (hsh : SplitsWords sh) (hs : Tended cwd (Path.resolve cwd folder) today s) :
    Handles sh (Path.resolve cwd folder) today (RemoveTheOldestLog folder)
      (fun _ u _ => Tended cwd (Path.resolve cwd folder) today u ∧
        (oldEntries (Path.resolve cwd folder) today u.disk = ∅ ∨
          (oldEntries (Path.resolve cwd folder) today u.disk).encard + 1 ≤
            (oldEntries (Path.resolve cwd folder) today s.disk).encard)) s := by
  simp only [RemoveTheOldestLog, request_bind]
  refine handles_call fun x hx hclock => ⟨fun _ _ _ _ hm => hm, ?_⟩
  have htoday : midnight x.now = today := midnight_of_fair hclock
  refine handles_call fun y hy hlist => ⟨fun _ _ _ _ hm => hm, ?_⟩
  have hdir : s.disk.IsDir (s.disk.path folder) := by
    rw [Disk.path, hs.cwd]
    exact hs.dir
  have hopen : act sh (.opendir folder) y s = (some y.names, s) := by
    simp [act, hy.1, hdir]
  have hclock : act sh .gettimeofday x s = ((x.now, x.usec), s) := rfl
  have hold : oldEntries (Path.resolve cwd folder) today s.disk =
      oldEntries (s.disk.path folder) today s.disk := by rw [Disk.path, hs.cwd]
  have hcomplete (m : Name) (hm : m ∈ oldEntries (s.disk.path folder) today s.disk) :
      m ∈ y.names := by
    refine hlist y.names ?_ m hm.1 hm.2.1
    exact congrArg Prod.fst hopen
  simp only [hclock, hopen, htoday]
  refine assures_bind ((assures_fold handles_scan y.names (today, [])).mono ?_)
  rintro ⟨time, path⟩ t l ⟨hscan, rfl⟩
  have hscanned := scanned t folder today y.names
  rw [← hscan] at hscanned
  dsimp only
  rcases hscanned.found with hnone | ⟨n, ⟨-, hdated⟩, hlt, hpath⟩
  · obtain ⟨rfl, rfl⟩ := Prod.mk.inj hnone
    have hempty : oldEntries (Path.resolve cwd folder) time t.disk = ∅ := by
      rw [hold, Set.eq_empty_iff_forall_notMem]
      intro m hm
      obtain ⟨time', htime', hlt⟩ := mem_oldEntries.mp hm
      exact absurd hlt (not_lt.mpr (hscanned.le m time' ⟨hcomplete m hm, htime'⟩))
    rw [if_neg (fun h => h.1 rfl)]
    exact handles_step trivial hs fun _ u hu hsame => assures_pure ⟨hu, .inl (hsame.trans hempty)⟩
  · obtain rfl : path = folder ++ n := hpath
    have hmem : n ∈ oldEntries (Path.resolve cwd folder) today t.disk := by
      rw [hold]
      exact mem_oldEntries.mpr ⟨time, hdated, hlt⟩
    have hname : Clean n := hs.clean n [] hmem.2.1 n List.mem_cons_self
    have hsplit := split_removal hsh hclean ⟨hmem.1, hname⟩
    rw [if_pos ⟨hlt.ne, by simp [hmem.1.1]⟩]
    refine handles_step trivial hs fun _ u hu hsame => ?_
    refine handles_step trivial hu fun _ v hv hsame' => ?_
    refine handles_call fun z hz _ => ?_
    obtain ⟨hkeeps, hremoved, hgone⟩ := hv.remove hfolder hmem.1 z hmem.2.2 hz hsplit
    refine ⟨hkeeps, handles_step trivial hremoved fun _ w hw hsame'' => ?_⟩
    refine handles_step trivial hw fun _ a ha hsame₃ => assures_pure ⟨ha, .inr ?_⟩
    rw [hsame₃, hsame'', hgone, hsame', hsame, Set.encard_sdiff_singleton_add_one hmem]

/-- The size a pass measured is below the quota. -/
def MeasuredBelow (folder : Text) (l : Trace) : Prop :=
  ∃ size s t, (⟨.ftw folder, size, s, t⟩ : Event Call Call.Answer State) ∈ l ∧ size < 213000000

theorem MeasuredBelow.append_left {l : Trace} (h : MeasuredBelow folder l) (l' : Trace) :
    MeasuredBelow folder (l' ++ l) := by
  obtain ⟨size, s, t, hmem, hsize⟩ := h
  exact ⟨size, s, t, List.mem_append_right l' hmem, hsize⟩

/-- The end of a pass. -/
theorem handles_close {D : Path} (hs : Tended cwd D today s) : Handles sh D today (do
      Sys.close .logFd
      Sys.quiet
      return (0 : ℤ)) (fun _ u _ => Tended cwd D today u ∧
        oldEntries D today u.disk = oldEntries D today s.disk) s := by
  rw [request_bind]
  refine handles_step trivial hs fun _ t ht hsame => ?_
  rw [request_bind]
  exact handles_step trivial ht fun _ u hu hsame' => assures_pure ⟨hu, hsame'.trans hsame⟩

section Pass

variable {path filename : Text} (hpath : path ++ APP_LOG_PATH = folder)
  (hfolder : Path.Folder folder) (hne : folder ≠ []) (hclean : Clean folder)
  (hsh : SplitsWords sh)
include hpath hfolder hne hclean hsh

/-- What a pass does when its log is open. -/
theorem handles_opened {t : ℤ} (ht : midnight t = today)
    (hs : Tended cwd (Path.resolve cwd folder) today s) :
    Handles sh (Path.resolve cwd folder) today (do
      HandleOldLog path t
      let size ← GetTotalFolderSizeMb folder
      if MAX_APLOG_RESERVED_SIZE < size then
        RemoveTheOldestLog folder
      Sys.close .logFd
      Sys.quiet
      return (0 : ℤ))
      (fun _ u l => Tended cwd (Path.resolve cwd folder) today u ∧
        (MeasuredBelow folder l ∨ oldEntries (Path.resolve cwd folder) today u.disk = ∅ ∨
          (oldEntries (Path.resolve cwd folder) today u.disk).encard + 1 ≤
            (oldEntries (Path.resolve cwd folder) today s.disk).encard)) s := by
  refine assures_bind ((handles_HandleOldLog hfolder hclean hsh hpath hne ht hs).mono ?_)
  rintro - u l ⟨hu, hle⟩
  simp only [GetTotalFolderSizeMb, request_bind, call_bind, Program.pure_bind]
  refine handles_call fun x hx _ => ⟨fun _ _ _ _ hm => hm, ?_⟩
  split_ifs with hlarge
  · refine assures_bind ((handles_RemoveTheOldestLog hfolder hclean hsh hu).mono ?_)
    rintro - v l' ⟨hv, hold⟩
    refine (handles_close hv).mono ?_
    rintro - w l'' ⟨hw, hsame⟩
    rw [hsame]
    exact ⟨hw, .inr (hold.imp_right fun hlt => hlt.trans hle)⟩
  · refine (handles_close hu).mono ?_
    rintro - w l' ⟨hw, -⟩
    refine ⟨hw, .inl ⟨_, u, u, List.mem_append_right l List.mem_cons_self, ?_⟩⟩
    -- the megabytes are rounded down
    exact (Nat.div_lt_iff_lt_mul (by decide)).mp (Nat.lt_succ_of_le (not_lt.mp hlarge))

/-- A pass finds the directory below its quota, leaves no old entry or removes one. -/
theorem handles_DBGHandleOldLog (hlog : Loggable (Path.resolve cwd folder) today
      (Path.resolve cwd (pathBuf path today ++ filename)))
    (hs : Tended cwd (Path.resolve cwd folder) today s) :
    Handles sh (Path.resolve cwd folder) today (DBGHandleOldLog path filename)
      (fun _ u l => Tended cwd (Path.resolve cwd folder) today u ∧
        (MeasuredBelow folder l ∨ oldEntries (Path.resolve cwd folder) today u.disk = ∅ ∨
          (oldEntries (Path.resolve cwd folder) today u.disk).encard + 1 ≤
            (oldEntries (Path.resolve cwd folder) today s.disk).encard)) s := by
  simp only [DBGHandleOldLog, request_bind, hpath]
  refine handles_call fun x hx hclock => ⟨fun _ _ _ _ hm => hm, ?_⟩
  refine handles_call fun y hy _ => ⟨fun _ _ _ _ hm => hm, ?_⟩
  refine handles_call fun z hz hopened => ?_
  have hopens : Call.Tends sh cwd (Path.resolve cwd folder) today
      (.openFile .logFd (pathBuf path x.now ++ filename) true true) := by
    rw [← pathBuf_midnight path x.now]
    exact hclock.2.symm ▸ hlog
  obtain ⟨ht, hspared⟩ := hs.of_act sh z hopens
  have htrue : (act sh (.openFile .logFd (pathBuf path x.now ++ filename) true true) z s).1 = true :=
    hopened
  refine ⟨hspared.keepsLater, ?_⟩
  rw [if_neg (by rw [Bool.not_eq_true', Bool.not_eq_false]; exact htrue)]
  refine (handles_opened hpath hfolder hne hclean hsh (midnight_of_fair hclock) ht).mono ?_
  rintro - u l ⟨hu, hl⟩
  rw [hspared.oldEntries_eq] at hl
  exact ⟨hu, hl.imp_left fun h => h.append_left [_, _, _]⟩

end Pass

section Runs

variable (sh : Text → List (List Text)) (path filename : Text)

/-- A pass over the log directory. -/
def quotaPass : Step (ℕ → Choice) State (Outcome State (Event Call Call.Answer State) ℤ) :=
  fun x s => invoke sh (DBGHandleOldLog path filename, x) s

/-- The calls of a pass. -/
def quotaCalls (x : ℕ → Choice) (s : State) : Trace :=
  ((DBGHandleOldLog path filename).exec (perform sh) x s).calls

/-- All calls of a pass succeed, on the current day. -/
def GoodPass (today : ℤ) (x : ℕ → Choice) (s : State) : Prop :=
  (∀ k, (x k).Succeeds) ∧ ∀ e ∈ quotaCalls sh path filename x s, Fair today e

/-- A pass finds the directory below its quota, or leaves no old entry. -/
def QuotaMet (D : Path) (today : ℤ) (x : ℕ → Choice) (s : State) : Prop :=
  MeasuredBelow (path ++ APP_LOG_PATH) (quotaCalls sh path filename x s) ∨
    oldEntries D today (quotaPass sh path filename x s).1.disk = ∅

variable {sh path filename}

/-- What a pass keeps and what it reaches. -/
theorem quotaPass_spec {D : Path} (hD : D = Path.resolve cwd (path ++ APP_LOG_PATH))
    (hsh : SplitsWords sh) (hclean : Clean path)
    (hlog : Loggable D today (Path.resolve cwd (pathBuf path today ++ filename)))
    {x : ℕ → Choice} (hs : Tended cwd D today s) (hx : GoodPass sh path filename today x s) :
    Tended cwd D today (quotaPass sh path filename x s).1 ∧
      (QuotaMet sh path filename D today x s ∨
        (oldEntries D today (quotaPass sh path filename x s).1.disk).encard + 1 ≤
          (oldEntries D today s.disk).encard) ∧
      ∀ e ∈ quotaCalls sh path filename x s, KeepsLater D today e := by
  subst hD
  have happ : APP_LOG_PATH = "/APLog".toList ++ ['/'] := rfl
  have hfolder : Path.Folder (path ++ APP_LOG_PATH) :=
    .inr ⟨path ++ "/APLog".toList, by rw [happ, List.append_assoc]⟩
  have hne : path ++ APP_LOG_PATH ≠ [] := by simp [happ]
  have hname : Clean (path ++ APP_LOG_PATH) := clean_append.mpr ⟨hclean, by decide⟩
  obtain ⟨⟨a, -, ht, hresult⟩, hkeeps⟩ :=
    handles_DBGHandleOldLog rfl hfolder hne hname hsh hlog hs x hx.1 hx.2
  refine ⟨⟨ht.cwd, ht.dir, ht.clean, by simp [quotaPass, invoke]⟩, ?_, hkeeps⟩
  rcases hresult with hbelow | hnone | hless
  · exact .inl (.inl hbelow)
  · exact .inl (.inr hnone)
  · exact .inr hless

/-- From the Epoch on, when the log of the passes is no old entry of the log directory itself, one of
the first `n + 1` passes over a directory with `n` old entries finds it below its quota or leaves no
old entry, and no pass removes an entry of its day or a later one. -/
theorem quota_converges (hsh : SplitsWords sh) {d : Disk} {D : Path} {n : ℕ}
    {xs : List (ℕ → Choice)} (hD : D = d.path (path ++ APP_LOG_PATH)) (hdir : d.IsDir D)
    (hclean : Clean path) (hnames : ∀ m r, d.node (D ++ m :: r) ≠ none → ∀ k ∈ m :: r, Clean k)
    (hlog : Loggable D today (d.path (pathBuf path today ++ filename)))
    (hold : (oldEntries D today d).encard = n)
    (hxs : (quotaPass sh path filename).Along (GoodPass sh path filename today) xs { disk := d }) :
    (n < xs.length → ∃ l₁ x l₂, xs = l₁ ++ x :: l₂ ∧ l₁.length ≤ n ∧
      QuotaMet sh path filename D today x
        ((quotaPass sh path filename).run l₁ { disk := d }).1) ∧
    (quotaPass sh path filename).Along
      (fun x s => ∀ e ∈ quotaCalls sh path filename x s, KeepsLater D today e) xs { disk := d } := by
  have hs : Tended d.cwd D today { disk := d } := ⟨rfl, hdir, hnames, by simp⟩
  refine ⟨fun hlen => ?_, ?_⟩
  · refine Step.exists_good_of_rank (fun s => (oldEntries D today s.disk).encard)
      (fun x s hs hx => ?_) hs hxs hold.le hlen
    obtain ⟨ht, hresult, -⟩ := quotaPass_spec hD hsh hclean hlog hs hx
    exact ⟨ht, hresult⟩
  · refine Step.along_of_step (fun x s hs hx => ?_) xs _ hs hxs
    obtain ⟨ht, -, hkeeps⟩ := quotaPass_spec hD hsh hclean hlog hs hx
    exact ⟨ht, hkeeps⟩

end Runs

section Examples

/-- The folder of a day with a log, and the archive of the day before. -/
def quotaDisk (size : ℕ) : Disk where
  cwd := []
  node p :=
    if p = ["tmp".toList] ∨ p = ["tmp".toList, "APLog".toList] ∨
        p = ["tmp".toList, "APLog".toList, "2024-02-29".toList] then some .dir
    else if p = ["tmp".toList, "APLog".toList, "2024-02-29".toList, "a.txt".toList] then
      some (.file [])
    else if p = ["tmp".toList, "APLog".toList, "2024-02-28.tgz".toList] then
      some (.file [.archive size fun _ => none])
    else none

/-- The clock of the day and what the directories hold. -/
def quotaChoice (k : ℕ) : Choice where
  now := 1709200000
  names := if k = 5 then ["a.txt".toList] else ["2024-02-29".toList, "2024-02-28.tgz".toList]
  walk := [["tmp".toList, "APLog".toList, "2024-02-28.tgz".toList]]

theorem names_quotaDisk {size : ℕ} {r : Path}
    (h : (quotaDisk size).node (["tmp".toList, "APLog".toList] ++ n :: r) ≠ none) :
    n = "2024-02-29".toList ∧ (r = [] ∨ r = ["a.txt".toList]) ∨
      n = "2024-02-28.tgz".toList ∧ r = [] := by
  unfold quotaDisk at h
  simp only [List.cons_append, List.nil_append, List.cons.injEq, true_and, List.cons_ne_nil, and_false,
    false_or] at h
  split_ifs at h with hday hlog harchive
  · exact .inl ⟨hday.1, .inl hday.2⟩
  · exact .inl ⟨hlog.1, .inr hlog.2⟩
  · exact .inr harchive
  · exact absurd rfl h

theorem oldEntries_quotaDisk (size : ℕ) : oldEntries ["tmp".toList, "APLog".toList] 1709164800
    (quotaDisk size) = {"2024-02-28.tgz".toList} := by
  have hyoung : folderTime "2024-02-29".toList = some 1709164800 := by decide +kernel
  have hold : folderTime "2024-02-28.tgz".toList = some 1709078400 := by decide +kernel
  ext n
  constructor
  · rintro ⟨-, hnode, time, htime, hlt⟩
    rcases names_quotaDisk hnode with ⟨rfl, -⟩ | ⟨rfl, -⟩
    · rw [hyoung] at htime
      cases htime
      exact absurd hlt (lt_irrefl _)
    · rfl
  · rintro rfl
    exact ⟨by decide, Option.some_ne_none (Node.file [.archive size fun _ => none]), 1709078400,
      hold, by decide⟩

/-- A pass over this directory, its log open. -/
def quotaOpened : State :=
  ({ disk := quotaDisk 100 } : State).setOpen .logFd
    (some ⟨["tmp".toList, "APLog".toList, "2024-02-29".toList, "a.txt".toList], true⟩)

theorem quotaPass_quotaDisk : (quotaPass splitWords "/tmp".toList "a.txt".toList quotaChoice
    { disk := quotaDisk 100 }).1 = { disk := quotaDisk 100 } := by
  with_unfolding_all rfl

theorem goodPass_quotaDisk : GoodPass splitWords "/tmp".toList "a.txt".toList 1709164800 quotaChoice
    { disk := quotaDisk 100 } := by
  refine ⟨fun k => ⟨rfl, fun _ => rfl⟩, ?_⟩
  have hcalls : quotaCalls splitWords "/tmp".toList "a.txt".toList quotaChoice
      { disk := quotaDisk 100 } =
      [event splitWords .gettimeofday (quotaChoice 0) { disk := quotaDisk 100 },
        event splitWords .quiet (quotaChoice 1) { disk := quotaDisk 100 },
        event splitWords (.openFile .logFd "/tmp//APLog//2024-02-29/a.txt".toList true true)
          (quotaChoice 2) { disk := quotaDisk 100 },
        event splitWords (.opendir "/tmp/APLog/".toList) (quotaChoice 3) quotaOpened,
        event splitWords (.readdir "/tmp/APLog/".toList "2024-02-29".toList) (quotaChoice 4)
          quotaOpened,
        event splitWords (.opendir "/tmp/APLog/2024-02-29".toList) (quotaChoice 5) quotaOpened,
        event splitWords (.readdir "/tmp/APLog/2024-02-29".toList "a.txt".toList) (quotaChoice 6)
          quotaOpened,
        event splitWords (.stat "/tmp/APLog/2024-02-29/a.txt".toList) (quotaChoice 7) quotaOpened,
        event splitWords .quiet (quotaChoice 8) quotaOpened,
        event splitWords (.readdir "/tmp/APLog/".toList "2024-02-28.tgz".toList) (quotaChoice 9)
          quotaOpened,
        event splitWords .quiet (quotaChoice 10) quotaOpened,
        event splitWords (.ftw "/tmp/APLog/".toList) (quotaChoice 11) quotaOpened,
        event splitWords (.close .logFd) (quotaChoice 12) quotaOpened,
        event splitWords .quiet (quotaChoice 13) (quotaOpened.setOpen .logFd none)] := by
    with_unfolding_all rfl
  rw [hcalls]
  simp only [List.forall_mem_cons]
  refine ⟨⟨by decide, by decide⟩, trivial, rfl, ?_, trivial, ?_, trivial, trivial, trivial, trivial,
    trivial, trivial, trivial, trivial, by simp⟩
  · intro l hl n _ hnode
    obtain rfl : ["2024-02-29".toList, "2024-02-28.tgz".toList] = l := Option.some.inj hl
    have hpath : (quotaDisk 100).path "/tmp/APLog/".toList = ["tmp".toList, "APLog".toList] := by
      decide
    have hnode' : (quotaDisk 100).node ((quotaDisk 100).path "/tmp/APLog/".toList ++ [n]) ≠ none :=
      hnode
    rw [hpath] at hnode'
    rcases names_quotaDisk hnode' with ⟨rfl, -⟩ | ⟨rfl, -⟩
    · exact List.mem_cons_self
    · exact List.mem_cons_of_mem _ List.mem_cons_self
  · intro l hl n _ hnode
    obtain rfl : ["a.txt".toList] = l := Option.some.inj hl
    have hpath : (quotaDisk 100).path "/tmp/APLog/2024-02-29".toList =
        ["tmp".toList, "APLog".toList, "2024-02-29".toList] := by decide
    have hnode' : (quotaDisk 100).node
        ((quotaDisk 100).path "/tmp/APLog/2024-02-29".toList ++ [n]) ≠ none := hnode
    rw [hpath] at hnode'
    rcases names_quotaDisk hnode' with ⟨-, hn | hn⟩ | ⟨-, hn⟩
    · cases hn
    · exact hn ▸ List.mem_cons_self
    · cases hn

/-- Two passes over this directory. -/
theorem quota_converges_quotaDisk :
    (1 < [quotaChoice, quotaChoice].length → ∃ l₁ x l₂, [quotaChoice, quotaChoice] = l₁ ++ x :: l₂ ∧
      l₁.length ≤ 1 ∧ QuotaMet splitWords "/tmp".toList "a.txt".toList ["tmp".toList, "APLog".toList]
        1709164800 x ((quotaPass splitWords "/tmp".toList "a.txt".toList).run l₁
          { disk := quotaDisk 100 }).1) ∧
    (quotaPass splitWords "/tmp".toList "a.txt".toList).Along (fun x s =>
      ∀ e ∈ quotaCalls splitWords "/tmp".toList "a.txt".toList x s,
        KeepsLater ["tmp".toList, "APLog".toList] 1709164800 e)
          [quotaChoice, quotaChoice] { disk := quotaDisk 100 } := by
  refine quota_converges splits_splitWords (by decide) (.inr trivial) (by decide) ?_ ?_ ?_ ?_
  · intro m r h
    have hday : Clean "2024-02-29".toList := by decide
    have hlog : Clean "a.txt".toList := by decide
    have harchive : Clean "2024-02-28.tgz".toList := by decide
    rcases names_quotaDisk h with ⟨rfl, rfl | rfl⟩ | ⟨rfl, rfl⟩
    · simpa using hday
    · simpa using ⟨hday, hlog⟩
    · simpa using harchive
  · have hpath : (quotaDisk 100).path (pathBuf "/tmp".toList 1709164800 ++ "a.txt".toList) =
        ["tmp".toList, "APLog".toList] ++ ["2024-02-29".toList, "a.txt".toList] := by decide +kernel
    rw [hpath]
    exact loggable_file (by decide) (by decide)
  · rw [oldEntries_quotaDisk, Set.encard_singleton]
    rfl
  · rw [Step.along_cons, quotaPass_quotaDisk, Step.along_cons, quotaPass_quotaDisk]
    exact ⟨goodPass_quotaDisk, goodPass_quotaDisk, Step.along_nil _ _⟩

/-- A log directory of empty folders. -/
def foldersDisk (names : List Name) : Disk where
  cwd := []
  node p :=
    if p = ["tmp".toList] ∨ p = ["tmp".toList, "APLog".toList] ∨
        ∃ n ∈ names, p = ["tmp".toList, "APLog".toList, n] then some .dir
    else none

/-- A pass over this directory. -/
def foldersChoice (now : ℤ) (names : List Name) : Choice where
  now := now
  names := names

/-- A folder of the log directory is removed. -/
def removesFolder (d_name : Name) (e : Event Call Call.Answer State) : Bool :=
  (e.before.disk.node ["tmp".toList, "APLog".toList, d_name]).isSome &&
    (e.after.disk.node ["tmp".toList, "APLog".toList, d_name]).isNone

/-- What the directories hold when the log of the pass is one more old entry. -/
def loggedChoice (k : ℕ) : Choice where
  now := 1709200000
  names := if k = 5 then []
    else ["2024-02-29".toList, "2024-02-28.tgz".toList, "2024-02-01".toList]
  walk := [["tmp".toList, "APLog".toList, "2024-02-28.tgz".toList]]

/-- A size that is measured is not below the quota. -/
def measuresLarge : Event Call Call.Answer State → Bool
  | ⟨.ftw _, size, _, _⟩ => 213000000 ≤ size
  | _ => true

theorem not_measuredBelow {l : Trace} (h : l.all measuresLarge = true) :
    ¬MeasuredBelow folder l := by
  rintro ⟨size, s, t, hmem, hsize⟩
  have hle := List.all_eq_true.mp h _ hmem
  exact absurd hsize (not_lt.mpr (of_decide_eq_true hle))

/-- A second before the Epoch the folder of the day is removed. On a leap day a folder is removed
that spells a later date, whose year is stored as the current one. Passes that log to an entry older
than all others remove this entry each time. -/
theorem quota_missed :
    (¬∀ e ∈ quotaCalls splitWords "/tmp".toList "a.txt".toList
      (fun _ => foldersChoice (-1) ["1969-12-31".toList])
        { disk := foldersDisk ["1969-12-31".toList] },
        KeepsLater ["tmp".toList, "APLog".toList] (-1 - -1 % SEC_PER_DAY) e) ∧
    (1709164800 ≤ farDay.days * SEC_PER_DAY ∧
      ∃ e ∈ quotaCalls splitWords "/tmp".toList "a.txt".toList
        (fun _ => foldersChoice 1709164805 ["2024-02-29".toList, spelled farDay])
          { disk := foldersDisk ["2024-02-29".toList, spelled farDay] },
            removesFolder (spelled farDay) e) ∧
    (oldEntries ["tmp".toList, "APLog".toList] 1709164800 (quotaDisk 213000000)).encard = 1 ∧
    ¬∃ l₁ x l₂, [loggedChoice, loggedChoice] = l₁ ++ x :: l₂ ∧ l₁.length ≤ 1 ∧
      QuotaMet splitWords "/tmp".toList "../2024-02-01".toList ["tmp".toList, "APLog".toList]
        1709164800 x ((quotaPass splitWords "/tmp".toList "../2024-02-01".toList).run l₁
          { disk := quotaDisk 213000000 }).1 := by
  refine ⟨fun h => ?_, ⟨by decide, ?_⟩, by rw [oldEntries_quotaDisk, Set.encard_singleton], ?_⟩
  · have htime : folderTime "1969-12-31".toList = some (-86400) := by decide +kernel
    have hremoved : (quotaCalls splitWords "/tmp".toList "a.txt".toList
        (fun _ => foldersChoice (-1) ["1969-12-31".toList])
          { disk := foldersDisk ["1969-12-31".toList] }).any (removesFolder "1969-12-31".toList) =
        true := by
      decide +kernel
    obtain ⟨e, he, hgone⟩ := List.any_eq_true.mp hremoved
    rw [removesFolder, Bool.and_eq_true, Option.isSome_iff_ne_none,
      Option.isNone_iff_eq_none] at hgone
    exact h e he "1969-12-31".toList (-86400) htime (by decide) hgone.1 hgone.2
  · exact List.any_eq_true.mp (by decide +kernel)
  · have hmissed (s : State) (hsize : (quotaCalls splitWords "/tmp".toList "../2024-02-01".toList
          loggedChoice s).all measuresLarge = true)
        (hnode : ((quotaPass splitWords "/tmp".toList "../2024-02-01".toList loggedChoice
          s).1.disk.node (["tmp".toList, "APLog".toList] ++ ["2024-02-28.tgz".toList])).isSome = true) :
        ¬QuotaMet splitWords "/tmp".toList "../2024-02-01".toList ["tmp".toList, "APLog".toList]
          1709164800 loggedChoice s := by
      have htime : folderTime "2024-02-28.tgz".toList = some 1709078400 := by decide +kernel
      rintro (hbelow | hempty)
      · exact not_measuredBelow hsize hbelow
      · refine Set.eq_empty_iff_forall_notMem.mp hempty "2024-02-28.tgz".toList ⟨by decide, ?_, ?_⟩
        · exact Option.isSome_iff_ne_none.mp hnode
        · exact ⟨1709078400, htime, by decide⟩
    rintro ⟨_ | ⟨y, _ | ⟨z, l₁⟩⟩, x, l₂, hl, hlen, hmet⟩
    · obtain ⟨rfl, -⟩ := List.cons.inj hl
      exact hmissed _ (by decide +kernel) (by decide +kernel) hmet
    · obtain ⟨rfl, hl'⟩ := List.cons.inj hl
      obtain ⟨rfl, -⟩ := List.cons.inj hl'
      exact hmissed _ (by decide +kernel) (by decide +kernel) hmet
    · simp at hlen

end Examples

end ConferenceCall.Log

import ConferenceCall.Log.Mkdirs
import ConferenceCall.Log.Oldest

/-! The names of day folders and their ageing. A line goes to the folder of the day it is written
on. The pass over the log directory reads the day back from the name, and packs the folder, passes
it on or leaves it alone. -/

namespace ConferenceCall.Log

open Library Program

theorem proper_dayName (u : ℤ) : Path.Proper (dayName u) := by
  obtain ⟨s, c, hs, -⟩ := Decimal.print_concat 2 (gmtime u).tm_mday
  have hlen : 2 < (dayName u).length := by
    simp only [dayName, hs, List.length_append, List.length_cons, List.length_nil]
    omega
  exact proper_of_length hlen (by simp [dayName, Decimal.print_ne_slash])

/-- The folder a line is written to is an entry of the log directory. -/
theorem resolve_pathBuf (cwd : Path) (path : Text) (u : ℤ)
    (hlen : (path ++ '/' :: APP_LOG_PATH ++ '/' :: dayName u ++ ['/']).length ≤ 255) :
    Path.resolve cwd (pathBuf path u) = Path.resolve cwd (path ++ APP_LOG_PATH) ++ [dayName u] := by
  have hname : Path.Proper "APLog".toList := by decide
  have hsplit {n : Name} (h : Path.Proper n) (s : Text) :
      (n ++ '/' :: s).splitOn '/' = n :: s.splitOn '/' := by
    rw [List.splitOn_append_cons_self, List.splitOn_eq_singleton h.2.2.2, List.singleton_append]
  have hslash (s : Text) : ('/' :: s).splitOn '/' = [] :: s.splitOn '/' :=
    List.splitOn_append_cons_self [] s
  have happ : APP_LOG_PATH = '/' :: ("APLog".toList ++ ['/']) := rfl
  have hbuf : pathBuf path u =
      path ++ '/' :: '/' :: ("APLog".toList ++ '/' :: '/' :: (dayName u ++ ['/'])) := by
    rw [pathBuf, snprintf, List.take_of_length_le hlen, happ]
    simp only [List.append_assoc, List.cons_append, List.nil_append]
  rw [hbuf, happ, Path.resolve_append cwd path ('/' :: _), hslash, hsplit hname, hslash,
    hsplit (proper_dayName u), Path.resolve_append cwd path ("APLog".toList ++ ['/']), hsplit hname,
    List.splitOn_nil]
  simp only [Path.descend_nil, Path.descend_proper hname, Path.descend_proper (proper_dayName u)]
  rfl

/-- The file a line is written to. -/
theorem path_pathBuf (d : Disk) {path filename : Text} {u : ℤ} (hn : Path.Proper filename)
    (hlen : (path ++ '/' :: APP_LOG_PATH ++ '/' :: dayName u ++ ['/']).length ≤ 255) :
    d.path (pathBuf path u ++ filename) = d.path (pathBuf path u) ++ [filename] := by
  refine Path.resolve_proper d.cwd (.inr ⟨path ++ '/' :: APP_LOG_PATH ++ '/' :: dayName u, ?_⟩) hn
  rw [pathBuf, snprintf, List.take_of_length_le hlen]

/-- Making directories opens no file. -/
theorem makes_mkdirs {P : Call → Prop} (haccess : ∀ p, P (.access p)) (hmkdir : ∀ p, P (.mkdir p))
    (muldir : Text) : Makes P (mkdirs muldir) := by
  have hmissing (str : Text) : Makes P (makeMissing str) := by
    refine Makes.bind (Makes.request (haccess str)) fun found => ?_
    cases found
    · exact Makes.bind (Makes.request (hmkdir str)) fun _ => Makes.pure ()
    · exact Makes.pure ()
  refine Makes.bind (Makes.each fun str _ => hmissing str) fun _ => ?_
  split
  · exact hmissing muldir
  · exact Makes.pure ()

theorem makes_publishTo {P : Call → Prop} {newPath filename newLog : Text}
    (hmkdirs : Makes P (mkdirs newPath)) (hopen : P (.openFile .logFd (newPath ++ filename) true true))
    (hwrite : P (.write .logFd newLog)) (hclose : P (.close .logFd)) (hquiet : P .quiet) :
    Makes P (publishTo newPath filename newLog) := by
  refine hmkdirs.bind fun _ => ⟨hopen, fun opened => ?_⟩
  cases opened
  · exact ⟨hquiet, fun _ => trivial⟩
  · exact ⟨hwrite, fun _ => ⟨hclose, fun _ => ⟨hquiet, fun _ => trivial⟩⟩⟩

variable (sh : Text → List (List Text))

/-! ### Writing -/

/-- A line is written to the file of the day the clock shows. -/
theorem logAndPublish_opens (stamp : ℤ × ℕ → Text) (dbgStr path filename : Text) (x : ℕ → Choice)
    (s : State) : ∀ e ∈ ((logAndPublish stamp (some dbgStr) path filename).exec (perform sh) x s).calls,
      ∀ f p creates appends, e.call = .openFile f p creates appends →
        p = pathBuf path (x 1).now ++ filename := by
  let P (c : Call) : Prop := ∀ f p creates appends, c = .openFile f p creates appends →
    p = pathBuf path (x 1).now ++ filename
  have hpublish (newLog : Text) : Makes P (publishTo (pathBuf path (x 1).now) filename newLog) :=
    makes_publishTo (makes_mkdirs (by simp [P]) (by simp [P]) _) (by simp [P]) (by simp [P])
      (by simp [P]) (by simp [P])
  have hrest (newLog : Text) : Makes P (do
      Sys.stderr newLog
      publishTo (pathBuf path (x 1).now) filename newLog) :=
    ⟨by simp [P], fun _ => hpublish newLog⟩
  intro e he
  rcases mem_calls sh he with rfl | he
  · simp [event]
  rcases mem_calls sh he with rfl | he
  · simp [event]
  · exact (hrest _).exec _ _ _ e he

/-- The parts of a call that publishes a line. -/
theorem exec_logAndPublish {x : ℕ → Choice} (hx : ∀ k, (x k).Succeeds) (stamp : ℤ × ℕ → Text)
    (dbgStr path filename : Text) (s : State) :
    (logAndPublish stamp (some dbgStr) path filename).exec (perform sh) x s =
      ((publishTo (pathBuf path (x 1).now) filename
        (stamp ((x 1).now, (x 1).usec) ++ dbgStr)).exec (perform sh) (fun n => x (n + 3)) s).after
          [event sh .quiet (x 0) s, event sh .gettimeofday (x 1) s,
            event sh (.stderr (stamp ((x 1).now, (x 1).usec) ++ dbgStr)) (x 2) s] := by
  have hruns (k : ℕ) : (x k).fate ≠ .stops := by simp [(hx k).1]
  simp only [logAndPublish, request_bind]
  rw [exec_call, if_neg (hruns 0), exec_call, if_neg (hruns 1), exec_call, if_neg (hruns 2)]
  rfl

/-- The folder of a day is there or can be made, and no directory is in the place of the file. -/
structure Publishable (newPath filename : Text) (d : Disk) : Prop where
  tree : d.IsTree
  way : ∀ t, Passes newPath t → ∀ c, d.node (d.path t) ≠ some (.file c)
  aside : ∀ t, Passes newPath t → d.path t ≠ d.path newPath ++ [filename]
  free : d.node (d.path newPath ++ [filename]) ≠ some .dir
  proper : Path.Proper filename

variable {sh} {s : State} {newPath filename newLog : Text}

/-- Behind the making of its folder a file is there as before, or it can be made. -/
theorem Publishable.ready {t : State} (h : Publishable newPath filename s.disk)
    (hfolder : s.disk.path (newPath ++ filename) = s.disk.path newPath ++ [filename])
    (hdirs : ∀ u, Passes newPath u → t.disk.IsDir (s.disk.path u))
    (hmaking : Making newPath s.disk t.disk) :
    t.disk.lookup (newPath ++ filename) =
        (s.disk.content (s.disk.path newPath ++ [filename])).map .file ∧
      (s.disk.content (s.disk.path newPath ++ [filename]) = none →
        t.disk.Creatable (newPath ++ filename)) := by
  have hlast : (newPath ++ filename).getLast? ≠ some '/' := by
    obtain ⟨hne, -, -, hslash⟩ := h.proper
    rw [List.getLast?_append_of_ne_nil _ hne]
    exact fun hc => hslash (List.mem_of_getLast? hc)
  have hpath : t.disk.path (newPath ++ filename) = s.disk.path newPath ++ [filename] :=
    (hmaking.grows.path _).trans hfolder
  cases hnode : s.disk.node (s.disk.path newPath ++ [filename]) with
  | some node =>
    cases node with
    | dir => exact absurd hnode h.free
    | file c =>
      have hcontent := Disk.content_eq_some.mpr hnode
      have hsame : t.disk.node (s.disk.path newPath ++ [filename]) = some (.file c) := by
        rcases hmaking.grows.node (s.disk.path newPath ++ [filename]) with hsame | ⟨hnone, -⟩
        · rw [hsame, hnode]
        · rw [hnode] at hnone
          cases hnone
      rw [hcontent]
      exact ⟨Disk.lookup_file hlast (hpath ▸ hsame), fun hc => by cases hc⟩
  | none =>
    have hcontent : s.disk.content (s.disk.path newPath ++ [filename]) = none := by
      rw [Disk.content, hnode]
    have hnone : t.disk.node (s.disk.path newPath ++ [filename]) = none := by
      rcases hmaking.grows.node (s.disk.path newPath ++ [filename]) with hsame | ⟨-, -, u, hu, hp⟩
      · rw [hsame, hnode]
      · exact absurd hp.symm (h.aside u hu)
    rw [hcontent]
    refine ⟨Disk.lookup_none (hpath ▸ hnone), fun _ => ⟨hpath ▸ hnone, hlast, ?_, ?_⟩⟩
    · rw [hpath]
      exact List.append_ne_nil_of_right_ne_nil _ (List.cons_ne_nil _ _)
    · rw [hpath, List.dropLast_concat]
      exact hdirs newPath (.inl rfl)

/-- When the calls succeed, the line stands at the end of its file. -/
theorem yields_publishTo (h : Publishable newPath filename s.disk)
    (hfolder : s.disk.path (newPath ++ filename) = s.disk.path newPath ++ [filename]) :
    Yields sh (publishTo newPath filename newLog) (fun a t => a = 0 ∧
      t.disk.content (s.disk.path newPath ++ [filename]) =
        some ((s.disk.content (s.disk.path newPath ++ [filename])).getD [] ++
          Item.ofText newLog)) s := by
  refine yields_bind ((mkdirs_makes h.tree h.way).mono ?_)
  rintro - t ⟨hdirs, hmaking, -⟩
  obtain ⟨hlookup, hnew⟩ := h.ready hfolder hdirs hmaking
  have hpath : t.disk.path (newPath ++ filename) = s.disk.path newPath ++ [filename] :=
    (hmaking.grows.path _).trans hfolder
  refine yields_call fun x hx => ?_
  cases hcontent : s.disk.content (s.disk.path newPath ++ [filename]) with
  | some c =>
    rw [hcontent, Option.map_some] at hlookup
    have hnode := Disk.node_of_lookup hlookup
    rw [act_openFile_file (by simp [hx.1]) hlookup]
    refine yields_call fun y hy => ?_
    rw [act_write hy.1 (target_setOpen hnode), hpath]
    refine yields_call fun _ _ => yields_call fun _ _ => yields_pure ⟨rfl, ?_⟩
    simp [act, State.setOpen, Disk.content]
  | none =>
    rw [act_openFile_new (by simp [hx.1]) (hnew hcontent)]
    refine yields_call fun y hy => ?_
    rw [act_write hy.1 (target_setOpen (Disk.put_node_self ..)), hpath]
    refine yields_call fun _ _ => yields_call fun _ _ => yields_pure ⟨rfl, ?_⟩
    simp [act, State.setOpen, Disk.content]

/-! ### The pass -/

/-- A command that packs or removes a file of a folder. -/
def Concerns (folderPath cmd : Text) : Prop :=
  ∃ m, cmd = tarCommand (folderPath ++ '/' :: m) ∨ cmd = rmCommand (folderPath ++ '/' :: m)

/-- The pass over the folder of the current day has no other commands. -/
theorem concerns_HandleCurrentApLogFolder (folderPath : Text) :
    Makes (fun c => ∀ cmd ∈ c.command, Concerns folderPath cmd)
      (HandleCurrentApLogFolder folderPath) := by
  have hquiet {c : Call} (hc : c.command = none) : ∀ cmd ∈ c.command, Concerns folderPath cmd := by
    simp [hc]
  have hrotates (p : Text) : Makes (fun c => ∀ cmd ∈ c.command, Concerns folderPath cmd)
      (BackupLogFile p) := by
    refine (rotates_BackupLogFile p).mono fun c hc => hquiet ?_
    cases c with
    | system command => exact hc.elim
    | _ => rfl
  have hvisit (d_name : Name) : Makes (fun c => ∀ cmd ∈ c.command, Concerns folderPath cmd)
      (visitFile folderPath d_name) := by
    simp only [visitFile, request_bind]
    refine ⟨hquiet rfl, fun d_type => ?_⟩
    dsimp only
    split_ifs
    · simp only [HandleFile, compress, get_file_size, request_bind, call_bind, Program.pure_bind]
      split_ifs
      · exact ⟨hquiet rfl, fun _ => ⟨fun cmd hc => ⟨d_name, .inl (Option.some.inj hc).symm⟩,
          fun _ => ⟨hquiet rfl, fun _ => ⟨fun cmd hc => ⟨d_name, .inr (Option.some.inj hc).symm⟩,
            fun _ => ⟨hquiet rfl, fun _ => trivial⟩⟩⟩⟩⟩
      · refine ⟨hquiet rfl, fun size => ?_⟩
        dsimp only
        split_ifs
        · exact ⟨hquiet rfl, fun _ => hrotates _⟩
        · trivial
    · trivial
  refine ⟨hquiet rfl, fun names => ?_⟩
  cases names with
  | none => exact ⟨hquiet rfl, fun _ => trivial⟩
  | some names =>
    exact (Makes.each fun d_name _ => hvisit d_name).bind fun _ => ⟨hquiet rfl, fun _ => trivial⟩

/-- The command that packs a whole folder is none of them. -/
theorem not_concerns_tarFolder (apLogFolder : Text) (d_name : Name) :
    ¬Concerns (apLogFolder ++ d_name) (tarFolderCommand apLogFolder d_name) := by
  have htar (a b b' c m s s' : Text) : a ++ apLogFolder ++ d_name ++ '.' :: b ++ apLogFolder ++
      ' ' :: d_name ++ s ≠ a ++ (apLogFolder ++ d_name ++ '/' :: m) ++ b' ++ c ++ s' := by
    intro h
    simp only [List.append_assoc, List.append_cancel_left_eq, List.cons_append] at h
    exact absurd (List.cons.inj h).1 (by decide)
  rintro ⟨m, h | h⟩
  · exact htar "tar zcf ".toList "tgz -C ".toList ".tgz ".toList _ m "\n".toList "\n".toList h
  · have hhead : some 't' = some 'r' := congrArg List.head? h
    exact absurd hhead (by decide)

theorem records_archiveFolder (apLogFolder timeString : Text) (t : ℤ) (d_name : Name) :
    Records Call.command (archiveFolder apLogFolder timeString t d_name)
      [tarFolderCommand apLogFolder d_name, rmCommand (apLogFolder ++ d_name)] := by
  simp only [archiveFolder, request_bind]
  refine .skip rfl fun _ => .skip rfl fun _ => .skip rfl fun _ => .mark rfl fun _ => ?_
  exact .skip rfl fun _ => .skip rfl fun _ => .mark rfl fun _ => .skip rfl fun _ => rfl

variable (sh)

/-- What a pass at `t` does with the folder of the day of `u`; `l` is what it calls after its look
at the entry. -/
structure Ages (apLogFolder : Text) (u t : ℤ) (s : State) (l : Trace) : Prop where
  archived : commands l =
      [tarFolderCommand apLogFolder (dayName u), rmCommand (apLogFolder ++ dayName u)] ↔
    u / 86400 < t / 86400
  current : (∃ x, ((HandleCurrentApLogFolder (apLogFolder ++ dayName u)).exec (perform sh) x s).value =
        some () ∧
      l = ((HandleCurrentApLogFolder (apLogFolder ++ dayName u)).exec (perform sh) x s).calls) ↔
    u / 86400 = t / 86400
  left : l = [] ↔ t / 86400 < u / 86400

/-- A pass that comes to its end does this with the folder, wherever the directory lists it. -/
def AgesByDay (path : Text) (u t : ℤ) : Prop :=
  ∀ (x : ℕ → Choice) (s : State) (l₁ l₂ : List Name),
    (x 0).names = l₁ ++ dayName u :: l₂ → (x 0).fate ≠ .fails →
    s.disk.IsDir (s.disk.path (path ++ APP_LOG_PATH)) →
    ((HandleOldLog path t).exec (perform sh) x s).value = some () →
    ∃ c₁ y s' c₂,
      let visit := (visitDay (path ++ APP_LOG_PATH) (GetDebugLogPayload t) t (dayName u)).exec
        (perform sh) y s'
      ((HandleOldLog path t).exec (perform sh) x s).calls = c₁ ++ visit.calls ++ c₂ ∧
        visit.value = some () ∧
        (s'.disk.IsDir (s'.disk.path (path ++ APP_LOG_PATH) ++ [dayName u]) →
          Ages sh (path ++ APP_LOG_PATH) u t s' visit.calls.tail)

variable {sh} {u t : ℤ} {path apLogFolder timeString : Text}

theorem ageing_dayName (hu : Word.Fits (gmtime u).tm_year) (ht : 0 ≤ t) : ageing t (dayName u) =
    if u / 86400 < t / 86400 then .archive
    else if u / 86400 = t / 86400 then .current else .leave := by
  have hlt : u - u % SEC_PER_DAY < t - t % SEC_PER_DAY ↔ u / 86400 < t / 86400 := by
    simp only [SEC_PER_DAY]
    omega
  have heq : t - t % SEC_PER_DAY = u - u % SEC_PER_DAY ↔ u / 86400 = t / 86400 := by
    simp only [SEC_PER_DAY]
    omega
  simp only [ageing, folderTime_dayName hu, midnight_eq ht, hlt, heq]

/-- The pass over the folder of the current day starts with the folder and keeps to it. -/
theorem current_calls {folderPath : Text} {x : ℕ → Choice}
    (h : ((HandleCurrentApLogFolder folderPath).exec (perform sh) x s).value = some ()) :
    (∃ e ∈ ((HandleCurrentApLogFolder folderPath).exec (perform sh) x s).calls,
      e.call = .opendir folderPath) ∧
      ∀ cmd ∈ commands ((HandleCurrentApLogFolder folderPath).exec (perform sh) x s).calls,
        Concerns folderPath cmd := by
  constructor
  · have hcalls := (exec_value sh h).2
    exact ⟨event sh (.opendir folderPath) (x 0) s, hcalls ▸ List.mem_cons_self, rfl⟩
  · intro cmd hcmd
    obtain ⟨e, he, hcmd⟩ := List.mem_filterMap.mp hcmd
    exact (concerns_HandleCurrentApLogFolder folderPath).exec _ _ _ e he cmd hcmd

/-- One entry: the three cases exclude each other by what they call. -/
theorem ages_HandleDay (hu : Word.Fits (gmtime u).tm_year) (ht : 0 ≤ t) {x : ℕ → Choice}
    (h : ((HandleDay apLogFolder timeString t (dayName u)).exec (perform sh) x s).value = some ()) :
    Ages sh apLogFolder u t s
      ((HandleDay apLogFolder timeString t (dayName u)).exec (perform sh) x s).calls := by
  have hnone (hl : commands [] =
      [tarFolderCommand apLogFolder (dayName u), rmCommand (apLogFolder ++ dayName u)]) : False := by
    cases hl
  have hcurrent (y : ℕ → Choice) (hvalue : ((HandleCurrentApLogFolder
      (apLogFolder ++ dayName u)).exec (perform sh) y s).value = some ()) :
      commands ((HandleCurrentApLogFolder (apLogFolder ++ dayName u)).exec (perform sh) y s).calls ≠
        [tarFolderCommand apLogFolder (dayName u), rmCommand (apLogFolder ++ dayName u)] :=
    fun hl => not_concerns_tarFolder apLogFolder (dayName u)
      ((current_calls hvalue).2 _ (hl ▸ List.mem_cons_self))
  rw [HandleDay, ageing_dayName hu ht] at h ⊢
  split_ifs at h ⊢ with hbefore hsame
  · have hcommands := (records_archiveFolder apLogFolder timeString t (dayName u)).exec
      (perform sh) x s (by rw [h]; simp)
    refine ⟨iff_of_true hcommands hbefore, iff_of_false ?_ hbefore.ne, iff_of_false ?_ (by omega)⟩
    · rintro ⟨y, hvalue, hl⟩
      exact hcurrent y hvalue (hl ▸ hcommands)
    · intro hl
      exact hnone (hl ▸ hcommands)
  · refine ⟨iff_of_false (hcurrent x h) hbefore, iff_of_true ⟨x, h, rfl⟩ hsame,
      iff_of_false (fun hl => ?_) (by omega)⟩
    obtain ⟨e, he, -⟩ := (current_calls h).1
    exact List.ne_nil_of_mem he hl
  · refine ⟨iff_of_false hnone hbefore, iff_of_false ?_ hsame, iff_of_true rfl (by omega)⟩
    rintro ⟨y, hvalue, hl⟩
    obtain ⟨e, he, -⟩ := (current_calls hvalue).1
    exact List.ne_nil_of_mem he hl.symm

theorem ages_visitDay (hu : Word.Fits (gmtime u).tm_year) (ht : 0 ≤ t) {x : ℕ → Choice}
    (hfolder : s.disk.IsDir (s.disk.path apLogFolder ++ [dayName u]))
    (h : ((visitDay apLogFolder timeString t (dayName u)).exec (perform sh) x s).value = some ()) :
    Ages sh apLogFolder u t s
      ((visitDay apLogFolder timeString t (dayName u)).exec (perform sh) x s).calls.tail := by
  have hnode := hfolder.node_eq (List.append_ne_nil_of_right_ne_nil _ (List.cons_ne_nil _ _))
  have hentry : (act sh (.readdir apLogFolder (dayName u)) (x 0) s).1 = some .DT_DIR := by
    simp [act, proper_dayName, hnode]
  rw [visitDay, request_bind] at h ⊢
  obtain ⟨hday, hlook⟩ := exec_value sh h
  rw [hlook, List.tail_cons]
  rw [hentry, if_pos rfl] at hday ⊢
  exact ages_HandleDay hu ht hday

/-- The pass comes to the entry and treats it by its day. -/
theorem agesByDay (hu : Word.Fits (gmtime u).tm_year) (ht : 0 ≤ t) : AgesByDay sh path u t := by
  intro x s l₁ l₂ hnames hx hdir hvalue
  rw [HandleOldLog, request_bind] at hvalue ⊢
  obtain ⟨hvalue, hcalls⟩ := exec_value sh hvalue
  have hopen : (act sh (.opendir (path ++ APP_LOG_PATH)) (x 0) s).1 =
      some (l₁ ++ dayName u :: l₂) := by
    simp [act, hx, hdir, hnames]
  rw [hopen] at hvalue hcalls
  obtain ⟨_, _, hloop, -, hsplit⟩ := exec_bind_value (perform sh) hvalue
  obtain ⟨c₁, y, s', c₂, hvisit, hround⟩ := exec_each_value (perform sh) hloop
  rw [hround, List.append_assoc _ c₂] at hsplit
  refine ⟨event sh (.opendir (path ++ APP_LOG_PATH)) (x 0) s :: c₁, y, s', _,
    hcalls.trans (congrArg _ hsplit), hvisit, fun hfolder => ages_visitDay hu ht hfolder hvisit⟩

/-- The folder a line is written to at `u` is packed, passed on or left alone at `t` as its day is
before, on or after that of `t`. -/
theorem day_folder_ages (sh : Text → List (List Text)) {publish : Option Text → Text → Text → Prog ℤ}
    (hpublish : publish = DBGLogAndPublish ∨ publish = DataLogAndPublish) (path : Text) {u t : ℤ}
    (hu : Word.Fits (gmtime u).tm_year) (ht : 0 ≤ t)
    (hlen : (path ++ '/' :: APP_LOG_PATH ++ '/' :: dayName u ++ ['/']).length ≤ 255) :
    (∀ (dbgStr filename : Text) (x : ℕ → Choice) (s : State), (x 1).now = u →
      let o := (publish (some dbgStr) path filename).exec (perform sh) x s
      let folder := s.disk.path (path ++ APP_LOG_PATH) ++ [dayName u]
      s.disk.path (pathBuf path u) = folder ∧
      (∀ e ∈ o.calls, ∀ f p creates appends, e.call = .openFile f p creates appends →
        p = pathBuf path u ++ filename) ∧
      ((∀ n, (x n).Succeeds) → Publishable (pathBuf path u) filename s.disk →
        o.value = some 0 ∧ ∃ stamp, o.state.disk.content (folder ++ [filename]) =
          some ((s.disk.content (folder ++ [filename])).getD [] ++
            Item.ofText (stamp ++ dbgStr)))) ∧
    folderTime (dayName u) = some (u - u % 86400) ∧
    AgesByDay sh path u t := by
  obtain ⟨stamp, rfl⟩ : ∃ stamp, publish = logAndPublish stamp := by
    rcases hpublish with rfl | rfl
    · exact ⟨payloadLog, rfl⟩
    · exact ⟨fun _ => [], rfl⟩
  refine ⟨?_, folderTime_dayName hu, agesByDay hu ht⟩
  rintro dbgStr filename x s rfl
  have hfolder : s.disk.path (pathBuf path (x 1).now) = _ := resolve_pathBuf s.disk.cwd path _ hlen
  refine ⟨hfolder, logAndPublish_opens sh stamp dbgStr path filename x s, fun hx hs => ?_⟩
  rw [exec_logAndPublish sh hx stamp]
  have hwritten : Yields sh (publishTo (pathBuf path (x 1).now) filename
      (stamp ((x 1).now, (x 1).usec) ++ dbgStr)) _ s :=
    yields_publishTo hs (path_pathBuf s.disk hs.proper hlen)
  obtain ⟨a, hvalue, rfl, hcontent⟩ := hwritten _ fun n => hx (n + 3)
  rw [hfolder] at hcontent
  exact ⟨hvalue, _, hcontent⟩

/-- The entry is still a folder when the pass comes to it. -/
theorem AgesByDay.visit (h : AgesByDay sh path u t) {x : ℕ → Choice} {l₁ l₂ : List Name}
    (hnames : (x 0).names = l₁ ++ dayName u :: l₂) (hx : (x 0).fate ≠ .fails)
    (hdir : s.disk.IsDir (s.disk.path (path ++ APP_LOG_PATH)))
    (hvalue : ((HandleOldLog path t).exec (perform sh) x s).value = some ())
    (hkept : ∀ e ∈ ((HandleOldLog path t).exec (perform sh) x s).calls,
      e.before.disk.IsDir (e.before.disk.path (path ++ APP_LOG_PATH) ++ [dayName u])) :
    ∃ c₁ l c₂ s', ((HandleOldLog path t).exec (perform sh) x s).calls = c₁ ++ l ++ c₂ ∧
      Ages sh (path ++ APP_LOG_PATH) u t s' l.tail := by
  obtain ⟨c₁, y, s', c₂, hcalls, hvisit, hages⟩ := h x s l₁ l₂ hnames hx hdir hvalue
  refine ⟨c₁, _, c₂, s', hcalls, hages ?_⟩
  have hlook := (exec_value sh hvisit).2
  refine hkept (event sh (.readdir (path ++ APP_LOG_PATH) (dayName u)) (y 0) s') ?_
  rw [hcalls]
  exact List.mem_append_left _ (List.mem_append_right _ (hlook ▸ List.mem_cons_self))

/-- The folder of a leap day. -/
def leapDisk : Disk where
  cwd := []
  node p :=
    if p = ["tmp".toList] ∨ p = ["tmp".toList, "APLog".toList] ∨
        p = ["tmp".toList, "APLog".toList, "2024-02-29".toList] then some .dir
    else none

theorem leapDisk_node (p : Path) : leapDisk.node p =
    if p = ["tmp".toList] ∨ p = ["tmp".toList, "APLog".toList] ∨
      p = ["tmp".toList, "APLog".toList, "2024-02-29".toList] then some .dir else none := rfl

theorem isTree_leapDisk : leapDisk.IsTree where
  cwd := .inl rfl
  parent p hp := by
    by_cases hroot : p = []
    · exact .inl (by rw [hroot]; rfl)
    · have hnode := hp.node_eq hroot
      rw [leapDisk_node] at hnode
      split_ifs at hnode with h
      rcases h with rfl | rfl | rfl <;> decide

/-- Its log directory lists it. -/
def leapChoice (now : ℤ) : Choice where
  now := now
  names := ["2024-02-29".toList]

/-- Nothing is in the way of a log file of the day. -/
theorem publishable_leapDisk :
    Publishable "/tmp//APLog//2024-02-29/".toList "a.txt".toList leapDisk where
  tree := isTree_leapDisk
  way t _ c hnode := by
    rw [leapDisk_node] at hnode
    split_ifs at hnode
    cases hnode
  aside t ht := by
    have hlength : (leapDisk.path t).length ≤ 3 := by
      rcases ht with rfl | ⟨ht, -⟩
      · decide
      · have hall : ∀ t ∈ "/tmp//APLog//2024-02-29/".toList.inits,
            (leapDisk.path t).length ≤ 3 := by decide +kernel
        exact hall t ((List.mem_inits _ _).mpr ht)
    intro h
    rw [h] at hlength
    exact absurd hlength (by decide)
  free := by
    rw [leapDisk_node, if_neg (by decide +kernel)]
    simp
  proper := by decide

/-- On a leap day its folder takes a line; a pass on the day after packs and removes it. -/
theorem leap_day_ages :
    (∃ stamp, ((DBGLogAndPublish (some "!".toList) "/tmp".toList "a.txt".toList).exec
      (perform fun _ => []) (fun _ => leapChoice 1709164805) { disk := leapDisk }).state.disk.content
        ["tmp".toList, "APLog".toList, "2024-02-29".toList, "a.txt".toList] =
          some (Item.ofText (stamp ++ "!".toList))) ∧
    ∃ c₁ l c₂, ((HandleOldLog "/tmp".toList 1709251200).exec (perform fun _ => [])
        (fun _ => leapChoice 1709251200) { disk := leapDisk }).calls = c₁ ++ l ++ c₂ ∧
      commands l.tail = ["tar zcf /tmp/APLog/2024-02-29.tgz -C /tmp/APLog/ 2024-02-29\n".toList,
        "rm -rf /tmp/APLog/2024-02-29\n".toList] := by
  have hday : dayName 1709164805 = "2024-02-29".toList := by decide +kernel
  obtain ⟨hwrites, -, hages⟩ := day_folder_ages (fun _ => []) (.inl rfl) "/tmp".toList
    (u := 1709164805) (t := 1709251200) (by decide +kernel) (by decide) (by decide +kernel)
  constructor
  · obtain ⟨-, -, hline⟩ := hwrites "!".toList "a.txt".toList (fun _ => leapChoice 1709164805)
      { disk := leapDisk } rfl
    have hbuf : pathBuf "/tmp".toList 1709164805 = "/tmp//APLog//2024-02-29/".toList := by
      decide +kernel
    obtain ⟨-, stamp, hcontent⟩ := hline (fun _ => ⟨rfl, fun _ => rfl⟩)
      (hbuf ▸ publishable_leapDisk)
    rw [hday] at hcontent
    exact ⟨stamp, hcontent⟩
  · have hnames : (leapChoice 1709251200).names = [] ++ dayName 1709164805 :: [] := by
      rw [hday]
      rfl
    obtain ⟨c₁, l, c₂, s', hcalls, hl⟩ := hages.visit (s := { disk := leapDisk })
      (x := fun _ => leapChoice 1709251200) hnames (by decide) (by decide) (by decide +kernel)
      (by rw [hday]; decide +kernel)
    refine ⟨c₁, l, c₂, hcalls, ?_⟩
    have hcommands := hl.archived.mpr (by decide)
    rw [hday] at hcommands
    exact hcommands

/-- In a year whose number fits no `int` the folder of the current day has the name of another
day, and the pass removes it. -/
theorem current_day_packed : ¬ ∀ (sh : Text → List (List Text)) (path : Text) (u t : ℤ), 0 ≤ u →
    0 ≤ t → (path ++ '/' :: APP_LOG_PATH ++ '/' :: dayName u ++ ['/']).length ≤ 255 →
    AgesByDay sh path u t := by
  intro h
  have hday : dayName 135536078510582400 = "2024-02-29".toList := by decide +kernel
  have hages := h (fun _ => []) "/tmp".toList 135536078510582400 135536078510582400 (by decide)
    (by decide) (by decide +kernel)
  have hnames : (leapChoice 0).names = [] ++ dayName 135536078510582400 :: [] := by
    rw [hday]
    rfl
  obtain ⟨c₁, l, c₂, s', hcalls, hl⟩ := hages.visit (s := { disk := leapDisk })
    (x := fun _ => leapChoice 0) hnames (by decide) (by decide) (by decide +kernel)
    (by rw [hday]; decide +kernel)
  obtain ⟨y, hvalue, hcurrent⟩ := hl.current.mpr rfl
  obtain ⟨e, he, hopendir⟩ := (current_calls hvalue).1
  rw [← hcurrent] at he
  have hnone : ∀ e ∈ ((HandleOldLog "/tmp".toList 135536078510582400).exec (perform fun _ => [])
      (fun _ => leapChoice 0) { disk := leapDisk }).calls,
      e.call ≠ .opendir "/tmp/APLog/2024-02-29".toList := by
    decide +kernel
  refine hnone e ?_ (hopendir.trans ?_)
  · rw [hcalls]
    exact List.mem_append_left _ (List.mem_append_right _ (List.mem_of_mem_tail he))
  · rw [hday]
    rfl

end ConferenceCall.Log

import ConferenceCall.Log.Callers
import ConferenceCall.Log.Careful

/-! What callers do outside a rotation: they make files and append to those they have open. -/

namespace ConferenceCall.Log

open Library Program

section Outside

variable (log : LogFile) (cwd : Path) (aside : Set Path)

/-- The calls outside a rotation; a file is written to when one is open. -/
def Outside (opened : Bool) : Call → Prop
  | .openFile f path _ appends =>
    f = .logFd ∧ appends = true ∧ (path = log.text ∨ Path.resolve cwd path ∈ aside)
  | .write f _ => f = .logFd ∧ opened = true
  | .close f => f = .logFd
  | .system command => command = "touch ".toList ++ log.text
  | .stat _ | .access _ | .readdir .. | .stderr _ | .gettimeofday => True
  | _ => False

/-- Whether the log is open after a call. -/
def opens (opened : Bool) : (c : Call) → c.Answer → Bool
  | .openFile .., r => r
  | .close _, _ => false
  | _, _ => opened

abbrev Follows {α : Type} (Q : α → Bool → Prop) : Bool → Prog α → Prop :=
  Obeys (Outside log cwd aside) opens Q

/-- What a caller does outside a rotation. -/
def Code.Follows (opened : Bool) : Code → Prop
  | .idle => True
  | .outside task => Log.Follows log cwd aside
    (fun r opened => ∀ rest ∈ r, Log.Follows log cwd aside (fun _ _ => True) opened rest) opened task
  | .inside _ rest => Log.Follows log cwd aside (fun _ _ => True) opened rest

/-- The log that a pass writes to is in a set of files. -/
def Caller.LogsTo : Caller log → Prop
  | .pass passLog _ _ _ => Path.resolve cwd passLog ∈ aside
  | _ => True

variable {log cwd aside}

theorem follows_append {Q : Unit → Bool → Prop} {opened : Bool} {text : Prog Text}
    (htext : Follows log cwd aside (fun _ opened => opened = true) true text)
    (hQ : ∀ opened, Q () opened) : Follows log cwd aside Q opened (append text log.text) := by
  simp only [append, request_bind]
  refine .call ⟨rfl, rfl, .inl rfl⟩ fun r => ?_
  cases r
  · exact hQ _
  · refine Obeys.bind (htext.mono fun text opened hopened => ?_)
    exact .call ⟨rfl, hopened⟩ fun _ => .call rfl fun _ => hQ _

theorem follows_signalSafe (dbgStr : Text) (opened : Bool) :
    (Code.outside (signalSafeTask dbgStr log.text)).Follows log cwd aside opened := by
  have htext : Follows log cwd aside (fun _ opened => opened = true) true (pure dbgStr) := rfl
  simp only [Code.Follows, signalSafeTask, get_file_size, request_bind, call_bind, Program.pure_bind]
  refine .call trivial fun _ => .call trivial fun size => ?_
  split_ifs
  · rintro rest ⟨⟩
    exact follows_append htext fun _ => trivial
  · refine Obeys.bind (follows_append htext fun _ => ?_)
    rintro rest ⟨⟩

theorem follows_log (dbgStr : Text) (opened : Bool) :
    (Code.outside (logTask dbgStr log.text)).Follows log cwd aside opened := by
  have htext : Follows log cwd aside (fun _ opened => opened = true) true
      (do return make_log_with_time (← Sys.gettimeofday).1 dbgStr) := ⟨trivial, fun _ => rfl⟩
  simp only [Code.Follows, logTask, get_file_size, request_bind, call_bind, Program.pure_bind]
  refine .call trivial fun there => ?_
  cases there
  · refine .call rfl fun _ => ?_
    rintro rest ⟨⟩
  · refine .call trivial fun size => ?_
    split_ifs
    · rintro rest ⟨⟩
      trivial
    · refine Obeys.bind (follows_append htext fun _ => ?_)
      rintro rest ⟨⟩

theorem follows_pass (passLog folderPath : Text) (d_name : Name) (opened : Bool)
    (h : Path.resolve cwd passLog ∈ aside) :
    (Code.outside (passTask passLog folderPath d_name)).Follows log cwd aside opened := by
  have hclose (opened : Bool) : (Code.outside (.call (.close .logFd) fun _ => pure none)).Follows
      log cwd aside opened := by
    refine .call rfl fun _ => ?_
    rintro rest ⟨⟩
  simp only [Code.Follows, passTask, get_file_size, request_bind, call_bind, Program.pure_bind]
  refine .call ⟨rfl, rfl, .inr h⟩ fun opened => ?_
  cases opened
  · rintro rest ⟨⟩
  · refine .call trivial fun d_type => ?_
    split_ifs
    · refine .call trivial fun size => ?_
      split_ifs
      · refine .call ⟨rfl, rfl⟩ fun _ => ?_
        rintro rest ⟨⟩
        exact .call rfl fun _ => trivial
      · exact hclose _
    · exact hclose _

theorem follows_task (caller : Caller log) (h : caller.LogsTo log cwd aside) (opened : Bool) :
    (Code.outside caller.task).Follows log cwd aside opened := by
  cases caller with
  | signalSafe dbgStr => exact follows_signalSafe dbgStr opened
  | log dbgStr => exact follows_log dbgStr opened
  | pass passLog folderPath folder entry => exact follows_pass passLog folderPath log.name opened h

/-! ### Effects -/

variable (log cwd aside)

/-- A file that is open for appending: the log, a backup or the log of a pass. -/
def Sound (d : Disk) (h : Handle) : Prop :=
  h.appends = true ∧ (log.Keeps cwd h.path ∨ h.path ∈ aside) ∧ ∃ c, d.content h.path = some c

/-- Passes log neither to the counter nor to a backup. -/
def Apart : Prop := ∀ p ∈ aside, p ≠ log.info cwd ∧ ∀ k, p ≠ log.backup cwd k

/-- Files are made or appended to, but not the counter, and no backup is made. -/
def Grows (d d' : Disk) : Prop :=
  d'.cwd = d.cwd ∧ ∀ p, d'.node p = d.node p ∨ p ≠ log.info cwd ∧
    ((∃ c c', d.node p = some (.file c) ∧ d'.node p = some (.file (c ++ c'))) ∨
      d.node p = none ∧ (∀ k, p ≠ log.backup cwd k) ∧ d'.node p = some (.file []))

/-- What a call outside a rotation does. -/
structure Outwards (e : Event Call Call.Answer State) : Prop where
  grows : Grows log cwd e.before.disk e.after.disk
  opened : (e.after.opened .logFd).isSome =
    opens (e.before.opened .logFd).isSome e.call e.answer
  sound : ∀ h ∈ e.after.opened .logFd, Sound log cwd aside e.after.disk h
  careful : log.Careful cwd aside e

variable {log cwd aside} {sh : Text → List (List Text)} {s t : State} {d d' : Disk} {x : Choice}

theorem Sound.ne_info (hown : logInfoPath log.name ≠ log.name) (haside : Apart log cwd aside)
    {h : Handle} (hs : Sound log cwd aside d h) : h.path ≠ log.info cwd :=
  hs.2.1.elim (fun hp => hp.ne_info hown) fun hp => (haside _ hp).1

theorem Grows.refl (d : Disk) : Grows log cwd d d := ⟨rfl, fun _ => .inl rfl⟩

theorem Grows.content (h : Grows log cwd d d') {p : Path} {c : List Item}
    (hc : d.content p = some c) : ∃ c', d'.content p = some (c ++ c') := by
  rw [Disk.content_eq_some] at hc
  rcases h.2 p with hp | ⟨-, ⟨c₁, c', hold, hnew⟩ | ⟨hnone, -⟩⟩
  · exact ⟨[], by rw [Disk.content_eq_some, hp, hc, List.append_nil]⟩
  · rw [hold] at hc
    cases hc
    exact ⟨c', Disk.content_eq_some.mpr hnew⟩
  · rw [hnone] at hc
    cases hc

theorem Sound.grows {h : Handle} (hs : Sound log cwd aside d h) (hd : Grows log cwd d d') :
    Sound log cwd aside d' h := by
  obtain ⟨happends, hp, c, hc⟩ := hs
  obtain ⟨c', hc'⟩ := hd.content hc
  exact ⟨happends, hp, c ++ c', hc'⟩

theorem Grows.isDir (h : Grows log cwd d d') (p : Path) :
    d'.node p = some .dir ↔ d.node p = some .dir := by
  rcases h.2 p with hp | ⟨-, ⟨c, c', hold, hnew⟩ | ⟨hnone, -, hnew⟩⟩
  · rw [hp]
  · simp [hold, hnew]
  · simp [hnone, hnew]

theorem Grows.retains (h : Grows log cwd d d') (hcwd : d.cwd = cwd) (k : ℤ) :
    log.Retains d' k ↔ log.Retains d k := by
  rw [LogFile.Retains, LogFile.Retains, h.1, hcwd]
  rcases h.2 (log.backup cwd k) with hp | ⟨-, ⟨c, c', hold, hnew⟩ | ⟨-, hne, -⟩⟩
  · rw [hp]
  · simp [hold, hnew]
  · exact absurd rfl (hne k)

/-- Growing files do not disturb a rotation. -/
theorem Grows.beside (h : Grows log cwd s.disk t.disk) (hcwd : s.disk.cwd = cwd)
    (hopened : s.opened .fd = some ⟨log.info s.disk.cwd, false⟩ →
      s.disk.node (log.info s.disk.cwd) ≠ none → t.opened .fd = s.opened .fd) :
    log.Beside s t where
  cwd := h.1
  info := (h.2 (log.info s.disk.cwd)).resolve_right fun hne => hne.1 (by rw [hcwd])
  backups := h.retains hcwd
  dirs := h.isDir
  opened := hopened

/-- A file is put where there is none, or at the end of one. -/
theorem grows_put {p : Path} {c c' : List Item} (hinfo : p ≠ log.info cwd)
    (h : d.node p = some (.file c)) : Grows log cwd d (d.put p (some (.file (c ++ c')))) := by
  refine ⟨rfl, fun q => ?_⟩
  by_cases hq : q = p
  · subst hq
    exact .inr ⟨hinfo, .inl ⟨c, c', h, Disk.put_node_self⟩⟩
  · exact .inl (Disk.put_node_of_ne hq)

theorem grows_new {p : Path} (hinfo : p ≠ log.info cwd) (hbackup : ∀ k, p ≠ log.backup cwd k)
    (h : d.node p = none) : Grows log cwd d (d.put p (some (.file []))) := by
  refine ⟨rfl, fun q => ?_⟩
  by_cases hq : q = p
  · subst hq
    exact .inr ⟨hinfo, .inr ⟨h, hbackup, Disk.put_node_self⟩⟩
  · exact .inl (Disk.put_node_of_ne hq)

theorem relocate_outside {opened : Bool} {c : Call} (hc : Outside log cwd aside opened c)
    (r : c.Answer) (s t : State) (p : Path) : relocate ⟨c, r, s, t⟩ p = some p := by
  cases c with
  | rename old new => exact hc.elim
  | unlink path => exact hc.elim
  | _ => rfl

/-- A call that changes at most what is open. -/
theorem outwards_same {opened : Bool} {c : Call} {r : c.Answer}
    (hc : Outside log cwd aside opened c) (hdisk : t.disk = s.disk)
    (hopened : (t.opened .logFd).isSome = opens (s.opened .logFd).isSome c r)
    (hsound : ∀ h ∈ t.opened .logFd, Sound log cwd aside s.disk h)
    (hcall : ∀ text, c ≠ .write .logFd text) : Outwards log cwd aside ⟨c, r, s, t⟩ := by
  have hgrows : Grows log cwd s.disk t.disk := by
    rw [hdisk]
    exact .refl _
  refine ⟨hgrows, hopened, fun h hm => (hsound h hm).grows hgrows, ?_⟩
  exact careful_of_stays (relocate_outside hc r s t) (fun p c _ hp => hgrows.content hp)
    fun text h => absurd h (hcall text)

theorem lookup_log (d : Disk) : d.lookup log.text = d.node (log.path d.cwd log.name) :=
  LogFile.lookup_text log.proper

theorem outwards_openFile (hown : logInfoPath log.name ≠ log.name) (haside : Apart log cwd aside)
    (hcwd : s.disk.cwd = cwd) {path : Text} {creates : Bool}
    (hpath : path = log.text ∨ Path.resolve cwd path ∈ aside) :
    Outwards log cwd aside (event sh (.openFile .logFd path creates true) x s) := by
  have hc : Outside log cwd aside false (.openFile .logFd path creates true) := ⟨rfl, rfl, hpath⟩
  have hlog : s.disk.path log.text = log.path s.disk.cwd log.name :=
    LogFile.path_text log.proper
  have hgoes : log.Keeps cwd (s.disk.path path) ∨ s.disk.path path ∈ aside := by
    refine hpath.imp ?_ fun hp => ?_
    · rintro rfl
      exact .inl (by rw [hlog, hcwd])
    · rwa [Disk.path, hcwd]
  have hinfo : s.disk.path path ≠ log.info cwd :=
    hgoes.elim (fun hp => hp.ne_info hown) fun hp => (haside _ hp).1
  have hbackup (k : ℤ) : s.disk.path path ≠ log.backup cwd k := by
    rcases hpath with rfl | hp
    · rw [hlog, ← hcwd]
      exact path_name_ne_backup
    · rw [Disk.path, hcwd]
      exact (haside _ hp).2 k
  rw [event]
  rcases act_openFile_cases sh x s .logFd path creates true with
    hact | ⟨c, hlookup, hact⟩ | ⟨-, hnew, hact⟩ <;> rw [hact]
  · refine outwards_same hc rfl ?_ (fun h hm => ?_) (by simp)
    · simp [State.setOpen, opens]
    · simp [State.setOpen] at hm
  · refine outwards_same hc rfl ?_ (fun h hm => ?_) (by simp)
    · simp [State.setOpen, opens]
    · obtain rfl : ⟨s.disk.path path, true⟩ = h := by simpa [State.setOpen] using hm
      exact ⟨rfl, hgoes, c, Disk.content_eq_some.mpr (Disk.node_of_lookup hlookup)⟩
  · have hgrows := grows_new hinfo hbackup hnew.1
    refine ⟨hgrows, ?_, fun h hm => ?_, ?_⟩
    · simp [State.setOpen, opens]
    · obtain rfl : ⟨s.disk.path path, true⟩ = h := by simpa [State.setOpen] using hm
      exact ⟨rfl, hgoes, [], Disk.content_eq_some.mpr Disk.put_node_self⟩
    · exact careful_of_stays (relocate_outside hc _ _ _) (fun p c _ hp => hgrows.content hp)
        fun text h => by cases h

theorem outwards_write (hown : logInfoPath log.name ≠ log.name) (haside : Apart log cwd aside)
    (hx : x.Succeeds) {text : Text} (hopened : (s.opened .logFd).isSome = true)
    (hsound : ∀ h ∈ s.opened .logFd, Sound log cwd aside s.disk h) :
    Outwards log cwd aside (event sh (.write .logFd text) x s) := by
  have hc : Outside log cwd aside true (.write .logFd text) := ⟨rfl, rfl⟩
  obtain ⟨h, hm⟩ := Option.isSome_iff_exists.mp hopened
  have hinfo := (hsound h hm).ne_info hown haside
  obtain ⟨happends, hp, c, hcontent⟩ := hsound h hm
  have htarget : s.target .logFd = some (h, c) := by
    rw [State.target, hm, Option.bind_some, hcontent, Option.map_some]
  have hact : act sh (.write .logFd text) x s = _ := act_write hx.1 htarget
  rw [happends, if_pos rfl] at hact
  have hnode := Disk.content_eq_some.mp hcontent
  have hgrows : Grows log cwd s.disk (s.disk.put h.path (some (.file (c ++ Item.ofText text)))) :=
    grows_put hinfo hnode
  rw [event, hact]
  refine ⟨hgrows, rfl, fun h' hm' => (hsound h' hm').grows hgrows, ?_⟩
  refine careful_of_stays (relocate_outside hc _ _ _) (fun p c _ hp => hgrows.content hp) ?_
  rintro text' ⟨⟩
  exact ⟨h, c, htarget, hp, Disk.content_eq_some.mpr Disk.put_node_self⟩

/-- The shell makes the log file. -/
theorem act_touch (hsh : sh ("touch ".toList ++ log.text) = [["touch".toList, log.text]])
    (hx : x.Succeeds) : act sh (.system ("touch ".toList ++ log.text)) x s =
      ([⟨.touch [log.text], true⟩], s.setDisk (touched s.disk log.text)) := by
  have htar : ¬("touch".toList = "tar".toList ∧ log.text = "zcf".toList) :=
    fun h => absurd h.1 (by decide)
  have hrm : ¬("touch".toList = "rm".toList ∧ log.text = "-rf".toList) :=
    fun h => absurd h.1 (by decide)
  have hwords : Command.ofWords ["touch".toList, log.text] = .touch [log.text] := by
    rw [Command.ofWords, if_neg htar, if_neg hrm, if_pos rfl]
  have hrun : (Command.touch [log.text]).run (x.tools 0) s.disk =
      (touched s.disk log.text, ⟨.touch [log.text], true⟩) := by
    simp only [Command.run, hx.2 0, if_true, List.foldl_cons, List.foldl_nil]
  simp only [act, hx.1, reduceCtorEq, if_false, hsh, List.map_cons, List.map_nil, hwords,
    runCommands, hrun]

theorem grows_touched (hown : logInfoPath log.name ≠ log.name) (hcwd : d.cwd = cwd) :
    Grows log cwd d (touched d log.text) := by
  have hpath : d.path log.text = log.path cwd log.name :=
    (LogFile.path_text log.proper).trans (by rw [hcwd])
  unfold touched
  split_ifs with hnew
  · rw [hpath]
    have hkeeps : log.Keeps cwd (log.path cwd log.name) := .inl rfl
    refine grows_new (hkeeps.ne_info hown) (fun k => ?_) (hpath ▸ hnew.1)
    rw [← hcwd]
    exact path_name_ne_backup
  · exact .refl d

/-- Files that exist stay open while others grow. -/
theorem opened_setDisk (hd : Grows log cwd s.disk d') {f : Fd}
    (h : ∀ h ∈ s.opened f, s.disk.node h.path ≠ none) : (s.setDisk d').opened f = s.opened f := by
  have hsome (h' : Handle) (hm : s.opened f = some h') : (d'.node h'.path).isSome = true := by
    rcases hd.2 h'.path with hp | ⟨-, ⟨c, c', -, hnew⟩ | ⟨-, -, hnew⟩⟩
    · rw [hp]
      exact Option.isSome_iff_ne_none.mpr (h h' hm)
    · rw [hnew]
      rfl
    · rw [hnew]
      rfl
  simp only [State.setDisk]
  cases hm : s.opened f with
  | none => rfl
  | some h' => exact if_pos (hsome h' hm)

variable (hown : logInfoPath log.name ≠ log.name) (haside : Apart log cwd aside)
  (hsh : sh ("touch ".toList ++ log.text) = [["touch".toList, log.text]])
  (hx : x.Succeeds) (hcwd : s.disk.cwd = cwd)
include hown hsh hx hcwd

include haside in
/-- What a call outside a rotation does. -/
theorem outwards_act {a : Call} (ha : Outside log cwd aside (s.opened .logFd).isSome a)
    (hsound : ∀ h ∈ s.opened .logFd, Sound log cwd aside s.disk h) :
    Outwards log cwd aside (event sh a x s) := by
  cases a with
  | openFile f path creates appends =>
    obtain ⟨rfl, rfl, hpath⟩ := ha
    exact outwards_openFile hown haside hcwd hpath
  | write f text =>
    obtain ⟨rfl, hopened⟩ := ha
    exact outwards_write hown haside hx hopened hsound
  | close f =>
    have hf : f = .logFd := ha
    subst hf
    refine outwards_same ha rfl ?_ (fun h hm => ?_) (by simp)
    · simp [act, State.setOpen, opens]
    · simp [act, State.setOpen] at hm
  | system command =>
    obtain rfl : command = "touch ".toList ++ log.text := ha
    rw [event, act_touch hsh hx]
    have hgrows := grows_touched hown hcwd
    have hopened : (s.setDisk (touched s.disk log.text)).opened .logFd = s.opened .logFd := by
      refine opened_setDisk hgrows fun h hm hnone => ?_
      obtain ⟨-, -, c, hc⟩ := hsound h hm
      rw [Disk.content_eq_some, hnone] at hc
      cases hc
    refine ⟨hgrows, congrArg _ hopened, fun h hm => ?_, ?_⟩
    · exact (hsound h (hopened ▸ hm)).grows hgrows
    · exact careful_of_stays (fun p => rfl) (fun p c _ hp => hgrows.content hp)
        fun text h => by cases h
  | rename old new => exact ha.elim
  | unlink path => exact ha.elim
  | read f size => exact ha.elim
  | mkdir path => exact ha.elim
  | opendir path => exact ha.elim
  | ftw path => exact ha.elim
  | uninitialised => exact ha.elim
  | quiet => exact ha.elim
  | _ => exact outwards_same ha rfl rfl hsound (by simp)

/-- It closes no file of the others. -/
theorem others_outside {opened : Bool} {a : Call} (ha : Outside log cwd aside opened a) {f : Fd}
    (h : ∀ h ∈ s.opened f, s.disk.node h.path ≠ none) : others sh a x s f = s.opened f := by
  cases a with
  | rename old new => exact ha.elim
  | unlink path => exact ha.elim
  | system command =>
    obtain rfl : command = "touch ".toList ++ log.text := ha
    rw [others, act_touch hsh hx]
    exact opened_setDisk (grows_touched hown hcwd) h
  | _ => rfl

end Outside

end ConferenceCall.Log

import ConferenceCall.Log.Interrupted
import ConferenceCall.Log.Outside

/-! Callers that log to one file lose nothing when their rotations do not meet: a rotation starts
when no other is under way, finds the file still there when it renames it, and no caller has the
backup open that it removes. Two rotations that meet overwrite a backup. -/

namespace ConferenceCall.Log

open Library Program Callers Step

variable {log : LogFile} {cwd : Path} {aside : Set Path} {sh : Text → List (List Text)}
  {s v : State} {x : Choice}

/-! ### Descriptors during a rotation -/

theorem fair_cases {a : Call} (h : log.Fair (event sh a x s)) :
    log.Counting (fun _ => True) a ∧ (act sh a x s).2.disk.cwd = s.disk.cwd ∧
        (∀ p, p ≠ log.info s.disk.cwd → (act sh a x s).2.disk.node p = s.disk.node p) ∧
        (act sh a x s).2.opened .logFd = s.opened .logFd ∨
      (∃ k c, a = .rename log.text (backupFilePath log.text k) ∧
        s.disk.node (log.path s.disk.cwd log.name) = some (.file c) ∧
        s.disk.Creatable (backupFilePath log.text k) ∧
        (act sh a x s).2 = s.move (log.path s.disk.cwd log.name) (log.backup s.disk.cwd k)) ∨
      ∃ k c, a = .unlink (backupFilePath log.text k) ∧
        s.disk.lookup (backupFilePath log.text k) = some (.file c) ∧
        (act sh a x s).2 = s.setDisk (s.disk.put (log.backup s.disk.cwd k) none) := by
  generalize he : event sh a x s = e at h
  cases h with
  | counting hc hcwd hnode hopened =>
    simp only [event, Event.mk.injEq] at he
    obtain ⟨rfl, -, rfl, rfl⟩ := he
    exact .inl ⟨hc, hcwd, hnode, hopened⟩
  | @rename s k c hfile hnew =>
    simp only [event, Event.mk.injEq] at he
    obtain ⟨rfl, -, rfl, hact⟩ := he
    exact .inr (.inl ⟨k, c, rfl, hfile, hnew, hact⟩)
  | @unlink s k c hlimit hfile =>
    simp only [event, Event.mk.injEq] at he
    obtain ⟨rfl, -, rfl, hact⟩ := he
    exact .inr (.inr ⟨k, c, rfl, hfile, hact⟩)

theorem others_counting {P : Text → Prop} {a : Call} (ha : log.Counting P a) :
    others sh a x s = s.opened := by
  cases a with
  | rename old new => exact ha.elim
  | unlink path => exact ha.elim
  | system command => exact ha.elim
  | _ => rfl

/-- The rotating caller has its log open as the others have theirs. -/
theorem fair_own {a : Call} (h : log.Fair (event sh a x s)) :
    (act sh a x s).2.opened .logFd = others sh a x s .logFd := by
  rcases fair_cases h with ⟨hc, -, -, hopened⟩ | ⟨k, c, rfl, -⟩ | ⟨k, c, rfl, -⟩
  · rw [others_counting hc, hopened]
  · rfl
  · rfl

theorem fair_cwd {a : Call} (h : log.Fair (event sh a x s)) :
    (act sh a x s).2.disk.cwd = s.disk.cwd := by
  rcases fair_cases h with ⟨-, hcwd, -⟩ | ⟨k, c, rfl, -, -, hact⟩ | ⟨k, c, rfl, -, hact⟩
  · exact hcwd
  · rw [hact]
    exact Disk.move_cwd
  · rw [hact]
    rfl

/-- A log that is open stays open during a rotation, unless it is removed. -/
theorem fair_open {a : Call} (hown : logInfoPath log.name ≠ log.name)
    (haside : Apart log cwd aside) (h : log.Fair (event sh a x s)) (hx : x.Succeeds)
    (hcwd : s.disk.cwd = cwd) (hv : v.disk = s.disk)
    (hsound : ∀ h ∈ v.opened .logFd, Sound log cwd aside v.disk h)
    (hremoved : ∀ path, a = .unlink path → ∀ h ∈ v.opened .logFd, h.path ≠ s.disk.path path) :
    (others sh a x v .logFd).isSome = (v.opened .logFd).isSome ∧
      ∀ h ∈ others sh a x v .logFd, Sound log cwd aside (act sh a x s).2.disk h := by
  have hfate : x.fate ≠ .fails := by simp [hx.1]
  have hkept {h : Handle} (hs : Sound log cwd aside v.disk h)
      (hnode : (act sh a x s).2.disk.node h.path = s.disk.node h.path) :
      Sound log cwd aside (act sh a x s).2.disk h := by
    obtain ⟨happends, hp, c, hc⟩ := hs
    exact ⟨happends, hp, c, by rw [Disk.content_congr hnode, ← hv, hc]⟩
  rcases fair_cases h with ⟨hc, -, hnode, -⟩ | ⟨k, c, rfl, hfile, hnew, hact⟩ |
    ⟨k, c, rfl, hfile, hact⟩
  · rw [others_counting hc]
    refine ⟨rfl, fun h hm => hkept (hsound h hm) (hnode _ ?_)⟩
    rw [hcwd]
    exact (hsound h hm).ne_info hown haside
  · have hlookup : v.disk.lookup log.text = some (.file c) := by rw [hv, lookup_log, hfile]
    have hpath : s.disk.path log.text = log.path s.disk.cwd log.name :=
      LogFile.path_text log.proper
    have hactv : act sh (.rename log.text (backupFilePath log.text k)) x v = _ :=
      act_rename hfate hlookup (hv ▸ hnew)
    rw [hv, hpath, backup_text] at hactv
    have hothers : others sh (.rename log.text (backupFilePath log.text k)) x v .logFd =
        (v.opened .logFd).bind fun h =>
          if h.path = log.path s.disk.cwd log.name then
            some { h with path := log.backup s.disk.cwd k }
          else if h.path = log.backup s.disk.cwd k then none else some h := by
      rw [others, hactv]
      rfl
    have hfree := hnew.1
    rw [backup_text] at hfree
    have hne : log.path s.disk.cwd log.name ≠ log.backup s.disk.cwd k := path_name_ne_backup
    rw [hothers]
    cases hm : v.opened .logFd with
    | none => simp
    | some h =>
      have hs := hsound h hm
      by_cases hname : h.path = log.path s.disk.cwd log.name
      · simp only [Option.bind_some, if_pos hname, Option.isSome_some, Option.mem_def,
          Option.some.injEq, true_and]
        rintro h' rfl
        refine ⟨hs.1, .inl (.inr ⟨k, by rw [hcwd]⟩), c, ?_⟩
        rw [hact]
        exact (Disk.content_congr (Disk.move_node_new hne)).trans
          (Disk.content_eq_some.mpr hfile)
      · have hbackup : h.path ≠ log.backup s.disk.cwd k := by
          rintro hp
          obtain ⟨-, -, c', hc'⟩ := hs
          rw [Disk.content_eq_some, hv, hp, hfree] at hc'
          cases hc'
        simp only [Option.bind_some, if_neg hname, if_neg hbackup, Option.isSome_some,
          Option.mem_def, Option.some.injEq, true_and]
        rintro h' rfl
        refine hkept hs ?_
        rw [hact]
        exact Disk.move_node_of_ne hname hbackup
  · have hactv : act sh (.unlink (backupFilePath log.text k)) x v = _ :=
      act_unlink hfate (hv ▸ hfile)
    rw [hv, backup_text] at hactv
    have hothers : others sh (.unlink (backupFilePath log.text k)) x v .logFd =
        (v.opened .logFd).filter fun h =>
          ((s.disk.put (log.backup s.disk.cwd k) none).node h.path).isSome := by
      rw [others, hactv]
      rfl
    rw [hothers]
    cases hm : v.opened .logFd with
    | none => simp
    | some h =>
      have hs := hsound h hm
      have hne : h.path ≠ log.backup s.disk.cwd k := by
        have hremoved := hremoved _ rfl h hm
        rwa [backup_text] at hremoved
      have hnode : (s.disk.put (log.backup s.disk.cwd k) none).node h.path =
          s.disk.node h.path := Disk.put_node_of_ne hne
      have hsome : ((s.disk.put (log.backup s.disk.cwd k) none).node h.path).isSome = true := by
        obtain ⟨-, -, c', hc'⟩ := hs
        rw [Disk.content_eq_some, hv] at hc'
        rw [hnode, hc']
        rfl
      simp only [Option.filter_some, hsome, if_true, Option.isSome_some, Option.mem_def,
        Option.some.injEq, true_and]
      rintro h' rfl
      refine hkept hs ?_
      rw [hact]
      exact hnode

/-! ### Runs -/

variable {θ : Type} [DecidableEq θ]

variable (log cwd aside sh) in
/-- Between turns at most one caller rotates the file, the counter tells the backups when none does,
and every caller is where it may be. -/
structure Sane (c : Callers θ) : Prop where
  place : c.disk.cwd = cwd
  sound : ∀ t, ∀ h ∈ c.opened t .logFd, Sound log cwd aside c.disk h
  follows : ∀ t, (c.code t).Follows log cwd aside (c.opened t .logFd).isSome
  rotation : (∀ t, ¬(c.code t).Rotates) ∧ (∃ logInfo, log.Whole logInfo c.disk) ∨
    ∃ t p rest, c.code t = .inside p rest ∧ (∀ u, (c.code u).Rotates → u = t) ∧
      Steady log sh (fun _ v => ∃ logInfo, log.Whole logInfo v.disk) p (c.view t)

/-- The turns on which rotations do not meet. A rotation starts when no other is under way and the
index after the backups is an `int`, the file it renames is there, and nobody has the backup open
that it removes. -/
def Exclusive (log : LogFile) (aside : Set Path) : Turn θ log → Callers θ → Prop
  | .start _ caller, c => caller.LogsTo log c.disk.cwd aside
  | .call t x, c => x.Succeeds ∧ match c.code t with
    | .outside (.done (some _)) => (∀ u, ¬(c.code u).Rotates) ∧ ∀ logInfo,
      log.Counter c.disk logInfo → Word.Fits (logInfo.oldestIndex + MAX_LOG_FILE_NUM)
    | .inside (.call (.rename ..) _) _ => c.disk.node (log.path c.disk.cwd log.name) ≠ none
    | .inside (.call (.unlink path) _) _ =>
      ∀ u, ∀ h ∈ c.opened u .logFd, h.path ≠ c.disk.path path
    | _ => True

variable {c : Callers θ} {t u : θ}

/-- A caller that goes on outside a rotation. -/
theorem Sane.become {code : Code} (h : Sane log cwd aside sh c) (ht : ¬(c.code t).Rotates)
    (hcode : ¬code.Rotates) (hf : code.Follows log cwd aside (c.opened t .logFd).isSome) :
    Sane log cwd aside sh (c.become t code) := by
  refine ⟨h.place, h.sound, fun u => ?_, ?_⟩
  · by_cases hu : u = t
    · subst hu
      rw [become_code_self]
      exact hf
    · rw [become_code_of_ne hu]
      exact h.follows u
  · have hsame (u : θ) (hu : ((c.become t code).code u).Rotates) : (c.code u).Rotates := by
      by_cases hut : u = t
      · subst hut
        rw [become_code_self] at hu
        exact absurd hu hcode
      · rwa [become_code_of_ne hut] at hu
    refine h.rotation.imp (fun ⟨hnone, hwhole⟩ => ⟨fun u hu => hnone u (hsame u hu), hwhole⟩) ?_
    rintro ⟨u, p, rest, hu, honly, hp⟩
    have hut : u ≠ t := by
      rintro rfl
      exact ht (by rw [hu]; trivial)
    exact ⟨u, p, rest, by rw [become_code_of_ne hut, hu], fun w hw => honly w (hsame w hw), hp⟩

/-- A rotation starts. -/
theorem Sane.enter {rest : Prog Unit} (hown : logInfoPath log.name ≠ log.name)
    (h : Sane log cwd aside sh c) (ht : c.code t = .outside (.done (some rest)))
    (hnone : ∀ u, ¬(c.code u).Rotates) (hfits : ∀ logInfo, log.Counter c.disk logInfo →
      Word.Fits (logInfo.oldestIndex + MAX_LOG_FILE_NUM)) :
    Sane log cwd aside sh (c.become t (.inside (BackupLogFile log.text) rest)) := by
  have hfollows := h.follows t
  rw [ht] at hfollows
  refine ⟨h.place, h.sound, fun u => ?_, .inr ⟨t, _, rest, become_code_self, fun u hu => ?_, ?_⟩⟩
  · by_cases hu : u = t
    · subst hu
      rw [become_code_self]
      exact hfollows rest rfl
    · rw [become_code_of_ne hu]
      exact h.follows u
  · by_contra hut
    rw [become_code_of_ne hut] at hu
    exact hnone u hu
  · obtain ⟨-, logInfo, hwhole⟩ | ⟨u, p, rest', hu, -⟩ := h.rotation
    · exact steady_BackupLogFile (s := c.view t) hown hwhole (hfits logInfo hwhole.counter)
    · exact absurd (by rw [hu]; trivial) (hnone u)

/-- A rotation ends. -/
theorem Sane.leave {rest : Prog Unit} {a : Unit} (h : Sane log cwd aside sh c)
    (ht : c.code t = .inside (.done a) rest) :
    Sane log cwd aside sh (c.become t (.outside (rest >>= fun _ => pure none))) := by
  have hrotates : (c.code t).Rotates := by
    rw [ht]
    trivial
  have hfollows := h.follows t
  rw [ht] at hfollows
  refine ⟨h.place, h.sound, fun u => ?_, .inl ?_⟩
  · by_cases hu : u = t
    · subst hu
      rw [become_code_self]
      refine Obeys.bind (hfollows.mono fun _ opened _ => ?_)
      rintro rest' ⟨⟩
    · rw [become_code_of_ne hu]
      exact h.follows u
  · obtain ⟨hnone, -⟩ | ⟨u, p, rest', hu, honly, hp⟩ := h.rotation
    · exact absurd hrotates (hnone t)
    · obtain rfl := honly t hrotates
      rw [ht] at hu
      cases hu
      refine ⟨fun u hu => ?_, hp _ (.refl _)⟩
      by_cases hut : u = t
      · subst hut
        rw [become_code_self] at hu
        exact hu
      · rw [become_code_of_ne hut] at hu
        exact hut (honly u hu)

theorem whole_grows {d d' : Disk} {logInfo : LogInfo} (h : log.Whole logInfo d)
    (hd : Grows log cwd d d') (hcwd : d.cwd = cwd) : log.Whole logInfo d' := by
  have hbeside : log.Beside ⟨d, fun _ => none⟩ ⟨d', fun _ => none⟩ := hd.beside hcwd fun _ _ => rfl
  have hranges := LogFile.Ranges.beside (s := ⟨d, fun _ => none⟩) h.ranges hbeside
  refine ⟨?_, h.count, h.first, ?_⟩
  · refine counter_congr h.counter hbeside.cwd hbeside.info (iff_of_true ?_ h.ranges.dir)
    rw [← hbeside.cwd]
    exact hranges.dir
  · rw [hbeside.cwd, hbeside.info]
    exact hranges

section Calls

variable (hown : logInfoPath log.name ≠ log.name) (haside : Apart log cwd aside)
  (hsh : sh ("touch ".toList ++ log.text) = [["touch".toList, log.text]])
  (hx : x.Succeeds)
include hown haside hx

include hsh in
/-- A call outside a rotation. -/
theorem Sane.outside {a : Call} {next : a.Answer → Task} (h : Sane log cwd aside sh c)
    (ht : c.code t = .outside (.call a next)) :
    Sane log cwd aside sh (c.make t sh a x fun r => .outside (next r)).1 ∧
      log.Careful cwd aside (event sh a x (c.view t)) := by
  have hfollows := h.follows t
  rw [ht] at hfollows
  obtain ⟨ha, hnext⟩ := hfollows
  obtain ⟨hgrows, hopened, hsound, hcareful⟩ :=
    outwards_act hown haside hsh hx (s := c.view t) h.place ha (h.sound t)
  refine ⟨?_, hcareful⟩
  have hstops : x.fate ≠ .stops := by simp [hx.1]
  have hothers (u : θ) {f : Fd} (hf : ∀ h ∈ c.opened u f, c.disk.node h.path ≠ none) :
      others sh a x (c.view u) f = c.opened u f :=
    others_outside hown hsh hx (s := c.view u) h.place ha hf
  have hlog (u : θ) : others sh a x (c.view u) .logFd = c.opened u .logFd := by
    refine hothers u fun h' hm hnone => ?_
    obtain ⟨-, -, c', hc'⟩ := h.sound u h' hm
    rw [Disk.content_eq_some, hnone] at hc'
    cases hc'
  refine ⟨?_, fun u h' hm => ?_, fun u => ?_, ?_⟩
  · rw [make_disk hstops]
    exact hgrows.1.trans h.place
  · rw [make_disk hstops]
    by_cases hu : u = t
    · subst hu
      rw [make_opened_self hstops] at hm
      exact hsound h' hm
    · rw [make_opened_of_ne hstops hu, hlog] at hm
      exact (h.sound u h' hm).grows hgrows
  · by_cases hu : u = t
    · subst hu
      rw [make_code_self hstops, make_opened_self hstops]
      rw [event] at hopened
      rw [hopened]
      exact hnext _
    · rw [make_code_of_ne hstops hu, make_opened_of_ne hstops hu, hlog]
      exact h.follows u
  · have hquiet (u : θ) (hu : ((c.make t sh a x fun r => .outside (next r)).1.code u).Rotates) :
        u ≠ t ∧ (c.code u).Rotates := by
      by_cases hut : u = t
      · subst hut
        rw [make_code_self hstops] at hu
        exact hu.elim
      · rw [make_code_of_ne hstops hut] at hu
        exact ⟨hut, hu⟩
    rcases h.rotation with ⟨hnone, logInfo, hwhole⟩ | ⟨u, p, rest, hu, honly, hp⟩
    · refine .inl ⟨fun u hu => hnone u (hquiet u hu).2, logInfo, ?_⟩
      rw [make_disk hstops]
      exact whole_grows hwhole hgrows h.place
    · have hut : u ≠ t := by
        rintro rfl
        rw [ht] at hu
        cases hu
      refine .inr ⟨u, p, rest, ?_, fun w hw => honly w (hquiet w hw).2, ?_⟩
      · rw [make_code_of_ne hstops hut, hu]
      · rw [view, make_disk hstops, make_opened_of_ne hstops hut]
        refine hp.beside (fun _ _ _ => LogFile.Beside.trans) ?_
        refine Grows.beside (s := c.view u) hgrows h.place fun hfd hnode => hothers u ?_
        rintro h' hm
        obtain rfl := Option.some.inj (hfd.symm.trans hm)
        exact hnode

/-- A call of a rotation. -/
theorem Sane.inside {a : Call} {next : a.Answer → Prog Unit} {rest : Prog Unit}
    (h : Sane log cwd aside sh c) (ht : c.code t = .inside (.call a next) rest)
    (hallowed : log.Allowed a x (c.view t)) (hremoved : ∀ path, a = .unlink path →
      ∀ u, ∀ h ∈ c.opened u .logFd, h.path ≠ c.disk.path path) :
    Sane log cwd aside sh (c.make t sh a x fun r => .inside (next r) rest).1 ∧
      log.Careful cwd aside (event sh a x (c.view t)) := by
  have hstops : x.fate ≠ .stops := by simp [hx.1]
  have hrotates : (c.code t).Rotates := by
    rw [ht]
    trivial
  have hfollows := h.follows t
  rw [ht] at hfollows
  obtain ⟨hnone, -⟩ | ⟨u, p, rest', hu, honly, hp⟩ := h.rotation
  · exact absurd hrotates (hnone t)
  obtain rfl := honly t hrotates
  rw [ht] at hu
  cases hu
  obtain ⟨hfair, hnext⟩ : log.Fair (event sh a x (c.view t)) ∧ Steady log sh _
      (next (act sh a x (c.view t)).1) (act sh a x (c.view t)).2 :=
    hp (c.view t) (.refl _) x hallowed _ _ ((perform_eq_some sh).mpr ⟨hstops, rfl⟩)
  have hopen (u : θ) := fair_open hown haside hfair hx h.place (v := c.view u) rfl (h.sound u)
    fun path ha => hremoved path ha u
  have hlog (u : θ) : (c.make t sh a x fun r => .inside (next r) rest).1.opened u .logFd =
      others sh a x (c.view u) .logFd := by
    by_cases hu : u = t
    · subst hu
      rw [make_opened_self hstops]
      exact fair_own hfair
    · rw [make_opened_of_ne hstops hu]
  refine ⟨⟨?_, fun u h' hm => ?_, fun u => ?_, .inr ⟨t, next _, rest, make_code_self hstops,
    fun u hu => ?_, ?_⟩⟩, hfair.careful hown h.place⟩
  · rw [make_disk hstops]
    exact (fair_cwd hfair).trans h.place
  · rw [make_disk hstops]
    rw [hlog] at hm
    exact (hopen u).2 h' hm
  · rw [hlog, (hopen u).1]
    by_cases hu : u = t
    · subst hu
      rw [make_code_self hstops]
      exact hfollows
    · rw [make_code_of_ne hstops hu]
      exact h.follows u
  · by_contra hut
    rw [make_code_of_ne hstops hut] at hu
    exact hut (honly u hu)
  · have hview : (c.make t sh a x fun r => .inside (next r) rest).1.view t =
        (act sh a x (c.view t)).2 := by rw [view, make_disk hstops, make_opened_self hstops]
    rw [hview]
    exact hnext

end Calls

/-- A call that loses nothing is recorded. -/
theorem lossless_make {a : Call} {next : a.Answer → Code} {o : Trace} (hx : x.fate ≠ .stops)
    (ho : log.Lossless cwd aside o c.disk) (ha : log.Careful cwd aside (event sh a x (c.view t))) :
    log.Lossless cwd aside (o ++ (c.make t sh a x next).2) (c.make t sh a x next).1.disk := by
  rw [make_calls hx, make_disk hx]
  exact ho.concat ha rfl

/-- A turn on which rotations do not meet loses nothing. -/
theorem Sane.step {i : Turn θ log} {o : Trace} (hown : logInfoPath log.name ≠ log.name)
    (haside : Apart log cwd aside)
    (hsh : sh ("touch ".toList ++ log.text) = [["touch".toList, log.text]])
    (h : Sane log cwd aside sh c) (ho : log.Lossless cwd aside o c.disk)
    (hi : Exclusive log aside i c) :
    Sane log cwd aside sh (Callers.step sh log i c).1 ∧
      log.Lossless cwd aside (o ++ (Callers.step sh log i c).2) (Callers.step sh log i c).1.disk := by
  have hquiet : log.Lossless cwd aside (o ++ []) c.disk := by rwa [List.append_nil]
  cases i with
  | start t caller =>
    rw [Exclusive, h.place] at hi
    simp only [Callers.step]
    rcases ht : c.code t with _ | task | ⟨p, rest⟩
    · exact ⟨h.become (by rw [ht]; exact id) id (follows_task caller hi _), hquiet⟩
    · exact ⟨h, hquiet⟩
    · exact ⟨h, hquiet⟩
  | call t x =>
    obtain ⟨hx, hi⟩ := hi
    have hstops : x.fate ≠ .stops := by simp [hx.1]
    simp only [Callers.step]
    rcases ht : c.code t with _ | (⟨_ | rest⟩ | ⟨a, next⟩) | ⟨(_ | ⟨a, next⟩), rest⟩ <;>
      simp only [ht] at hi ⊢
    · exact ⟨h, hquiet⟩
    · exact ⟨h.become (by rw [ht]; exact id) id trivial, hquiet⟩
    · exact ⟨h.enter hown ht hi.1 hi.2, hquiet⟩
    · obtain ⟨hsane, hcareful⟩ := h.outside hown haside hsh hx ht
      exact ⟨hsane, lossless_make hstops ho hcareful⟩
    · exact ⟨h.leave ht, hquiet⟩
    · have hallowed : log.Allowed a x (c.view t) := by
        refine ⟨hx, fun old new ha => ?_⟩
        subst ha
        exact hi
      obtain ⟨hsane, hcareful⟩ := h.inside hown haside hx ht hallowed fun path ha => by
        subst ha
        exact hi
      exact ⟨hsane, lossless_make hstops ho hcareful⟩

/-- Nothing is lost in a run on whose turns rotations do not meet. -/
theorem callers_lossless {logInfo : LogInfo} (hown : logInfoPath log.name ≠ log.name)
    (hsh : sh ("touch ".toList ++ log.text) = [["touch".toList, log.text]])
    (c : Callers θ) (hidle : ∀ t, c.code t = .idle) (hclosed : ∀ t, c.opened t .logFd = none)
    (hwhole : log.Whole logInfo c.disk) (haside : Apart log c.disk.cwd aside)
    (l : List (Turn θ log)) (hl : (Callers.step sh log).Along (Exclusive log aside) l c) :
    log.Lossless c.disk.cwd aside ((Callers.step sh log).run l c).2
      ((Callers.step sh log).run l c).1.disk := by
  have hstart : Sane log c.disk.cwd aside sh c := by
    refine ⟨rfl, fun t h hm => ?_, fun t => ?_, .inl ⟨fun t ht => ?_, logInfo, hwhole⟩⟩
    · rw [hclosed t] at hm
      cases hm
    · rw [hidle t]
      trivial
    · rw [hidle t] at ht
      exact ht
  exact (run_records (R := fun c' o => Sane log c.disk.cwd aside sh c' ∧
    log.Lossless c.disk.cwd aside o c'.disk) (fun i c' o ⟨hs, ho⟩ hi =>
      hs.step hown haside hsh ho hi) l c [] ⟨hstart, .nil c.disk⟩ hl).2

theorem Fresh.whole {d : Disk} (h : Fresh log d) : log.Whole ⟨0, 0⟩ d := by
  refine ⟨.missing h.info h.dir, by decide, fun _ => rfl, h.dir, fun p hp => ?_, fun k => ?_, rfl⟩
  · rcases hp with rfl | ⟨k, rfl⟩
    · rw [h.file]
      simp
    · rw [LogFile.backup, h.backups k]
      simp
  · rw [LogFile.Retains, LogFile.backup, h.backups k]
    simp only [ne_eq, not_true, false_iff]
    omega

/-! ### Two callers on a log that is too large -/

theorem step_look {a : Call} {next : a.Answer → Task} (ht : c.code t = .outside (.call a next))
    (hx : x.fate ≠ .stops) (hact : (act sh a x (c.view t)).2 = c.view t)
    (hothers : ∀ s, others sh a x s = s.opened) : (Callers.step sh log (.call t x) c).1 =
      c.become t (.outside (next (act sh a x (c.view t)).1)) := by
  simp only [Callers.step, ht]
  exact make_look hx hact hothers

/-- What `DBG_signal_safe` does before it comes to a branch. -/
theorem run_checks {dbgStr : Text} {next : Option ℕ → Task} {content : List Item}
    (ht : c.code t = .outside (.call (.stderr dbgStr) fun _ => .call (.stat log.text) next))
    (hfile : c.disk.lookup log.text = some (.file content)) :
    ((Callers.step sh log).run [.call t {}, .call t {}] c).1 =
      c.become t (.outside (next (some (content.map Item.size).sum))) := by
  have hstops : ({} : Choice).fate ≠ .stops := by decide
  have hstderr : (Callers.step sh log (.call t {}) c).1 = _ :=
    step_look ht hstops rfl fun _ => rfl
  have hlookup : (c.become t (.outside (.call (.stat log.text) next))).disk.lookup log.text =
      some (.file content) := hfile
  simp only [Step.run_cons, Step.run_nil, hstderr]
  refine (step_look become_code_self hstops rfl fun _ => rfl).trans ?_
  simp only [act, view, hlookup, Option.map_some, statSize, become_become]

/-- The first three turns of `DBG_signal_safe` on a large file lead it before the rotation. -/
theorem signalSafe_checks {content : List Item} (dbgStr : Text) (ht : c.code t = .idle)
    (hfile : c.disk.lookup log.text = some (.file content))
    (hlarge : DBG_LOG_SIZE_MAX < (content.map Item.size).sum) :
    ((Callers.step sh log).run [.start t (.signalSafe dbgStr), .call t {}, .call t {}] c).1 =
      c.become t (.outside (.done (some (append (pure dbgStr) log.text)))) := by
  have hstart : (Callers.step sh log (.start t (.signalSafe dbgStr)) c).1 =
      c.become t (.outside (signalSafeTask dbgStr log.text)) := by
    simp only [Callers.step, ht]
    rfl
  have hfile' : (c.become t (.outside (signalSafeTask dbgStr log.text))).disk.lookup log.text =
      some (.file content) := hfile
  rw [Step.run_cons, hstart]
  refine (run_checks become_code_self hfile').trans ?_
  rw [become_become]
  exact congrArg (fun task => c.become t (.outside task)) (if_pos hlarge)

def checking (t : Bool) (dbgStr : Text) : List (Turn Bool aLog) :=
  [.start t (.signalSafe dbgStr), .call t {}, .call t {}]

/-- The callers before their rotations. -/
def bothChecked : Callers Bool :=
  (Callers.become { disk := largeLog } true (.outside (.done (some (append
    (pure "one".toList) aLog.text))))).become false (.outside (.done (some (append
      (pure "two".toList) aLog.text))))

/-- Both callers have found the log too large. -/
theorem run_checking (sh : Text → List (List Text)) : ((Callers.step sh aLog).run
    (checking true "one".toList ++ checking false "two".toList) { disk := largeLog }).1 =
      bothChecked := by
  have hfirst : ((Callers.step sh aLog).run (checking true "one".toList)
      { disk := largeLog }).1 = _ :=
    signalSafe_checks _ rfl lookup_largeLog lt_size_largeMessage
  have hsecond : ((Callers.step sh aLog).run (checking false "two".toList) _).1 = bothChecked :=
    signalSafe_checks _ rfl lookup_largeLog lt_size_largeMessage
  rw [Step.run_append, hfirst]
  exact hsecond

instance : DecidablePred Code.Rotates
  | .inside .. => isTrue trivial
  | .idle | .outside _ => isFalse id

/-- The condition on the next call of one of two callers, as long as no backup is removed. -/
def exclusiveNow (t : Bool) (c : Callers Bool) : Bool :=
  match c.code t with
  | .outside (.done (some _)) =>
    decide (¬(c.code true).Rotates ∧ ¬(c.code false).Rotates) &&
      decide (Word.Fits ((aLog.counterOf c.disk).oldestIndex + MAX_LOG_FILE_NUM))
  | .inside (.call (.rename ..) _) _ => (c.disk.node (aLog.path c.disk.cwd aLog.name)).isSome
  | .inside (.call (.unlink _) _) _ => false
  | _ => true

theorem exclusive_of_now {t : Bool} {c : Callers Bool} (h : exclusiveNow t c = true) :
    Exclusive aLog ∅ (.call t {}) c := by
  refine ⟨⟨rfl, fun _ => rfl⟩, ?_⟩
  unfold exclusiveNow at h
  split at h
  · rw [Bool.and_eq_true, decide_eq_true_eq, decide_eq_true_eq] at h
    refine ⟨fun u => ?_, fun logInfo hcounter => hcounter.eq_counterOf ▸ h.2⟩
    cases u
    · exact h.1.2
    · exact h.1.1
  · exact Option.isSome_iff_ne_none.mp h
  · cases h
  · trivial

/-- The condition along some calls of the two callers. -/
def exclusiveCalls (sh : Text → List (List Text)) : List Bool → Callers Bool → Bool
  | [], _ => true
  | t :: l, c => exclusiveNow t c && exclusiveCalls sh l (Callers.step sh aLog (.call t {}) c).1

theorem along_exclusiveCalls {sh : Text → List (List Text)} {l : List Bool} {c : Callers Bool}
    (h : exclusiveCalls sh l c = true) :
    (Callers.step sh aLog).Along (Exclusive aLog ∅) (l.map fun t => .call t {}) c := by
  induction l generalizing c with
  | nil => exact along_nil _ _
  | cons t l ih =>
    rw [exclusiveCalls, Bool.and_eq_true] at h
    exact along_cons.mpr ⟨exclusive_of_now h.1, ih h.2⟩

/-- The first caller rotates the log and opens it; then the second one does, and the first one
writes to what is now a backup. -/
def inTurn : List Bool :=
  List.replicate 11 true ++ List.replicate 11 false ++ List.replicate 3 true ++
    List.replicate 4 false

theorem whole_largeLog : aLog.Whole ⟨0, 0⟩ largeLog := by
  have hinfo : aLog.path [] aLog.name ≠ aLog.info [] := by decide
  have hbackup (k : ℤ) : aLog.path [] aLog.name ≠ aLog.backup [] k :=
    path_name_ne_backup (d := emptyDisk)
  have hnew : Grows aLog [] emptyDisk _ := grows_new hinfo hbackup fresh_aLog.file
  have hfilled : Grows aLog [] _ (Disk.put _ _ (some (.file ([] ++ Item.ofText largeMessage)))) :=
    grows_put hinfo (Disk.put_node_self (d := emptyDisk))
  rw [Disk.put_put] at hfilled
  exact whole_grows (whole_grows fresh_aLog.whole hnew rfl) hfilled rfl

/-- Two callers that find the log too large rotate it one after the other. -/
theorem lossless_inTurn :
    let checks := checking true "one".toList ++ checking false "two".toList
    let run := (Callers.step (fun command => [command.splitOn ' ']) aLog).run
      (checks ++ inTurn.map fun t => .call t {}) { disk := largeLog }
    aLog.Lossless [] ∅ run.2 run.1.disk ∧
      (run.1.disk.content (aLog.backup [] 1)).map Item.text = some "one".toList ∧
      (run.1.disk.content (aLog.path [] aLog.name)).map Item.text = some "two".toList := by
  have hchecks := run_checking fun command => [command.splitOn ' ']
  dsimp only
  refine ⟨callers_lossless (by decide) (by decide) { disk := largeLog } (fun _ => rfl)
    (fun _ => rfl) whole_largeLog (fun p hp => hp.elim) _ ?_, ?_⟩
  · have hx : ({} : Choice).Succeeds := ⟨rfl, fun _ => rfl⟩
    refine Step.along_append.mpr ⟨?_, ?_⟩
    · refine along_cons.mpr ⟨trivial, along_cons.mpr ⟨⟨hx, trivial⟩, along_cons.mpr ⟨⟨hx, trivial⟩, ?_⟩⟩⟩
      refine along_cons.mpr ⟨trivial, along_cons.mpr ⟨⟨hx, trivial⟩, along_cons.mpr ⟨⟨hx, trivial⟩,
        along_nil _ _⟩⟩⟩
    · rw [hchecks]
      exact along_exclusiveCalls (by decide +kernel)
  · rw [Step.run_append, hchecks]
    decide +kernel

/-! ### Rotations that meet -/

/-- Two callers read the counter before one of them stores it; the first one goes on to its end. -/
def meeting : List (Turn Bool aLog) :=
  List.replicate 5 (.call true {}) ++ List.replicate 6 (.call false {}) ++
    List.replicate 8 (.call true {}) ++ [.call false {}]

/-- A file takes the place of the first backup, which is the only one. -/
def overwritesFirst (e : Event Call Call.Answer State) : Bool :=
  decide (relocate e (aLog.backup [] 0) = none) &&
    (e.before.disk.node (aLog.backup [] 0)).isSome &&
    (e.before.disk.node (aLog.backup e.before.disk.cwd 1)).isNone

theorem not_careful_of_overwritesFirst {e : Event Call Call.Answer State}
    (h : overwritesFirst e = true) : ¬aLog.Careful [] ∅ e := by
  intro hcareful
  simp only [overwritesFirst, Bool.and_eq_true, decide_eq_true_eq, Option.isNone_iff_eq_none] at h
  obtain ⟨⟨hrelocate, hsome⟩, hnone⟩ := h
  obtain ⟨k, hk, hlimit⟩ := hcareful.dropped _ (.inr ⟨0, rfl⟩)
    (Option.isSome_iff_ne_none.mp hsome) hrelocate
  obtain rfl : 0 = k := by
    rwa [LogFile.backup, LogFile.backup, aLog.path_inj, backupFilePath_inj] at hk
  exact (hlimit 1).mpr (by decide) hnone

/-- Two calls of `DBG_signal_safe` find the log too large and read the same counter; the second one
overwrites the backup that the first one made. -/
theorem rotations_meet : ¬aLog.Lossless [] ∅
    ((Callers.step (fun _ => []) aLog).run
      (checking true "one".toList ++ (checking false "two".toList ++ meeting))
      { disk := largeLog }).2
    ((Callers.step (fun _ => []) aLog).run
      (checking true "one".toList ++ (checking false "two".toList ++ meeting))
      { disk := largeLog }).1.disk := by
  have hoverwrites : ((Callers.step (fun _ => []) aLog).run meeting bothChecked).2.any
      overwritesFirst = true := by
    decide +kernel
  obtain ⟨e, he, hover⟩ := List.any_eq_true.mp hoverwrites
  intro h
  refine not_careful_of_overwritesFirst hover (h.careful e ?_)
  rw [← List.append_assoc, Step.run_append, run_checking]
  exact List.mem_append_right _ he

end ConferenceCall.Log

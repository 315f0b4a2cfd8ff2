import ConferenceCall.Log.Ageing
import ConferenceCall.Log.Convergence

/-! A line on the disk and the calls that keep it: files that are written to grow, no file that
holds the line is replaced or unlinked, and what is removed was packed before. -/

namespace ConferenceCall.Log

open Library Program

/-- The archive a command writes. -/
def Command.packs : Command → Option Text
  | .tar target _ _ => some target
  | _ => none

/-- A listed name needs no quotes, and the commands succeed. -/
def Orderly : Event Call Call.Answer State → Prop
  | ⟨.readdir _ name, d_type, _, _⟩ => d_type ≠ none → Clean name
  | ⟨.system _, rans, _, _⟩ => ∀ ran ∈ rans, ran.ok = true
  | _ => True

/-- The line stands in the file of this name. -/
def Stands (line : Text) (d : Disk) (path : Text) : Prop :=
  ∃ c, d.content (d.path path) = some c ∧ Item.Holds line c

/-- A file that holds the line is replaced or unlinked. -/
def Loses (sh : Text → List (List Text)) (line : Text) : Event Call Call.Answer State → Prop
  | ⟨.rename _ new, renamed, s, _⟩ => renamed = true ∧ Stands line s.disk new
  | ⟨.unlink path, unlinked, s, _⟩ => unlinked = true ∧ Stands line s.disk path
  | ⟨.system command, _, s, _⟩ => ∃ words ∈ sh command,
    ∃ target ∈ (Command.ofWords words).packs, Stands line s.disk target
  | _ => False

/-- The calls that keep a line. -/
def Conserving (sh : Text → List (List Text)) (line : Text) (e : Event Call Call.Answer State) :
    Prop :=
  Orderly e ∧ ¬Loses sh line e

/-- A file at one of the paths holds the line, and only the log is open there. -/
structure Held (cwd : Path) (P : Path → Prop) (line : Text) (s : State) : Prop where
  cwd : s.disk.cwd = cwd
  appends : ∀ h ∈ s.opened .logFd, h.appends = true
  plain : ∀ h ∈ s.opened .fd, ¬IsArchive h.path
  live : ∀ f, ∀ h ∈ s.opened f, s.disk.node h.path ≠ none
  held : ∃ p c, P p ∧ s.disk.content p = some c ∧ Item.Holds line c ∧ ∀ h ∈ s.opened .fd, h.path ≠ p

/-- The calls that lose nothing at these paths. -/
def Call.Gentle (cwd : Path) (P : Path → Prop) : Call → Prop
  | .openFile .logFd _ _ appends => appends = true
  | .openFile .fd path _ _ => ¬P (Path.resolve cwd path) ∧ ¬IsArchive (Path.resolve cwd path)
  | .rename old new => Path.resolve cwd old ≠ Path.resolve cwd new ∧
    (P (Path.resolve cwd old) → P (Path.resolve cwd new)) ∧ ¬IsArchive (Path.resolve cwd new)
  | .system _ => False
  | _ => True

variable {sh : Text → List (List Text)} {cwd p q : Path} {P Q : Path → Prop} {line : Text}
  {s t : State} {x : Choice} {c : Call}

/-- What is open after a file was renamed. -/
theorem State.mem_move_cases {f : Fd} {h : Handle} (hpq : p ≠ q) (hm : h ∈ (s.move p q).opened f) :
    (h.path = q ∧ { h with path := p } ∈ s.opened f) ∨
      (h ∈ s.opened f ∧ h.path ≠ p ∧ h.path ≠ q) := by
  obtain ⟨h', hs, hm⟩ := Option.bind_eq_some_iff.mp hm
  split_ifs at hm with hp hq
  · cases hm
    subst hp
    exact .inl ⟨rfl, hs⟩
  · cases hm
    exact .inr ⟨hs, hp, hq⟩

variable (sh x) in
/-- The files that are open are there. -/
theorem live_act (c : Call) (hlive : ∀ f, ∀ h ∈ s.opened f, s.disk.node h.path ≠ none) :
    ∀ f, ∀ h ∈ (act sh c x s).2.opened f, (act sh c x s).2.disk.node h.path ≠ none := by
  have hset {d : Disk} (g : Fd) {o : Option Handle}
      (hold : ∀ p, s.disk.node p ≠ none → d.node p ≠ none)
      (ho : ∀ h ∈ o, d.node h.path ≠ none) (f : Fd) (h : Handle)
      (hm : h ∈ ({ s with disk := d }.setOpen g o).opened f) : d.node h.path ≠ none := by
    rcases State.mem_setOpen hm with hm | hm
    · exact hold _ (hlive f h hm)
    · exact ho h hm
  have hfilter (d : Disk) (f : Fd) (h : Handle) (hm : h ∈ (s.setDisk d).opened f) :
      d.node h.path ≠ none :=
    Option.isSome_iff_ne_none.mp (Option.filter_eq_some_iff.mp hm).2
  cases c with
  | openFile g path creates appends =>
    rcases act_openFile_cases sh x s g path creates appends with
      hact | ⟨c, hl, hact⟩ | ⟨-, -, hact⟩ <;> rw [hact]
    · exact hset g (fun _ hp => hp) (by simp)
    · refine hset g (fun _ hp => hp) ?_
      rintro h ⟨⟩
      rw [Disk.node_of_lookup hl]
      simp
    · refine hset g (fun _ => put_kept) ?_
      rintro h ⟨⟩
      simp
  | write g text =>
    have hopened : (act sh (.write g text) x s).2.opened = s.opened := by
      simp only [act]
      split <;> rfl
    intro f h hm
    rw [Ne, write_node_none]
    exact hlive f h (hopened ▸ hm)
  | close g => exact hset g (fun _ hp => hp) (by simp)
  | rename old new =>
    rcases act_rename_cases sh x s old new with hact | ⟨c, hl, -, hact⟩ <;> rw [hact]
    · exact hlive
    intro f h hm
    by_cases hpq : s.disk.path old = s.disk.path new
    · obtain ⟨h', hs, hp | hp⟩ := State.mem_move hm
      · change (s.disk.move _ _).node h.path ≠ none
        rw [Disk.move, if_pos hpq, hp]
        exact hlive f h' hs
      · change (s.disk.move _ _).node h.path ≠ none
        rw [Disk.move, if_pos hpq, hp, ← hpq, Disk.node_of_lookup hl]
        simp
    · change (s.disk.move _ _).node h.path ≠ none
      rcases State.mem_move_cases hpq hm with ⟨hp, hs⟩ | ⟨hs, hp, hq⟩
      · rw [hp, Disk.move_node_new hpq]
        exact hlive f _ hs
      · rw [Disk.move_node_of_ne hp hq]
        exact hlive f h hs
  | unlink path =>
    rcases act_unlink_cases sh x s path with hact | ⟨c, -, hact⟩ <;> rw [hact]
    · exact hlive
    · exact hfilter _
  | mkdir path =>
    simp only [act]
    split_ifs
    · exact hlive
    · exact fun f h hm => put_kept (hlive f h hm)
  | system command =>
    simp only [act]
    split_ifs
    · exact hlive
    · exact hfilter _
  | _ => exact hlive

variable (sh x) in
/-- A command opens no file. -/
theorem opened_system (command : Text) {f : Fd} {h : Handle}
    (hm : h ∈ (act sh (.system command) x s).2.opened f) : h ∈ s.opened f := by
  simp only [act] at hm
  split_ifs at hm
  · exact hm
  · exact State.mem_setDisk hm

/-- An archive that succeeds holds what was at and below the operands. -/
theorem run_tar {t : Tool} {d : Disk} {target base : Text} {operands : List Text} (ht : t.ok = true)
    (hok : ((Command.tar target base operands).run t d).2.ok = true) :
    ((Command.tar target base operands).run t d).1 = d.put (d.path target)
      (some (.file [.archive t.size (d.members (tarPaths d base operands))])) := by
  simp only [Command.run] at hok ⊢
  split_ifs at hok ⊢
  · rfl

namespace Held

theorem mono (h : Held cwd P line s) (hP : ∀ p, P p → Q p) : Held cwd Q line s := by
  obtain ⟨p, c, hp, hrest⟩ := h.held
  exact ⟨h.cwd, h.appends, h.plain, h.live, p, c, hP p hp, hrest⟩

/-- A directory holds no line. -/
theorem narrow (h : Held cwd P line s) (hq : s.disk.node q = some .dir) :
    Held cwd (fun p => P p ∧ p ≠ q) line s := by
  obtain ⟨p, c, hp, hc, hrest⟩ := h.held
  refine ⟨h.cwd, h.appends, h.plain, h.live, p, c, ⟨hp, ?_⟩, hc, hrest⟩
  rintro rfl
  rw [Disk.content_eq_some, hq] at hc
  cases hc

/-- Files grow, and nothing is opened. -/
theorem of_grows (h : Held cwd P line s) (hcwd : t.disk.cwd = s.disk.cwd)
    (hlive : ∀ f, ∀ g ∈ t.opened f, t.disk.node g.path ≠ none)
    (hopened : ∀ f, ∀ g ∈ t.opened f, g ∈ s.opened f)
    (hgrows : ∀ p c, s.disk.content p = some c → (∀ g ∈ s.opened .fd, g.path ≠ p) →
      ∃ more, t.disk.content p = some (c ++ more)) : Held cwd P line t := by
  obtain ⟨p, c, hp, hc, hline, hfd⟩ := h.held
  obtain ⟨more, hmore⟩ := hgrows p c hc hfd
  exact ⟨hcwd.trans h.cwd, fun g hg => h.appends g (hopened _ g hg),
    fun g hg => h.plain g (hopened _ g hg), hlive, p, c ++ more, hp, hmore, hline.append more,
    fun g hg => hfd g (hopened _ g hg)⟩

/-- A file is opened that may be made before. -/
theorem setOpen (h : Held cwd P line s) {d : Disk} {f : Fd} {o : Option Handle}
    (hcwd : d.cwd = s.disk.cwd) (hlive : ∀ g, ∀ h ∈ ({ s with disk := d }.setOpen f o).opened g,
      d.node h.path ≠ none)
    (hsame : ∀ p c, s.disk.content p = some c → d.content p = some c)
    (ho : ∀ g ∈ o, (f = .logFd → g.appends = true) ∧
      (f = .fd → ¬P g.path ∧ ¬IsArchive g.path)) :
    Held cwd P line ({ s with disk := d }.setOpen f o) := by
  have hopened {f' : Fd} {g : Handle} (hg : g ∈ ({ s with disk := d }.setOpen f o).opened f') :
      g ∈ s.opened f' ∨ f' = f ∧ g ∈ o := by
    by_cases hf : f' = f
    · subst hf
      exact .inr ⟨rfl, by simpa [State.setOpen] using hg⟩
    · exact .inl (by simpa [State.setOpen, hf] using hg)
  obtain ⟨p, c, hp, hc, hline, hfd⟩ := h.held
  refine ⟨hcwd.trans h.cwd, fun g hg => ?_, fun g hg => ?_, hlive, p, c, hp, hsame p c hc, hline,
    fun g hg => ?_⟩
  · rcases hopened hg with hg | ⟨hf, hg⟩
    · exact h.appends g hg
    · exact (ho g hg).1 hf.symm
  · rcases hopened hg with hg | ⟨hf, hg⟩
    · exact h.plain g hg
    · exact ((ho g hg).2 hf.symm).2
  · rcases hopened hg with hg | ⟨hf, hg⟩
    · exact hfd g hg
    · rintro rfl
      exact ((ho g hg).2 hf.symm).1 hp

/-- A file is given a name at which the line does not stand. -/
theorem move (h : Held cwd P line s) {old new : Path} (hne : old ≠ new)
    (hnew : ∀ c, s.disk.content new = some c → ¬Item.Holds line c)
    (hlive : ∀ f, ∀ g ∈ (s.move old new).opened f, (s.move old new).disk.node g.path ≠ none)
    (hP : P old → P new) (hplain : ¬IsArchive new) : Held cwd P line (s.move old new) := by
  obtain ⟨p, c, hp, hc, hline, hfd⟩ := h.held
  refine ⟨Disk.move_cwd.trans h.cwd, fun g hg => ?_, fun g hg => ?_, hlive, ?_⟩
  · rcases State.mem_move_cases hne hg with ⟨-, hg⟩ | ⟨hg, -⟩
    · exact h.appends { g with path := old } hg
    · exact h.appends g hg
  · rcases State.mem_move_cases hne hg with ⟨hg, -⟩ | ⟨hg, -⟩
    · rwa [hg]
    · exact h.plain g hg
  by_cases hpold : p = old
  · subst hpold
    refine ⟨new, c, hP hp, ?_, hline, fun g hg => ?_⟩
    · rw [← hc]
      exact Disk.content_congr (Disk.move_node_new hne)
    · rcases State.mem_move_cases hne hg with ⟨-, hg⟩ | ⟨-, -, hg⟩
      · exact absurd rfl (hfd _ hg)
      · exact hg
  · have hpnew : p ≠ new := by
      rintro rfl
      exact hnew c hc hline
    refine ⟨p, c, hp, ?_, hline, fun g hg => ?_⟩
    · rw [← hc]
      exact Disk.content_congr (Disk.move_node_of_ne hpold hpnew)
    · rcases State.mem_move_cases hne hg with ⟨hg, -⟩ | ⟨hg, -⟩
      · exact hg.symm ▸ hpnew.symm
      · exact hfd g hg

variable (sh x) in
/-- A gentle call that conserves keeps the line. -/
theorem of_act (h : Held cwd P line s) (hc : c.Gentle cwd P)
    (hfair : Conserving sh line (event sh c x s)) : Held cwd P line (act sh c x s).2 := by
  have hlive := live_act sh x c h.live
  cases c with
  | openFile f path creates appends =>
    have ho : ∀ g ∈ some (⟨s.disk.path path, appends⟩ : Handle),
        (f = .logFd → g.appends = true) ∧ (f = .fd → ¬P g.path ∧ ¬IsArchive g.path) := by
      rintro g ⟨⟩
      refine ⟨?_, ?_⟩
      · rintro rfl
        exact hc
      · rintro rfl
        rw [Disk.path, h.cwd]
        exact hc
    rcases act_openFile_cases sh x s f path creates appends with
      hact | ⟨_, -, hact⟩ | ⟨-, hnew, hact⟩ <;> rw [hact] at hlive ⊢
    · exact h.setOpen rfl hlive (fun _ _ hp => hp) (by simp)
    · exact h.setOpen rfl hlive (fun _ _ hp => hp) ho
    · exact h.setOpen rfl hlive (fun _ _ hp => Disk.content_put_of_none hnew.1 hp) ho
  | write f text =>
    simp only [act] at hlive ⊢
    cases ht : s.target f with
    | none => exact h
    | some g =>
      obtain ⟨g, content⟩ := g
      obtain ⟨g', hg, hm⟩ := Option.bind_eq_some_iff.mp ht
      obtain ⟨content', hcontent, hpair⟩ := Option.map_eq_some_iff.mp hm
      cases hpair
      simp only [ht] at hlive
      refine h.of_grows rfl hlive (fun _ _ hm => hm) fun p c hp hfd => ?_
      by_cases hpg : p = g.path
      · subst hpg
        obtain rfl : content = c := Option.some.inj (hcontent.symm.trans hp)
        cases f with
        | logFd =>
          refine ⟨Item.ofText (x.fate.moved text), ?_⟩
          rw [Disk.content_eq_some, Disk.put_node_self, h.appends g hg, if_pos rfl]
        | fd => exact absurd rfl (hfd g hg)
      · refine ⟨[], ?_⟩
        rw [List.append_nil, ← hp]
        exact Disk.content_congr (Disk.put_node_of_ne hpg)
  | close f => exact h.setOpen rfl hlive (fun _ _ hp => hp) (by simp)
  | rename old new =>
    obtain ⟨hne, hP, hplain⟩ := hc
    rcases act_rename_cases sh x s old new with hact | ⟨_, -, -, hact⟩
    · rw [hact]
      exact h
    · have hlost : ¬Stands line s.disk new := fun hstands =>
        hfair.2 ⟨congrArg Prod.fst hact, hstands⟩
      rw [hact] at hlive ⊢
      rw [← h.cwd] at hne hP hplain
      exact h.move hne (fun c hc hline => hlost ⟨c, hc, hline⟩) hlive hP hplain
  | unlink path =>
    rcases act_unlink_cases sh x s path with hact | ⟨_, -, hact⟩
    · rw [hact]
      exact h
    · have hlost : ¬Stands line s.disk path := fun hstands =>
        hfair.2 ⟨congrArg Prod.fst hact, hstands⟩
      rw [hact] at hlive ⊢
      obtain ⟨p, c, hp, hcontent, hline, hfd⟩ := h.held
      have hne : p ≠ s.disk.path path := by
        rintro rfl
        exact hlost ⟨c, hcontent, hline⟩
      refine ⟨h.cwd, fun g hg => h.appends g (State.mem_setDisk hg),
        fun g hg => h.plain g (State.mem_setDisk hg), hlive, p, c, hp, ?_, hline,
        fun g hg => hfd g (State.mem_setDisk hg)⟩
      rw [← hcontent]
      exact Disk.content_congr (Disk.put_node_of_ne hne)
  | mkdir path =>
    simp only [act] at hlive ⊢
    split_ifs with hfails
    · exact h
    · have hnone : s.disk.node (s.disk.path path) = none := by
        by_contra hne
        exact hfails (.inr (.inl hne))
      rw [if_neg hfails] at hlive
      refine h.of_grows rfl hlive (fun _ _ hm => hm) fun p c hp _ => ⟨[], ?_⟩
      rw [List.append_nil]
      exact Disk.content_put_of_none hnone hp
  | system command => exact hc.elim
  | _ => exact h

section Commands

variable {command : Text}

/-- The archive replaces no file in which the line stands. -/
theorem pack_disk {words : List Text} {target base operand : Text} (hsh : sh command = [words])
    (hwords : Command.ofWords words = .tar target base [operand])
    (hq : Path.resolve (Path.resolve cwd base) operand = q) (hx : x.Succeeds)
    (hcwd : s.disk.cwd = cwd) (hfair : Conserving sh line (event sh (.system command) x s)) :
    ¬Stands line s.disk target ∧
      (act sh (.system command) x s).2.disk = s.disk.put (Path.resolve cwd target)
        (some (.file [.archive (x.tools 0).size (s.disk.members [q])])) := by
  subst hcwd
  have hfails : x.fate ≠ .fails := by simp [hx.1]
  have hact : act sh (.system command) x s =
      ([((Command.tar target base [operand]).run (x.tools 0) s.disk).2],
        s.setDisk ((Command.tar target base [operand]).run (x.tools 0) s.disk).1) := by
    simp only [act, if_neg hfails, hsh, List.map_cons, List.map_nil, hwords, runCommands]
  obtain ⟨hok, hlost⟩ := hfair
  have hran : ((Command.tar target base [operand]).run (x.tools 0) s.disk).2.ok = true := by
    refine hok _ ?_
    rw [hact]
    exact List.mem_singleton.mpr rfl
  have hpaths : tarPaths s.disk base [operand] = [q] := by
    rw [tarPaths, List.map_singleton, Disk.path, hq]
  refine ⟨fun hstands => hlost ⟨words, ?_, target, ?_, hstands⟩, ?_⟩
  · rw [hsh]
    exact List.mem_singleton.mpr rfl
  · rw [hwords]
    rfl
  · rw [hact, ← hpaths]
    exact run_tar (hx.2 0) hran

/-- What is at and below a path is packed to another one. -/
theorem pack {words : List Text} {target base operand : Text} (hsh : sh command = [words])
    (hwords : Command.ofWords words = .tar target base [operand])
    (hq : Path.resolve (Path.resolve cwd base) operand = q) (hx : x.Succeeds)
    (h : Held cwd P line s) (hfair : Conserving sh line (event sh (.system command) x s))
    (htarget : IsArchive (Path.resolve cwd target))
    (hin : ∀ p, P p → q <+: p → Q (Path.resolve cwd target))
    (hout : ∀ p, P p → ¬q <+: p → Q p) : Held cwd Q line (act sh (.system command) x s).2 := by
  obtain ⟨hstands, hdisk⟩ := pack_disk hsh hwords hq hx h.cwd hfair
  have hopened {f : Fd} {g : Handle} := opened_system sh x (s := s) command (f := f) (h := g)
  obtain ⟨p, c, hp, hc, hline, hfd⟩ := h.held
  refine ⟨?_, fun g hg => h.appends g (hopened hg), fun g hg => h.plain g (hopened hg),
    live_act sh x _ h.live, ?_⟩
  · rw [hdisk]
    exact h.cwd
  by_cases hqp : q <+: p
  · refine ⟨Path.resolve cwd target, [.archive (x.tools 0).size (s.disk.members [q])],
      hin p hp hqp, ?_, ?_, fun g hg => ?_⟩
    · rw [hdisk, Disk.content_eq_some]
      exact Disk.put_node_self
    · refine .packed (List.mem_singleton.mpr rfl) (p := p) ?_ hline
      rw [Disk.members, if_pos ⟨q, List.mem_singleton.mpr rfl, hqp⟩, hc]
    · intro hpath
      exact h.plain g (hopened hg) (hpath ▸ htarget)
  · have hne : p ≠ Path.resolve cwd target := by
      rw [← h.cwd]
      rintro rfl
      exact hstands ⟨c, hc, hline⟩
    refine ⟨p, c, hout p hp hqp, ?_, hline, fun g hg => hfd g (hopened hg)⟩
    rw [hdisk, ← hc]
    exact Disk.content_congr (Disk.put_node_of_ne hne)

/-- What is removed does not hold the line. -/
theorem remove {folder : Text} {n : Name} (hfolder : Path.Folder folder) (hn : Path.Proper n)
    (hsh : sh command = [["rm".toList, "-rf".toList, folder ++ n]]) (hx : x.Succeeds)
    (h : Held cwd (fun p => P p ∧ ¬Path.resolve cwd folder ++ [n] <+: p) line s) :
    Held cwd P line (act sh (.system command) x s).2 := by
  obtain ⟨p, c, ⟨hp, hprefix⟩, hc, hline, hfd⟩ := h.held
  refine ⟨(within_act sh s x (by simp)).cwd.trans h.cwd,
    fun g hg => h.appends g (opened_system sh x command hg),
    fun g hg => h.plain g (opened_system sh x command hg), live_act sh x _ h.live, p, c, hp, ?_,
    hline, fun g hg => hfd g (opened_system sh x command hg)⟩
  rw [← hc]
  refine Disk.content_congr ?_
  rw [node_removed hfolder hn x hx hsh h.cwd, if_neg hprefix]

end Commands

end Held

end ConferenceCall.Log

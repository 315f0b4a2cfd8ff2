import ConferenceCall.Log.System

/-! Calls and programs that leave the archives on a disk alone. -/

namespace ConferenceCall.Log

open Library Program

/-- A path with the extension of an archive. -/
def IsArchive (p : Path) : Prop := ∃ q n, p = q ++ [n ++ ".tgz".toList]

/-- An archive that is there. -/
def Archived (d : Disk) (p : Path) : Prop := IsArchive p ∧ d.content p ≠ none

/-- A command that leaves the archives alone that are there. -/
def Command.Spares (d : Disk) : Command → Prop
  | .tar target _ _ => ¬Archived d (d.path target)
  | .rm operands => ∀ p, Archived d p → ¬rmPaths d operands p
  | .touch _ | .other => True

/-- A call that leaves the archives alone and opens none. -/
def Call.Spares (sh : Text → List (List Text)) (d : Disk) : Call → Prop
  | .openFile _ path _ _ | .unlink path => ¬IsArchive (d.path path)
  | .rename old new => ¬IsArchive (d.path old) ∧ ¬IsArchive (d.path new)
  | .system command => ∀ words ∈ sh command, (Command.ofWords words).Spares d
  | _ => True

/-- The archives of a disk are there, and none is open. -/
structure Keeping (d : Disk) (s : State) : Prop where
  cwd : s.disk.cwd = d.cwd
  node : ∀ p, Archived d p → s.disk.node p = d.node p
  opened : ∀ f, ∀ h ∈ s.opened f, ¬IsArchive h.path

variable {sh : Text → List (List Text)} {d d' d₀ : Disk} {s t : State} {c : Call} {x : Choice}
  {p q : Path}

theorem Archived.ne_none (h : Archived d p) : d.node p ≠ none := by
  obtain ⟨content, hc⟩ := Option.ne_none_iff_exists'.mp h.2
  rw [Disk.content_eq_some.mp hc]
  simp

section Commands

/-- Changes of a disk that keep the archives of `d₀`. -/
def Keeps (d₀ d d' : Disk) : Prop :=
  d'.cwd = d.cwd ∧ ∀ p, Archived d₀ p → d'.node p = d.node p

theorem Keeps.refl (d₀ d : Disk) : Keeps d₀ d d := ⟨rfl, fun _ _ => rfl⟩

theorem Keeps.trans {d'' : Disk} (h : Keeps d₀ d d') (h' : Keeps d₀ d' d'') : Keeps d₀ d d'' :=
  ⟨h'.1.trans h.1, fun p hp => (h'.2 p hp).trans (h.2 p hp)⟩

theorem keeps_put {n : Option Node} (h : ¬Archived d₀ p) : Keeps d₀ d (d.put p n) :=
  ⟨rfl, fun _ hq => Disk.put_node_of_ne fun hqp => h (hqp ▸ hq)⟩

/-- A file made where none was. -/
theorem keeps_made {n : Option Node} (hkept : ∀ p, Archived d₀ p → d.node p = d₀.node p)
    (hp : d.node p = none) : Keeps d₀ d (d.put p n) := by
  refine keeps_put fun h => h.ne_none ?_
  rw [← hkept p h, hp]

theorem keeps_touched (operands : List Text) (hkept : ∀ p, Archived d₀ p → d.node p = d₀.node p) :
    Keeps d₀ d (operands.foldl touched d) := by
  induction operands generalizing d with
  | nil => exact .refl d₀ d
  | cons w operands ih =>
    have hfirst : Keeps d₀ d (touched d w) := by
      unfold touched
      split_ifs with hnew
      · exact keeps_made hkept hnew.1
      · exact .refl d₀ d
    exact hfirst.trans (ih fun p hp => (hfirst.2 p hp).trans (hkept p hp))

theorem keeps_run {command : Command} (tool : Tool) (hcwd : d.cwd = d₀.cwd)
    (hkept : ∀ p, Archived d₀ p → d.node p = d₀.node p) (h : command.Spares d₀) :
    Keeps d₀ d (command.run tool d).1 := by
  have hpath (str : Text) : d.path str = d₀.path str := by rw [Disk.path, Disk.path, hcwd]
  cases command with
  | tar target base operands =>
    have htarget (content : List Item) :
        Keeps d₀ d (d.put (d.path target) (some (.file content))) := by
      refine keeps_put ?_
      rw [hpath]
      exact h
    simp only [Command.run]
    split_ifs
    · exact .refl d₀ d
    · exact htarget _
    · split
      · exact .refl d₀ d
      · exact htarget _
  | rm operands =>
    refine ⟨rfl, fun p hp => if_neg ?_⟩
    rintro ⟨⟨w, hw, hrefused, hprefix⟩, -⟩
    refine h p hp ⟨w, hw, ?_, ?_⟩
    · simpa only [refused, hpath] using hrefused
    · rwa [← hpath]
  | touch operands =>
    simp only [Command.run]
    split_ifs
    · exact keeps_touched operands hkept
    · exact .refl d₀ d
  | other => exact .refl d₀ d

theorem keeps_runCommands (tools : ℕ → Tool) (k : ℕ) {l : List Command} (hcwd : d.cwd = d₀.cwd)
    (hkept : ∀ p, Archived d₀ p → d.node p = d₀.node p)
    (h : ∀ command ∈ l, command.Spares d₀) : Keeps d₀ d (runCommands tools k l d).1 := by
  induction l generalizing d k with
  | nil => exact .refl d₀ d
  | cons command l ih =>
    have hfirst := keeps_run (tools k) hcwd hkept (h command List.mem_cons_self)
    exact hfirst.trans (ih (k + 1) (hfirst.1.trans hcwd)
      (fun p hp => (hfirst.2 p hp).trans (hkept p hp))
      fun c hc => h c (List.mem_cons_of_mem command hc))

end Commands

namespace Keeping

theorem of_keeps (h : Keeping d₀ s) (hk : Keeps d₀ s.disk t.disk)
    (hopened : ∀ f, ∀ h ∈ t.opened f, ¬IsArchive h.path) : Keeping d₀ t :=
  ⟨hk.1.trans h.cwd, fun p hp => (hk.2 p hp).trans (h.node p hp), hopened⟩

theorem setOpen (h : Keeping d₀ s) {f : Fd} {h' : Option Handle} (hk : Keeps d₀ s.disk d)
    (hopened : ∀ g ∈ h', ¬IsArchive g.path) :
    Keeping d₀ ({ s with disk := d }.setOpen f h') := by
  refine h.of_keeps (t := { s with disk := d }.setOpen f h') hk fun f' g hg => ?_
  rcases State.mem_setOpen hg with hg | hg
  · exact h.opened f' g hg
  · exact hopened g hg

variable (sh x) in
/-- A call that spares the archives. -/
theorem act (h : Keeping d₀ s) (hc : c.Spares sh d₀) : Keeping d₀ (Log.act sh c x s).2 := by
  have hpath (str : Text) : s.disk.path str = d₀.path str := by
    rw [Disk.path, Disk.path, h.cwd]
  have hnot {p : Path} (hp : ¬IsArchive p) : ¬Archived d₀ p := fun ha => hp ha.1
  cases c with
  | openFile f path creates appends =>
    have hopen : ∀ g ∈ some (⟨s.disk.path path, appends⟩ : Handle), ¬IsArchive g.path := by
      rintro g ⟨⟩
      rw [hpath]
      exact hc
    rcases act_openFile_cases sh x s f path creates appends with
      hact | ⟨content, -, hact⟩ | ⟨-, hnew, hact⟩ <;> rw [hact]
    · exact h.setOpen (.refl _ _) (by simp)
    · exact h.setOpen (.refl _ _) hopen
    · exact h.setOpen (keeps_made h.node hnew.1) hopen
  | write f text =>
    simp only [Log.act]
    cases ht : s.target f with
    | none => exact h
    | some g =>
      obtain ⟨g', hg', hm⟩ := Option.bind_eq_some_iff.mp ht
      obtain ⟨content, -, rfl⟩ := Option.map_eq_some_iff.mp hm
      exact h.of_keeps (t := { s with disk := s.disk.put g'.path _ })
        (keeps_put (hnot (h.opened f g' hg'))) h.opened
  | close f => exact h.setOpen (.refl _ _) (by simp)
  | rename old new =>
    obtain ⟨hold, hnew⟩ := hc
    rw [← hpath] at hold hnew
    rcases act_rename_cases sh x s old new with hact | ⟨content, -, -, hact⟩ <;> rw [hact]
    · exact h
    · refine h.of_keeps (t := s.move _ _) ⟨Disk.move_cwd, fun p hp => ?_⟩ fun f g hg => ?_
      · exact Disk.move_node_of_ne (fun hsame => hold (hsame ▸ hp.1))
          fun hsame => hnew (hsame ▸ hp.1)
      · obtain ⟨g', hg', hp | hp⟩ := State.mem_move hg
        · exact hp ▸ h.opened f g' hg'
        · exact hp ▸ hnew
  | unlink path =>
    rcases act_unlink_cases sh x s path with hact | ⟨content, -, hact⟩ <;> rw [hact]
    · exact h
    · refine h.of_keeps (t := s.setDisk _) (keeps_put (hnot ?_)) fun f g hg => ?_
      · rw [hpath]
        exact hc
      · exact h.opened f g (State.mem_setDisk hg)
  | mkdir path =>
    simp only [Log.act]
    split_ifs with hfails
    · exact h
    · have hnone : s.disk.node (s.disk.path path) = none := by
        by_contra hne
        exact hfails (.inr (.inl hne))
      exact h.of_keeps (t := { s with disk := _ }) (keeps_made h.node hnone) h.opened
  | system command =>
    simp only [Log.act]
    split_ifs
    · exact h
    · refine h.of_keeps (t := s.setDisk _) (keeps_runCommands x.tools 0 h.cwd h.node ?_)
        fun f g hg => h.opened f g (State.mem_setDisk hg)
      intro command' hm
      obtain ⟨words, hwords, rfl⟩ := List.mem_map.mp hm
      exact hc words hwords
  | _ => exact h

variable (sh) in
/-- A program that spares the archives. -/
theorem exec {α : Type} {p : Prog α} (h : Keeping d₀ s) (hp : p.Makes (Call.Spares sh d₀))
    (x : ℕ → Choice) : Keeping d₀ (p.exec (perform sh) x s).state := by
  refine (hp.keeps (fun c y t r u hc ht hu => ?_) x s h).1
  rw [perform_eq_some] at hu
  simpa only [hu.2] using ht.act sh y hc

end Keeping

end ConferenceCall.Log

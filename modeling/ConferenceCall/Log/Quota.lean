import ConferenceCall.Library.Fair
import ConferenceCall.Log.Changes
import ConferenceCall.Log.Passes
import ConferenceCall.Log.Shell
import Mathlib.Data.Set.Card

/-! The entries of the log directory by their dates, in a pass over it. A pass makes an old entry
only of another old one, and takes no other entry away. -/

namespace ConferenceCall.Log

open Library Program

/-- The name of a day before the current one. -/
def Before (today : ℤ) (n : Name) : Prop := ∃ time ∈ folderTime n, time < today

/-- The entries of a directory that have such a name. -/
def oldEntries (D : Path) (today : ℤ) (d : Disk) : Set Name :=
  {n | Path.Proper n ∧ d.node (D ++ [n]) ≠ none ∧ Before today n}

/-- What the clock shows lies in the current day, a listing is complete and the log of the pass is
opened. -/
def Fair (today : ℤ) : Event Call Call.Answer State → Prop
  | ⟨.gettimeofday, tv, _, _⟩ => 0 ≤ tv.1 ∧ tv.1 - tv.1 % SEC_PER_DAY = today
  | ⟨.opendir folder, names, s, _⟩ => ∀ l ∈ names, ∀ n, Path.Proper n →
    s.disk.node (s.disk.path folder ++ [n]) ≠ none → n ∈ l
  | ⟨.openFile .logFd _ _ _, opened, _, _⟩ => opened = true
  | _ => True

/-- No entry of the current day or a later one is removed. -/
def KeepsLater (D : Path) (today : ℤ) (e : Event Call Call.Answer State) : Prop :=
  ∀ n, ∀ time ∈ folderTime n, today ≤ time → e.before.disk.node (D ++ [n]) ≠ none →
    e.after.disk.node (D ++ [n]) ≠ none

/-- A file can be written here: its names below the directory are clean, and it is no old entry. -/
def Loggable (D : Path) (today : ℤ) (p : Path) : Prop :=
  ∀ n r, p = D ++ n :: r → (∀ m ∈ n :: r, Clean m) ∧ (r = [] → ¬Before today n)

/-- Below an entry. -/
def Inside (D p : Path) : Prop := ∃ n m r, p = D ++ n :: m :: r

/-- The log directory, all its names clean, and the files that are open. -/
structure Tended (cwd D : Path) (today : ℤ) (s : State) : Prop where
  cwd : s.disk.cwd = cwd
  dir : s.disk.IsDir D
  clean : ∀ n r, s.disk.node (D ++ n :: r) ≠ none → ∀ m ∈ n :: r, Clean m
  opened : ∀ f, ∀ h ∈ s.opened f, Loggable D today h.path

/-- The entries stay, and no old one is new. -/
structure Spared (D : Path) (today : ℤ) (d d' : Disk) : Prop where
  kept : ∀ n, d.node (D ++ [n]) ≠ none → d'.node (D ++ [n]) ≠ none
  made : ∀ n, Before today n → d'.node (D ++ [n]) ≠ none → d.node (D ++ [n]) ≠ none

/-- The calls that spare the entries. -/
def Call.Tends (sh : Text → List (List Text)) (cwd D : Path) (today : ℤ) : Call → Prop
  | .openFile _ path _ _ => Loggable D today (Path.resolve cwd path)
  | .rename old new => Inside D (Path.resolve cwd old) ∧ Inside D (Path.resolve cwd new) ∧
    Loggable D today (Path.resolve cwd new)
  | .unlink path => Inside D (Path.resolve cwd path)
  | .mkdir _ => False
  | .system command => ∀ d : Disk, d.cwd = cwd → ∀ words ∈ sh command,
    (∀ p, (Command.ofWords words).Changes d p → Inside D p) ∧
      ∀ p, (Command.ofWords words).Creates d p → Loggable D today p
  | _ => True

variable {sh : Text → List (List Text)} {cwd D : Path} {today : ℤ} {s t : State} {d d' : Disk}
  {x : Choice} {c : Call} {n : Name} {p : Path}

theorem not_inside_entry : ¬Inside D (D ++ [n]) := by
  rintro ⟨m, k, r, h⟩
  simp at h

theorem not_inside_dir : ¬Inside D D := by
  rintro ⟨m, k, r, h⟩
  simp at h

namespace Spared

theorem refl (D : Path) (today : ℤ) (d : Disk) : Spared D today d d :=
  ⟨fun _ h => h, fun _ _ h => h⟩

theorem oldEntries_eq (h : Spared D today d d') : oldEntries D today d' = oldEntries D today d := by
  ext n
  refine and_congr_right fun _ => ⟨?_, ?_⟩
  · rintro ⟨hnode, hbefore⟩
    exact ⟨h.made n hbefore hnode, hbefore⟩
  · rintro ⟨hnode, hbefore⟩
    exact ⟨h.kept n hnode, hbefore⟩

theorem keepsLater {r : c.Answer} (h : Spared D today s.disk t.disk) :
    KeepsLater D today ⟨c, r, s, t⟩ := fun n _ _ _ => h.kept n

/-- What happens below the entries spares them. -/
theorem of_within {creates : Path → Prop} (h : Within (Inside D) creates d d') :
    Spared D today d d' := by
  have hnode (n : Name) : d'.node (D ++ [n]) = d.node (D ++ [n]) := h.node _ not_inside_entry
  exact ⟨fun n hn => (hnode n).symm ▸ hn, fun n _ hn => hnode n ▸ hn⟩

end Spared

/-- The directory is there as long as it is neither removed nor replaced. -/
theorem isDir_of_node (h : d.IsDir p) (hnode : d'.node p = d.node p) : d'.IsDir p := by
  rwa [Disk.IsDir, hnode]

variable (sh) in
/-- Files that are opened or written take no place of a directory. -/
theorem isDir_act (hc : (∃ f path creates appends, c = .openFile f path creates appends) ∨
    ∃ f text, c = .write f text) (h : s.disk.IsDir p) : (act sh c x s).2.disk.IsDir p := by
  rcases hc with ⟨f, path, creates, appends, rfl⟩ | ⟨f, text, rfl⟩
  · rcases act_openFile_cases sh x s f path creates appends with
      hact | ⟨c, -, hact⟩ | ⟨-, hc, hact⟩ <;> rw [hact]
    · exact h
    · exact h
    · by_cases hp : p = s.disk.path path
      · subst hp
        rcases h with h | h
        · exact .inl h
        · rw [hc.1] at h
          exact h.elim
      · exact (Disk.isDir_put_of_ne hp).mpr h
  · simp only [act]
    cases ht : s.target f with
    | none => exact h
    | some g =>
      obtain ⟨g, hg, hm⟩ := Option.bind_eq_some_iff.mp ht
      obtain ⟨c, hc, rfl⟩ := Option.map_eq_some_iff.mp hm
      by_cases hp : p = g.path
      · subst hp
        rcases h with h | h
        · exact .inl h
        · rw [Disk.content_eq_some.mp hc] at h
          exact h.elim
      · exact (Disk.isDir_put_of_ne hp).mpr h

/-- What a call makes can be written. -/
theorem Tended.loggable (h : Tended cwd D today s) (hc : c.Tends sh cwd D today)
    (hp : c.Creates sh s p) : Loggable D today p := by
  obtain ⟨rfl, -, -, -⟩ := h
  cases c with
  | openFile f path creates appends =>
    obtain rfl : p = s.disk.path path := hp
    exact hc
  | rename old new =>
    obtain rfl : p = s.disk.path new := hp
    exact hc.2.2
  | mkdir path => exact hc.elim
  | system command =>
    obtain ⟨words, hwords, hp⟩ := hp
    exact (hc s.disk rfl words hwords).2 p hp
  | _ => exact hp.elim

variable (sh x) in
/-- The files that are open after a call can be written. -/
theorem Tended.of_opened (h : Tended cwd D today s) (hc : c.Tends sh cwd D today) (f : Fd) :
    ∀ g ∈ (act sh c x s).2.opened f, Loggable D today g.path := by
  intro g hg
  rcases act_opened sh s x c hg with ⟨g', hg', hpath⟩ |
    ⟨path, creates, appends, rfl, hpath⟩ | ⟨old, new, rfl, hpath⟩
  · rw [hpath]
    exact h.opened f g' hg'
  · exact h.loggable hc hpath
  · exact h.loggable hc hpath

/-- Calls that remove or rename something do so inside the entries. -/
theorem inside_of_changes (hcwd : s.disk.cwd = cwd) (hc : c.Tends sh cwd D today)
    (hopen : ∀ f path creates appends, c ≠ .openFile f path creates appends)
    (hwrite : ∀ f text, c ≠ .write f text) (hp : c.Changes sh s p) : Inside D p := by
  subst hcwd
  cases c with
  | openFile f path creates appends => exact absurd rfl (hopen f path creates appends)
  | write f text => exact absurd rfl (hwrite f text)
  | rename old new =>
    rcases hp with rfl | rfl
    · exact hc.1
    · exact hc.2.1
  | unlink path =>
    obtain rfl : p = s.disk.path path := hp
    exact hc
  | mkdir path => exact hc.elim
  | system command =>
    obtain ⟨words, hwords, hp⟩ := hp
    exact (hc s.disk rfl words hwords).1 p hp
  | _ => exact hp.elim

variable (sh x) in
/-- A call of the kind keeps the directory and spares its entries. -/
theorem Tended.of_act (h : Tended cwd D today s) (hc : c.Tends sh cwd D today) :
    Tended cwd D today (act sh c x s).2 ∧ Spared D today s.disk (act sh c x s).2.disk := by
  have hdir (path : Text) : c ≠ .mkdir path := by
    rintro rfl
    exact hc.elim
  have hwithin := within_act sh s x hdir
  have hmade (n : Name) (hbefore : Before today n)
      (hn : (act sh c x s).2.disk.node (D ++ [n]) ≠ none) : s.disk.node (D ++ [n]) ≠ none :=
    (hwithin.made _ hn).resolve_right fun hp => (h.loggable hc hp n [] rfl).2 rfl hbefore
  have hclean (n : Name) (r : Path) (hn : (act sh c x s).2.disk.node (D ++ n :: r) ≠ none) :
      ∀ m ∈ n :: r, Clean m := by
    rcases hwithin.made _ hn with hn | hp
    · exact h.clean n r hn
    · exact (h.loggable hc hp n r rfl).1
  have hwritten (hfile : (∃ f path creates appends, c = .openFile f path creates appends) ∨
      ∃ f text, c = .write f text) : (act sh c x s).2.disk.IsDir D ∧
        Spared D today s.disk (act sh c x s).2.disk := by
    refine ⟨isDir_act sh hfile h.dir, fun n hn hgone => ?_, hmade⟩
    rcases hfile with ⟨f, path, creates, appends, rfl⟩ | ⟨f, text, rfl⟩ <;>
      rcases act_deletes hn hgone rfl with ⟨_, hc, -⟩ | ⟨_, _, hc, -⟩ <;> cases hc
  suffices hrest : (act sh c x s).2.disk.IsDir D ∧
      Spared D today s.disk (act sh c x s).2.disk from
    ⟨⟨hwithin.cwd.trans h.cwd, hrest.1, hclean, h.of_opened sh x hc⟩, hrest.2⟩
  by_cases hopen : ∃ f path creates appends, c = .openFile f path creates appends
  · exact hwritten (.inl hopen)
  by_cases hwrite : ∃ f text, c = .write f text
  · exact hwritten (.inr hwrite)
  have hinside (p : Path) (hp : c.Changes sh s p) : Inside D p :=
    inside_of_changes h.cwd hc (fun f path creates appends hc => hopen ⟨f, path, creates, appends, hc⟩)
      (fun f text hc => hwrite ⟨f, text, hc⟩) hp
  exact ⟨isDir_of_node h.dir (hwithin.node D fun hp => not_inside_dir (hinside D hp)),
    .of_within (hwithin.mono hinside fun _ hp => hp)⟩

end ConferenceCall.Log

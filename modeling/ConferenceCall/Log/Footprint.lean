import ConferenceCall.Library.Tree
import ConferenceCall.Log.Rotation

/-! Programs that work on a set of files. What they do and answer depends on these files and on the
directories only, and they leave the other files alone. -/

namespace ConferenceCall.Log

open Library Program

/-- Two disks agree on the files in `A` and on all directories. -/
structure SameOn (A : Path → Prop) (d d' : Disk) : Prop where
  cwd : d'.cwd = d.cwd
  node : ∀ p, A p → d'.node p = d.node p
  dirs : ∀ p, d'.node p = some .dir ↔ d.node p = some .dir

namespace SameOn

variable {A : Path → Prop} {d d' d'' : Disk} {p q : Path} {str : Text}

theorem refl (A : Path → Prop) (d : Disk) : SameOn A d d := ⟨rfl, fun _ _ => rfl, fun _ => .rfl⟩

theorem trans (h : SameOn A d d') (h' : SameOn A d' d'') : SameOn A d d'' :=
  ⟨h'.cwd.trans h.cwd, fun p hp => (h'.node p hp).trans (h.node p hp),
    fun p => (h'.dirs p).trans (h.dirs p)⟩

theorem symm (h : SameOn A d d') : SameOn A d' d :=
  ⟨h.cwd.symm, fun p hp => (h.node p hp).symm, fun p => (h.dirs p).symm⟩

theorem path (h : SameOn A d d') (str : Text) : d'.path str = d.path str := by
  rw [Disk.path, Disk.path, h.cwd]

theorem lookup (h : SameOn A d d') (hA : A (d.path str)) : d'.lookup str = d.lookup str := by
  rw [Disk.lookup, Disk.lookup, h.path, h.node _ hA]

theorem isFile (h : SameOn A d d') (hA : A (d.path str)) : d'.isFile str = d.isFile str := by
  rw [Disk.isFile, Disk.isFile, h.lookup hA]

theorem isDir (h : SameOn A d d') (p : Path) : d'.IsDir p ↔ d.IsDir p := by
  have hiff (d : Disk) : d.IsDir p ↔ p = [] ∨ d.node p = some .dir := by
    rw [Disk.IsDir]
    cases d.node p with
    | none => simp
    | some n => cases n <;> simp
  rw [hiff, hiff, h.dirs]

theorem creatable (h : SameOn A d d') (hA : A (d.path str)) : d'.Creatable str ↔ d.Creatable str := by
  rw [Disk.Creatable, Disk.Creatable, h.path, h.node _ hA, h.isDir]

theorem content (h : SameOn A d d') (hA : A p) : d'.content p = d.content p :=
  Disk.content_congr (h.node p hA)

/-- The same change to a file of both. -/
theorem put (h : SameOn A d d') (n : Option Node) : SameOn A (d.put p n) (d'.put p n) := by
  refine ⟨h.cwd, fun q hq => ?_, fun q => ?_⟩
  · by_cases hqp : q = p
    · rw [hqp, Disk.put_node_self, Disk.put_node_self]
    · rw [Disk.put_node_of_ne hqp, Disk.put_node_of_ne hqp, h.node q hq]
  · by_cases hqp : q = p
    · rw [hqp, Disk.put_node_self, Disk.put_node_self]
    · rw [Disk.put_node_of_ne hqp, Disk.put_node_of_ne hqp, h.dirs]

theorem move (h : SameOn A d d') (hp : A p) : SameOn A (d.move p q) (d'.move p q) := by
  unfold Disk.move
  split_ifs
  · exact h
  · rw [h.node p hp]
    exact (h.put _).put _

/-- A change of another file. -/
theorem put_other {n : Option Node} (hp : ¬A p) (hold : d.node p ≠ some .dir)
    (hnew : n ≠ some .dir) : SameOn A d (d.put p n) := by
  refine ⟨rfl, fun q hq => ?_, fun q => ?_⟩
  · exact Disk.put_node_of_ne fun h => hp (h ▸ hq)
  · by_cases hqp : q = p
    · rw [hqp, Disk.put_node_self]
      exact iff_of_false hnew hold
    · rw [Disk.put_node_of_ne hqp]

theorem move_other (hp : ¬A p) (hq : ¬A q) (hold : d.node p ≠ some .dir)
    (hnew : d.node q ≠ some .dir) : SameOn A d (d.move p q) := by
  unfold Disk.move
  split_ifs with hpq
  · exact .refl A d
  · refine (put_other hq hnew hold).trans (put_other hp ?_ (by simp))
    rwa [Disk.put_node_of_ne hpq]

end SameOn

/-- The calls on the files in `A`, which use one descriptor. -/
def Call.On (cwd : Path) (A : Path → Prop) : Call → Prop
  | .stat path | .unlink path => A (Path.resolve cwd path)
  | .openFile f path _ _ => f = .fd ∧ A (Path.resolve cwd path)
  | .rename old new => A (Path.resolve cwd old) ∧ A (Path.resolve cwd new)
  | .read f _ | .write f _ | .close f => f = .fd
  | .uninitialised => True
  | _ => False

/-- Two states that such calls do not tell apart. -/
structure Alike (A : Path → Prop) (s t : State) : Prop where
  disk : SameOn A s.disk t.disk
  opened : t.opened .fd = s.opened .fd
  within : ∀ h ∈ s.opened .fd, A h.path

variable {sh : Text → List (List Text)} {A B : Path → Prop} {c : Call} {x : Choice} {s t : State}

namespace Alike

theorem setOpen (h : Alike A s t) {o : Option Handle} (hA : ∀ g ∈ o, A g.path) :
    Alike A (s.setOpen .fd o) (t.setOpen .fd o) := by
  refine ⟨h.disk, ?_, ?_⟩
  · simp [State.setOpen]
  · simpa [State.setOpen] using hA

theorem withDisk (h : Alike A s t) {d d' : Disk} (hd : SameOn A d d') :
    Alike A { s with disk := d } { t with disk := d' } := ⟨hd, h.opened, h.within⟩

theorem target (h : Alike A s t) : t.target .fd = s.target .fd := by
  unfold State.target
  rw [h.opened]
  cases hs : s.opened .fd with
  | none => rfl
  | some g => simp only [Option.bind_some, h.disk.content (h.within g hs)]

theorem setDisk (h : Alike A s t) {d d' : Disk} (hd : SameOn A d d') :
    Alike A (s.setDisk d) (t.setDisk d') := by
  refine ⟨hd, ?_, fun g hg => h.within g (State.mem_setDisk hg)⟩
  simp only [State.setDisk]
  rw [h.opened]
  cases hs : s.opened .fd with
  | none => rfl
  | some g => simp only [Option.filter_some, hd.node _ (h.within g hs)]

theorem move (h : Alike A s t) {p q : Path} (hp : A p) (hq : A q) :
    Alike A (s.move p q) (t.move p q) := by
  refine ⟨h.disk.move hp, ?_, fun g hg => ?_⟩
  · simp only [State.move, h.opened]
  · obtain ⟨g', hg', hpath | hpath⟩ := State.mem_move hg
    · exact hpath ▸ h.within g' hg'
    · exact hpath ▸ hq

variable (sh x) in
/-- A call on the files answers both alike. -/
theorem act (h : Alike A s t) (hc : c.On s.disk.cwd A) :
    (Log.act sh c x t).1 = (Log.act sh c x s).1 ∧
      Alike A (Log.act sh c x s).2 (Log.act sh c x t).2 := by
  cases c with
  | stat path =>
    simp only [Log.act, h.disk.lookup hc]
    exact ⟨trivial, h⟩
  | openFile f path creates appends =>
    obtain ⟨rfl, hA⟩ := hc
    have hnone := h.setOpen (o := none) (by simp)
    simp only [Log.act, h.disk.lookup hA, h.disk.path, h.disk.creatable hA]
    have hfile (content : Option Node) (hd : SameOn A (s.disk.put (s.disk.path path) content)
        (t.disk.put (s.disk.path path) content)) := (h.withDisk hd).setOpen
      (o := some ⟨s.disk.path path, appends⟩) fun g hg => by cases hg; exact hA
    cases s.disk.lookup path with
    | none =>
      dsimp only
      split_ifs
      · exact ⟨rfl, hnone⟩
      · exact ⟨rfl, hfile _ (h.disk.put _)⟩
      · exact ⟨rfl, hnone⟩
    | some n =>
      cases n with
      | dir =>
        dsimp only
        split_ifs
        · exact ⟨rfl, hnone⟩
        · exact ⟨rfl, hnone⟩
      | file content =>
        dsimp only
        split_ifs
        · exact ⟨rfl, hnone⟩
        · refine ⟨rfl, h.setOpen fun g hg => ?_⟩
          cases hg
          exact hA
  | read f size =>
    obtain rfl : f = .fd := hc
    simp only [Log.act, h.target]
    exact ⟨trivial, h⟩
  | write f text =>
    obtain rfl : f = .fd := hc
    simp only [Log.act, h.target]
    cases s.target .fd with
    | none => exact ⟨rfl, h⟩
    | some g => exact ⟨rfl, h.withDisk (h.disk.put _)⟩
  | close f =>
    obtain rfl : f = .fd := hc
    exact ⟨rfl, h.setOpen (by simp)⟩
  | rename old new =>
    obtain ⟨hold, hnew⟩ := hc
    simp only [Log.act, h.disk.lookup hold, h.disk.path, h.disk.isFile hnew, h.disk.creatable hnew]
    cases s.disk.lookup old with
    | none => exact ⟨rfl, h⟩
    | some n =>
      cases n with
      | dir => exact ⟨rfl, h⟩
      | file content =>
        simp only
        split_ifs
        · exact ⟨rfl, h⟩
        · exact ⟨rfl, h.move hold hnew⟩
  | unlink path =>
    simp only [Log.act, h.disk.lookup hc, h.disk.path]
    cases s.disk.lookup path with
    | none => exact ⟨rfl, h⟩
    | some n =>
      cases n with
      | dir => exact ⟨rfl, h⟩
      | file content =>
        simp only
        split_ifs
        · exact ⟨rfl, h⟩
        · exact ⟨rfl, h.setDisk (h.disk.put _)⟩
  | uninitialised => exact ⟨rfl, h⟩
  | _ => exact hc.elim

end Alike

/-- Files outside `B` and directories are as before, and the descriptor is open in `B`. -/
structure Confined (B : Path → Prop) (s t : State) : Prop where
  disk : SameOn (fun p => ¬B p) s.disk t.disk
  within : ∀ h ∈ t.opened .fd, B h.path

namespace Confined

theorem refl (h : ∀ g ∈ s.opened .fd, B g.path) : Confined B s s := ⟨.refl _ _, h⟩

theorem setOpen {h' : Option Handle} {d : Disk} (hd : SameOn (fun p => ¬B p) s.disk d)
    (hB : ∀ g ∈ h', B g.path) : Confined B s ({ s with disk := d }.setOpen .fd h') := by
  refine ⟨hd, ?_⟩
  simpa [State.setOpen] using hB

variable (sh x) in
/-- A call on other files. -/
theorem act (h : ∀ g ∈ s.opened .fd, B g.path) (hc : c.On s.disk.cwd B) :
    Confined B s (Log.act sh c x s).2 := by
  have hnot {p : Path} (hp : B p) : ¬(fun p => ¬B p) p := fun h => h hp
  have hopen {path : Text} {appends : Bool} (hB : B (s.disk.path path)) :
      ∀ g ∈ some (⟨s.disk.path path, appends⟩ : Handle), B g.path := by
    rintro g ⟨⟩
    exact hB
  cases c with
  | openFile f path creates appends =>
    obtain ⟨rfl, hB⟩ := hc
    rcases act_openFile_cases sh x s .fd path creates appends with
      hact | ⟨content, -, hact⟩ | ⟨-, hnew, hact⟩ <;> rw [hact]
    · exact setOpen (.refl _ _) (by simp)
    · exact setOpen (.refl _ _) (hopen hB)
    · refine setOpen (.put_other (hnot hB) ?_ (by simp)) (hopen hB)
      rw [hnew.1]
      simp
  | write f text =>
    obtain rfl : f = .fd := hc
    simp only [Log.act]
    cases ht : s.target .fd with
    | none => exact refl h
    | some g =>
      obtain ⟨g', hg', hm⟩ := Option.bind_eq_some_iff.mp ht
      obtain ⟨content, hcontent, rfl⟩ := Option.map_eq_some_iff.mp hm
      refine ⟨.put_other (hnot (h g' hg')) ?_ (by simp), h⟩
      rw [Disk.content_eq_some.mp hcontent]
      simp
  | rename old new =>
    obtain ⟨hold, hnew⟩ := hc
    rcases act_rename_cases sh x s old new with hact | ⟨content, hl, hfree, hact⟩ <;> rw [hact]
    · exact refl h
    · have hnewdir : s.disk.node (s.disk.path new) ≠ some .dir := by
        rcases hfree with hfile | hfree
        · obtain ⟨content', hc'⟩ := Disk.node_of_isFile hfile
          rw [hc']
          simp
        · rw [hfree.1]
          simp
      refine ⟨.move_other (hnot hold) (hnot hnew) ?_ hnewdir, fun g hg => ?_⟩
      · rw [Disk.node_of_lookup hl]
        simp
      · obtain ⟨g', hg', hpath | hpath⟩ := State.mem_move hg
        · exact hpath ▸ h g' hg'
        · exact hpath ▸ hnew
  | unlink path =>
    rcases act_unlink_cases sh x s path with hact | ⟨content, hl, hact⟩ <;> rw [hact]
    · exact refl h
    · refine ⟨.put_other (hnot hc) ?_ (by simp), fun g hg => h g (State.mem_setDisk hg)⟩
      rw [Disk.node_of_lookup hl]
      simp
  | close f =>
    obtain rfl : f = .fd := hc
    exact setOpen (.refl _ _) (by simp)
  | stat path => exact refl h
  | read f size => exact refl h
  | uninitialised => exact refl h
  | _ => exact hc.elim

end Confined

variable (sh) {α : Type} {p : Prog α}

/-- A program on the files runs alike. -/
theorem Alike.exec (h : Alike A s t) (hp : p.Makes (Call.On s.disk.cwd A)) (x : ℕ → Choice) :
    Alike A (p.exec (perform sh) x s).state (p.exec (perform sh) x t).state := by
  induction p generalizing x s t with
  | done a => exact h
  | call c next ih =>
    rw [exec_call, exec_call]
    split_ifs
    · exact h
    · obtain ⟨hanswer, halike⟩ := h.act sh (x 0) hp.1
      rw [hanswer]
      have hcwd := (Confined.act sh (x 0) h.within hp.1).disk.cwd
      exact ih _ halike (hcwd ▸ hp.2 _) _

/-- A program on other files leaves these alone. -/
theorem Confined.exec (h : ∀ g ∈ s.opened .fd, B g.path) (hp : p.Makes (Call.On s.disk.cwd B))
    (x : ℕ → Choice) : Confined B s (p.exec (perform sh) x s).state := by
  induction p generalizing x s with
  | done a => exact refl h
  | call c next ih =>
    rw [exec_call]
    split_ifs
    · exact refl h
    · have hact := Confined.act sh (x 0) h hp.1
      have hrest : (next (Log.act sh c (x 0) s).1).Makes
          (Call.On (Log.act sh c (x 0) s).2.disk.cwd B) := by
        rw [hact.disk.cwd]
        exact hp.2 _
      have hnext := ih _ hact.within hrest fun n => x (n + 1)
      exact ⟨hact.disk.trans hnext.disk, hnext.within⟩

/-- A program that opens one of the other files first, whatever the descriptor was open at. -/
theorem SameOn.exec_openFile {path : Text} {creates appends : Bool} {next : Bool → Prog α}
    (hpath : B (s.disk.path path)) (hnext : ∀ r, (next r).Makes (Call.On s.disk.cwd B))
    (x : ℕ → Choice) : SameOn (fun p => ¬B p) s.disk
      ((Program.call (.openFile .fd path creates appends) next).exec (perform sh) x s).state.disk := by
  let t : State := s.setOpen .fd none
  have hclosed : ∀ g ∈ t.opened .fd, B g.path := by simp [t, State.setOpen]
  have hact : Log.act sh (.openFile .fd path creates appends) (x 0) t =
      Log.act sh (.openFile .fd path creates appends) (x 0) s := by
    simp [t, Log.act, State.setOpen]
  rw [exec_call]
  split_ifs
  · exact .refl _ _
  · have hopen := Confined.act sh (x 0) hclosed (c := .openFile .fd path creates appends)
      ⟨rfl, hpath⟩
    rw [hact] at hopen
    have hrest : (next (Log.act sh (.openFile .fd path creates appends) (x 0) s).1).Makes
        (Call.On (Log.act sh (.openFile .fd path creates appends) (x 0) s).2.disk.cwd B) := by
      rw [hopen.disk.cwd]
      exact hnext _
    exact hopen.disk.trans (Confined.exec sh hopen.within hrest fun n => x (n + 1)).disk

section Counter

variable {filePath : Text} (hinfo : B (s.disk.path (logInfoPath filePath)))

include hinfo in
/-- The counter is read and written without another file. -/
theorem sameOn_WriteLogInfo (logInfo : LogInfo) (x : ℕ → Choice) : SameOn (fun p => ¬B p) s.disk
    ((WriteLogInfo filePath logInfo).exec (perform sh) x s).state.disk := by
  refine SameOn.exec_openFile sh hinfo (fun opened => ?_) x
  cases opened with
  | false => trivial
  | true => exact ⟨rfl, fun _ => ⟨rfl, fun _ => trivial⟩⟩

include hinfo in
theorem sameOn_ReadLogInfo (x : ℕ → Choice) : SameOn (fun p => ¬B p) s.disk
    ((ReadLogInfo filePath).exec (perform sh) x s).state.disk := by
  have hfirst (creates : Bool) (next : Bool → Prog LogInfo)
      (hnext : ∀ r, (next r).Makes (Call.On s.disk.cwd B)) (y : ℕ → Choice) :
      SameOn (fun p => ¬B p) s.disk ((Program.call (.openFile .fd (logInfoPath filePath) creates
        false) next).exec (perform sh) y s).state.disk :=
    SameOn.exec_openFile sh hinfo hnext y
  simp only [ReadLogInfo, request_bind]
  rw [exec_call]
  split_ifs
  · exact .refl _ _
  · refine hfirst true _ (fun opened => ?_) fun n => x (n + 1)
    cases opened with
    | false => trivial
    | true => exact ⟨rfl, fun _ => ⟨rfl, fun _ => trivial⟩⟩
  · rw [exec_call]
    split_ifs
    · exact .refl _ _
    · refine hfirst false _ (fun opened => ?_) fun n => x (n + 1 + 1)
      cases opened with
      | false => trivial
      | true => exact ⟨rfl, fun _ => ⟨rfl, fun _ => trivial⟩⟩

end Counter

end ConferenceCall.Log

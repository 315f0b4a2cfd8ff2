import ConferenceCall.Library.Disk
import ConferenceCall.Library.Machine
import ConferenceCall.Library.Program
import ConferenceCall.Log.Clock

/-! The system calls of the program and what they do to the disk and to the open files. Whether
a call succeeds, how much a short one moves, the clock, the order of a directory and what `tar`
and `rm` achieve is chosen by the environment. How the shell splits a command line into commands
and words is a parameter. -/

namespace ConferenceCall.Log

open Library

/-- The variables that hold a file descriptor. -/
inductive Fd
  | logFd
  | fd
  deriving DecidableEq

/-- The types of directory entries the program tells apart. -/
inductive DType
  | DT_DIR
  | DT_REG
  deriving DecidableEq

/-- A command of the shell; `base` is the directory of `-C`. -/
inductive Command
  | tar (target base : Text) (operands : List Text)
  | rm (operands : List Text)
  | touch (operands : List Text)
  | other
  deriving DecidableEq

/-- A command that was run, and whether it succeeded. -/
structure Ran where
  command : Command
  ok : Bool
  deriving DecidableEq

/-- The calls. `quiet` stands for locking, unlocking, `sync` and `closedir`, which change no
file; `uninitialised` reads memory nobody wrote. -/
inductive Call
  | stat (path : Text)
  | openFile (f : Fd) (path : Text) (creates appends : Bool)
  | read (f : Fd) (size : ℕ)
  | write (f : Fd) (text : Text)
  | close (f : Fd)
  | rename (old new : Text)
  | unlink (path : Text)
  | access (path : Text)
  | mkdir (path : Text)
  | opendir (path : Text)
  | readdir (folder : Text) (name : Name)
  | ftw (path : Text)
  | system (command : Text)
  | gettimeofday
  | uninitialised
  | stderr (text : Text)
  | quiet
  deriving DecidableEq

/-- What a call answers: `stat` the size of an existing file, `write` the number of bytes
written, `opendir` the names in the order in which `readdir` will come to them. -/
abbrev Call.Answer : Call → Type
  | .stat _ => Option ℕ
  | .openFile .. => Bool
  | .read .. => Text
  | .write .. => Option ℕ
  | .rename .. => Bool
  | .unlink _ => Bool
  | .access _ => Bool
  | .mkdir _ => Bool
  | .opendir _ => Option (List Name)
  | .readdir .. => Option DType
  | .ftw _ => ℕ
  | .system _ => List Ran
  | .gettimeofday => ℤ × ℕ
  | .uninitialised => Text
  | .close _ | .stderr _ | .quiet => Unit

/-- The fate of a call; at `stops` the process ends before it. -/
inductive Fate
  | done
  | fails
  | short (n : ℕ)
  | stops
  deriving DecidableEq

/-- What one `tar` or `rm` achieves: the size of an archive; after a failure, what stands in
the target and which paths were not removed. -/
structure Tool where
  ok : Bool := true
  size : ℕ := 0
  left : Option (List Item) := none
  spares : Path → Bool := fun _ => true

/-- The choices of the environment at one call. -/
structure Choice where
  fate : Fate := .done
  dirSize : ℕ := 4096
  names : List Name := []
  now : ℤ := 0
  usec : ℕ := 0
  walk : List Path := []
  memory : Text := []
  tools : ℕ → Tool := fun _ => {}

/-- All succeeds. -/
def Choice.Succeeds (x : Choice) : Prop := x.fate = .done ∧ ∀ n, (x.tools n).ok = true

/-- An open file, under the path it has now. -/
structure Handle where
  path : Path
  appends : Bool
  deriving DecidableEq

structure State where
  disk : Disk
  opened : Fd → Option Handle := fun _ => none

namespace State

variable (s : State)

/-- The file behind a descriptor and its content. -/
def target (f : Fd) : Option (Handle × List Item) :=
  (s.opened f).bind fun h => (s.disk.content h.path).map fun c => (h, c)

def setOpen (f : Fd) (h : Option Handle) : State :=
  { s with opened := Function.update s.opened f h }

@[simp] theorem setOpen_disk (f : Fd) (h : Option Handle) : (s.setOpen f h).disk = s.disk := rfl

@[simp] theorem setOpen_setOpen (f : Fd) (h h' : Option Handle) :
    (s.setOpen f h).setOpen f h' = s.setOpen f h' := by
  simp only [setOpen, Function.update_idem]

/-- Change the disk; files that are gone are written to no more. -/
def setDisk (d : Disk) : State where
  disk := d
  opened f := (s.opened f).filter fun h => (d.node h.path).isSome

/-- Rename a file; it stays open under its new path. -/
def move (p q : Path) : State where
  disk := s.disk.move p q
  opened f := (s.opened f).bind fun h =>
    if h.path = p then some { h with path := q } else if h.path = q then none else some h

variable {s}

theorem mem_setOpen {f g : Fd} {h : Handle} {h' : Option Handle}
    (hm : h ∈ (s.setOpen f h').opened g) : h ∈ s.opened g ∨ h ∈ h' := by
  by_cases hg : g = f
  · subst hg
    exact .inr (by simpa [setOpen] using hm)
  · exact .inl (by simpa [setOpen, hg] using hm)

theorem mem_setDisk {d : Disk} {f : Fd} {h : Handle} (hm : h ∈ (s.setDisk d).opened f) :
    h ∈ s.opened f := (Option.filter_eq_some_iff.mp hm).1

theorem mem_move {p q : Path} {f : Fd} {h : Handle} (hm : h ∈ (s.move p q).opened f) :
    ∃ h' ∈ s.opened f, h.path = h'.path ∨ h.path = q := by
  obtain ⟨h', hs, hm⟩ := Option.bind_eq_some_iff.mp hm
  refine ⟨h', hs, ?_⟩
  split_ifs at hm with hp
  · cases hm
    exact .inr rfl
  · cases hm
    exact .inl rfl

end State

def statSize (dirSize : ℕ) : Node → ℕ
  | .dir => dirSize
  | .file c => (c.map Item.size).sum

/-- The part of a text a call moves. -/
def Fate.moved {α : Type} (text : List α) : Fate → List α
  | .done => text
  | .short n => text.take n
  | .fails | .stops => []

theorem Fate.moved_eq {α : Type} {text : List α} {x : Fate}
    (h : text.length ≤ (x.moved text).length) : x.moved text = text := by
  cases x with
  | done => rfl
  | short n => exact List.take_of_length_le (by simpa [moved] using h)
  | fails => exact (List.eq_nil_of_length_eq_zero (Nat.le_zero.mp h)).symm
  | stops => exact (List.eq_nil_of_length_eq_zero (Nat.le_zero.mp h)).symm

/-- The operands of `tar zcf`. -/
def Command.ofTar : List Text → Command
  | target :: option :: base :: operands =>
    if option = "-C".toList then .tar target base operands
    else .tar target [] (option :: base :: operands)
  | target :: operands => .tar target [] operands
  | [] => .other

def Command.ofWords : List Text → Command
  | name :: option :: operands =>
    if name = "tar".toList ∧ option = "zcf".toList then .ofTar operands
    else if name = "rm".toList ∧ option = "-rf".toList then .rm operands
    else if name = "touch".toList then .touch (option :: operands)
    else .other
  | _ => .other

/-- `rm` refuses to remove these: nothing, the root and what ends in `.` or `..`. -/
def refused (d : Disk) (operand : Text) : Bool :=
  operand = [] ∨ d.path operand = [] ∨
    ((operand.splitOn '/').filter (· ≠ [])).getLast? ∈ [some ['.'], some ['.', '.']]

/-- The paths below the operands of `rm`. -/
def rmPaths (d : Disk) (operands : List Text) (p : Path) : Prop :=
  ∃ w ∈ operands, refused d w = false ∧ d.path w <+: p

instance (d : Disk) (operands : List Text) : DecidablePred (rmPaths d operands) :=
  fun _ => inferInstanceAs (Decidable (∃ w ∈ operands, _))

/-- The paths of the operands of `tar`. -/
def tarPaths (d : Disk) (base : Text) (operands : List Text) : List Path :=
  operands.map (Path.resolve (d.path base))

/-- `touch` makes an empty file where there is none. -/
def touched (d : Disk) (operand : Text) : Disk :=
  if d.Creatable operand then d.put (d.path operand) (some (.file [])) else d

/-- Run a command. `tar` replaces its target; it fails when an operand is missing. -/
def Command.run (t : Tool) (d : Disk) : Command → Disk × Ran
  | .tar target base operands =>
    let paths := tarPaths d base operands
    if operands = [] ∨ ¬(d.isFile target = true ∨ d.Creatable target) then
      (d, ⟨.tar target base operands, false⟩)
    else if t.ok then
      (d.put (d.path target) (some (.file [.archive t.size (d.members paths)])),
        ⟨.tar target base operands, paths.all fun p => (d.node p).isSome⟩)
    else (match t.left with
      | none => d
      | some c => d.put (d.path target) (some (.file c)), ⟨.tar target base operands, false⟩)
  | .rm operands =>
    (d.cut fun p => rmPaths d operands p ∧ (t.ok = true ∨ t.spares p = false), ⟨.rm operands, t.ok⟩)
  | .touch operands =>
    (if t.ok then operands.foldl touched d else d, ⟨.touch operands, t.ok⟩)
  | .other => (d, ⟨.other, t.ok⟩)

/-- Run commands one after the other. -/
def runCommands (tools : ℕ → Tool) : ℕ → List Command → Disk → Disk × List Ran
  | _, [], d => (d, [])
  | n, c :: l, d =>
    let (d, ran) := c.run (tools n) d
    let (d, rans) := runCommands tools (n + 1) l d
    (d, ran :: rans)

variable (sh : Text → List (List Text))

/-- The answer and the effect of a call that is reached. Only files are renamed:
rename(2) moves a directory too, but it is asked to only if the directory is itself larger than a
log may be. -/
def act : (c : Call) → Choice → State → c.Answer × State
  | .stat path, x, s => ((s.disk.lookup path).map (statSize x.dirSize), s)
  | .openFile f path creates appends, x, s =>
    if x.fate = .fails then (false, s.setOpen f none)
    else match s.disk.lookup path with
      | some (.file _) => (true, s.setOpen f (some ⟨s.disk.path path, appends⟩))
      | some .dir => (false, s.setOpen f none)
      | none =>
        if creates = true ∧ s.disk.Creatable path then
          (true, { s with disk := s.disk.put (s.disk.path path) (some (.file [])) }.setOpen f
            (some ⟨s.disk.path path, appends⟩))
        else (false, s.setOpen f none)
  | .read f size, x, s =>
    (match s.target f with
      | none => []
      | some (_, content) => x.fate.moved ((Item.text content).take size), s)
  | .write f text, x, s =>
    match s.target f with
    | none => (none, s)
    | some (h, content) =>
      let moved := x.fate.moved text
      let content := if h.appends then content ++ Item.ofText moved
        else Item.ofText moved ++ content.drop moved.length
      (if x.fate = .fails then none else some moved.length,
        { s with disk := s.disk.put h.path (some (.file content)) })
  | .close f, _, s => ((), s.setOpen f none)
  | .rename old new, x, s =>
    match s.disk.lookup old with
    | some (.file _) =>
      if x.fate = .fails ∨ ¬(s.disk.isFile new = true ∨ s.disk.Creatable new) then
        (false, s)
      else (true, s.move (s.disk.path old) (s.disk.path new))
    | _ => (false, s)
  | .unlink path, x, s =>
    match s.disk.lookup path with
    | some (.file _) =>
      if x.fate = .fails then (false, s)
      else (true, s.setDisk (s.disk.put (s.disk.path path) none))
    | _ => (false, s)
  | .access path, _, s => ((s.disk.lookup path).isSome, s)
  | .mkdir path, x, s =>
    if x.fate = .fails ∨ s.disk.node (s.disk.path path) ≠ none ∨ s.disk.path path = [] ∨
        path = [] ∨ ¬s.disk.IsDir (s.disk.path path).dropLast then (false, s)
    else (true, { s with disk := s.disk.put (s.disk.path path) (some .dir) })
  | .opendir path, x, s =>
    (if x.fate = .fails ∨ ¬s.disk.IsDir (s.disk.path path) then none else some x.names, s)
  | .readdir folder name, _, s =>
    (if Path.Proper name then
      (s.disk.node (s.disk.path folder ++ [name])).map fun
        | .dir => .DT_DIR
        | .file _ => .DT_REG
    else none, s)
  | .ftw path, x, s =>
    ((x.walk.map fun p => if s.disk.path path <+: p then
      ((s.disk.node p).map (statSize x.dirSize)).getD 0 else 0).sum, s)
  | .system command, x, s =>
    if x.fate = .fails then ([], s)
    else
      let (disk, rans) := runCommands x.tools 0 ((sh command).map .ofWords) s.disk
      (rans, s.setDisk disk)
  | .gettimeofday, x, s => ((x.now, x.usec), s)
  | .uninitialised, x, s => (x.memory, s)
  | .stderr _, _, s => ((), s)
  | .quiet, _, s => ((), s)

/-- The system. -/
def perform : System Call Call.Answer Choice State := fun c x s =>
  if x.fate = .stops then none else some (act sh c x s)

/-- A program of the log. -/
abbrev Prog := Program Call Call.Answer

/-! The calls as programs. -/

namespace Sys

open Program (request)

abbrev stat (path : Text) : Prog (Option ℕ) := request (Call.stat path)
abbrev openFile (f : Fd) (path : Text) (creates appends : Bool) : Prog Bool :=
  request (Call.openFile f path creates appends)
abbrev read (f : Fd) (size : ℕ) : Prog Text := request (Call.read f size)
abbrev write (f : Fd) (text : Text) : Prog (Option ℕ) := request (Call.write f text)
abbrev close (f : Fd) : Prog Unit := request (Call.close f)
abbrev rename (old new : Text) : Prog Bool := request (Call.rename old new)
abbrev unlink (path : Text) : Prog Bool := request (Call.unlink path)
abbrev access (path : Text) : Prog Bool := request (Call.access path)
abbrev mkdir (path : Text) : Prog Bool := request (Call.mkdir path)
abbrev opendir (path : Text) : Prog (Option (List Name)) := request (Call.opendir path)
abbrev readdir (folder : Text) (name : Name) : Prog (Option DType) := request (Call.readdir folder name)
abbrev ftw (path : Text) : Prog ℕ := request (Call.ftw path)
abbrev system (command : Text) : Prog (List Ran) := request (Call.system command)
abbrev gettimeofday : Prog (ℤ × ℕ) := request Call.gettimeofday
abbrev uninitialised : Prog Text := request Call.uninitialised
abbrev stderr (text : Text) : Prog Unit := request (Call.stderr text)
abbrev quiet : Prog Unit := request Call.quiet

end Sys

theorem perform_eq_some {c : Call} {x : Choice} {s t : State} {r : c.Answer} :
    perform sh c x s = some (r, t) ↔ x.fate ≠ .stops ∧ act sh c x s = (r, t) := by
  unfold perform
  split_ifs with hx <;> simp [hx]

/-- The event of a call that is reached. -/
def event (c : Call) (x : Choice) (s : State) : Event Call Call.Answer State :=
  ⟨c, (act sh c x s).1, s, (act sh c x s).2⟩

theorem exec_call {α : Type} (c : Call) (next : c.Answer → Prog α) (x : ℕ → Choice) (s : State) :
    (Program.call c next).exec (perform sh) x s =
      if (x 0).fate = .stops then ⟨none, s, []⟩
      else ((next (act sh c (x 0) s).1).exec (perform sh) (fun n => x (n + 1))
        (act sh c (x 0) s).2).after [event sh c (x 0) s] := by
  rw [Program.exec, perform]
  split_ifs <;> rfl

/-- A program that comes to its end has made its first call. -/
theorem exec_value {α : Type} {c : Call} {next : c.Answer → Prog α} {x : ℕ → Choice} {s : State}
    {a : α} (h : ((Program.call c next).exec (perform sh) x s).value = some a) :
    ((next (act sh c (x 0) s).1).exec (perform sh) (fun n => x (n + 1))
        (act sh c (x 0) s).2).value = some a ∧
      ((Program.call c next).exec (perform sh) x s).calls = event sh c (x 0) s ::
        ((next (act sh c (x 0) s).1).exec (perform sh) (fun n => x (n + 1))
          (act sh c (x 0) s).2).calls := by
  rw [exec_call] at h ⊢
  split_ifs at h ⊢
  exact ⟨h, rfl⟩

theorem mem_calls {α : Type} {c : Call} {next : c.Answer → Prog α} {x : ℕ → Choice} {s : State}
    {e : Event Call Call.Answer State}
    (h : e ∈ ((Program.call c next).exec (perform sh) x s).calls) :
    e = event sh c (x 0) s ∨ e ∈ ((next (act sh c (x 0) s).1).exec (perform sh)
      (fun n => x (n + 1)) (act sh c (x 0) s).2).calls := by
  rw [exec_call] at h
  split_ifs at h
  · simp at h
  · exact List.mem_cons.mp h

/-- The calls of a run. -/
abbrev Trace := List (Event Call Call.Answer State)

variable {sh} {x : Choice} {s : State} {f : Fd}

theorem act_openFile_file {path : Text} {creates appends : Bool} {c : List Item}
    (hx : x.fate ≠ .fails) (h : s.disk.lookup path = some (.file c)) :
    act sh (.openFile f path creates appends) x s =
      (true, s.setOpen f (some ⟨s.disk.path path, appends⟩)) := by
  simp only [act, if_neg hx, h]

theorem act_openFile_new {path : Text} {appends : Bool} (hx : x.fate ≠ .fails)
    (h : s.disk.Creatable path) : act sh (.openFile f path true appends) x s =
      (true, { s with disk := s.disk.put (s.disk.path path) (some (.file [])) }.setOpen f
        (some ⟨s.disk.path path, appends⟩)) := by
  simp only [act, if_neg hx, Disk.lookup_none h.1, h, and_self, if_true]

variable (sh) in
/-- A file is opened where one is, or made. -/
theorem act_openFile_cases (x : Choice) (s : State) (f : Fd) (path : Text)
    (creates appends : Bool) :
    act sh (.openFile f path creates appends) x s = (false, s.setOpen f none) ∨
      (∃ c, s.disk.lookup path = some (.file c) ∧ act sh (.openFile f path creates appends) x s =
        (true, s.setOpen f (some ⟨s.disk.path path, appends⟩))) ∨
      creates = true ∧ s.disk.Creatable path ∧ act sh (.openFile f path creates appends) x s =
        (true, { s with disk := s.disk.put (s.disk.path path) (some (.file [])) }.setOpen f
          (some ⟨s.disk.path path, appends⟩)) := by
  by_cases hx : x.fate = .fails
  · exact .inl (by simp only [act, if_pos hx])
  rcases hl : s.disk.lookup path with _ | _ | c
  · by_cases hc : creates = true ∧ s.disk.Creatable path
    · obtain ⟨rfl, hc⟩ := hc
      exact .inr (.inr ⟨rfl, hc, act_openFile_new hx hc⟩)
    · exact .inl (by simp only [act, if_neg hx, hl, if_neg hc])
  · exact .inl (by simp only [act, if_neg hx, hl])
  · exact .inr (.inl ⟨c, rfl, act_openFile_file hx hl⟩)

theorem target_setOpen {h : Handle} {c : List Item} (hc : s.disk.node h.path = some (.file c)) :
    (s.setOpen f (some h)).target f = some (h, c) := by
  simp [State.target, State.setOpen, Disk.content_eq_some.mpr hc]

theorem act_write {text : Text} {h : Handle} {c : List Item} (hx : x.fate = .done)
    (ht : s.target f = some (h, c)) : act sh (.write f text) x s =
      (some text.length, { s with disk := s.disk.put h.path (some (.file
        (if h.appends then c ++ Item.ofText text else Item.ofText text ++ c.drop text.length))) }) := by
  simp [act, ht, hx, Fate.moved]

variable (sh) in
/-- Writing to an open file makes and removes none. -/
theorem write_node_none (x : Choice) (f : Fd) (text : Text) (s : State) (p : Path) :
    (act sh (.write f text) x s).2.disk.node p = none ↔ s.disk.node p = none := by
  simp only [act]
  cases ht : s.target f with
  | none => rfl
  | some hc =>
    obtain ⟨h, c⟩ := hc
    obtain ⟨h', -, hm⟩ := Option.bind_eq_some_iff.mp ht
    obtain ⟨c', hcontent, hpair⟩ := Option.map_eq_some_iff.mp hm
    cases hpair
    by_cases hp : p = h.path
    · subst hp
      simp [Disk.content_eq_some.mp hcontent]
    · rw [Disk.put_node_of_ne hp]

theorem act_read {size : ℕ} {h : Handle} {c : List Item} (hx : x.fate = .done)
    (ht : s.target f = some (h, c)) :
    act sh (.read f size) x s = ((Item.text c).take size, s) := by
  simp [act, ht, hx, Fate.moved]

/-- A file that was read as far as `size`, or to its end. -/
theorem act_read_whole {size : ℕ} {h : Handle} {c : List Item} (ht : s.target f = some (h, c))
    (hlength : ((Item.text c).take size).length ≤ List.length (act sh (.read f size) x s).1) :
    (act sh (.read f size) x s).1 = (Item.text c).take size := by
  simp only [act, ht] at hlength ⊢
  exact Fate.moved_eq hlength

theorem act_rename {old new : Text} {c : List Item} (hx : x.fate ≠ .fails)
    (hold : s.disk.lookup old = some (.file c)) (hnew : s.disk.Creatable new) :
    act sh (.rename old new) x s = (true, s.move (s.disk.path old) (s.disk.path new)) := by
  simp [act, hold, hx, hnew]

variable (sh) in
theorem act_rename_cases (x : Choice) (s : State) (old new : Text) :
    act sh (.rename old new) x s = (false, s) ∨
      ∃ c, s.disk.lookup old = some (.file c) ∧
        (s.disk.isFile new = true ∨ s.disk.Creatable new) ∧
        act sh (.rename old new) x s = (true, s.move (s.disk.path old) (s.disk.path new)) := by
  rcases hl : s.disk.lookup old with _ | _ | c
  · exact .inl (by simp only [act, hl])
  · exact .inl (by simp only [act, hl])
  · by_cases hx : x.fate = .fails ∨ ¬(s.disk.isFile new = true ∨ s.disk.Creatable new)
    · exact .inl (by simp only [act, hl, if_pos hx])
    · rw [not_or, not_not] at hx
      exact .inr ⟨c, rfl, hx.2, by simp [act, hl, hx]⟩

variable (sh) in
theorem act_unlink_cases (x : Choice) (s : State) (path : Text) :
    act sh (.unlink path) x s = (false, s) ∨
      ∃ c, s.disk.lookup path = some (.file c) ∧
        act sh (.unlink path) x s = (true, s.setDisk (s.disk.put (s.disk.path path) none)) := by
  rcases hl : s.disk.lookup path with _ | _ | c
  · exact .inl (by simp only [act, hl])
  · exact .inl (by simp only [act, hl])
  · by_cases hx : x.fate = .fails
    · exact .inl (by simp only [act, hl, if_pos hx])
    · exact .inr ⟨c, rfl, by simp only [act, hl, if_neg hx]⟩

theorem act_unlink {path : Text} {c : List Item} (hx : x.fate ≠ .fails)
    (h : s.disk.lookup path = some (.file c)) : act sh (.unlink path) x s =
      (true, s.setDisk (s.disk.put (s.disk.path path) none)) := by
  simp [act, h, hx]

variable (sh)

/-- Run a program; at its end no file is open. -/
def invoke {α : Type} : Step (Prog α × (ℕ → Choice)) State
    (Outcome State (Event Call Call.Answer State) α) := fun (p, x) s =>
  ({ (p.exec (perform sh) x s).state with opened := fun _ => none }, [p.exec (perform sh) x s])

/-! ### Runs in which every call succeeds -/

/-- The program ends, with a result and a state in `R`. -/
def Yields {α : Type} (p : Prog α) (R : α → State → Prop) (s : State) : Prop :=
  Program.Ensures (perform sh) Choice.Succeeds p (fun o => ∃ a, o.value = some a ∧ R a o.state) s

section Yields

variable {sh} {α β : Type} {R : α → State → Prop}

theorem yields_pure {a : α} (h : R a s) : Yields sh (pure a) R s := fun _ _ => ⟨a, rfl, h⟩

theorem yields_call {c : Call} {next : c.Answer → Prog α} (h : ∀ x : Choice, x.Succeeds →
    Yields sh (next (act sh c x s).1) R (act sh c x s).2) : Yields sh (.call c next) R s := by
  intro x hx
  have hdone : (x 0).fate = .done := (hx 0).1
  rw [exec_call, if_neg (by simp [hdone])]
  exact h (x 0) (hx 0) _ fun n => hx (n + 1)

theorem yields_bind {p : Prog β} {g : β → Prog α}
    (h : Yields sh p (fun b t => Yields sh (g b) R t) s) : Yields sh (p >>= g) R s := by
  refine Program.ensures_bind (h.mono fun o => ?_)
  rintro ⟨b, hb, hg⟩
  rw [hb]
  exact hg.mono fun _ h => h

theorem Yields.mono {p : Prog α} {R' : α → State → Prop} (h : Yields sh p R s)
    (hR : ∀ a t, R a t → R' a t) : Yields sh p R' s :=
  Program.Ensures.mono h fun _ ⟨a, ha, h⟩ => ⟨a, ha, hR _ _ h⟩

end Yields

end ConferenceCall.Log

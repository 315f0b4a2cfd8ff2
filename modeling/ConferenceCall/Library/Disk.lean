import ConferenceCall.Library.Paths
import Mathlib.Algebra.BigOperators.Group.List.Basic
import Mathlib.Algebra.GroupWithZero.Nat
import Mathlib.Logic.Function.Basic

/-! A file system without links: paths with directories and regular files. A file is a list of
bytes and of archives, which are kept as what was packed and not as their bytes. -/

namespace ConferenceCall.Library

/-- A byte, or an archive with its size and the files in it under the paths they had. -/
inductive Item
  | byte (c : Char)
  | archive (size : ℕ) (members : Path → Option (List Item))

namespace Item

def size : Item → ℕ
  | byte _ => 1
  | archive n _ => n

/-- The content of a file that holds a text. -/
def ofText (s : List Char) : List Item := s.map byte

/-- The bytes before the first archive. -/
def text : List Item → List Char
  | byte c :: l => c :: text l
  | _ => []

/-- A line stands in a file, or in a file packed there. -/
inductive Holds (line : List Char) : List Item → Prop
  | bytes (before after : List Item) : Holds line (before ++ ofText line ++ after)
  | packed {content member : List Item} {size : ℕ} {members : Path → Option (List Item)} {p : Path}
      (harchive : archive size members ∈ content) (hmember : members p = some member)
      (hline : Holds line member) : Holds line content

@[simp] theorem text_ofText (s : List Char) : text (ofText s) = s := by
  induction s with
  | nil => rfl
  | cons c s ih => exact congrArg (c :: ·) ih

theorem sum_size_ofText (s : List Char) : ((ofText s).map size).sum = s.length := by
  induction s with
  | nil => rfl
  | cons c s ih =>
    rw [ofText, List.map_cons, List.map_cons, List.sum_cons, ← ofText, ih, List.length_cons]
    exact Nat.add_comm ..

/-- Appending loses nothing. -/
theorem Holds.append {line : List Char} {content : List Item} (h : Holds line content)
    (more : List Item) : Holds line (content ++ more) := by
  cases h with
  | bytes before after =>
    rw [List.append_assoc]
    exact .bytes before (after ++ more)
  | packed harchive hmember hline => exact .packed (List.mem_append_left _ harchive) hmember hline

end Item

inductive Node
  | dir
  | file (content : List Item)

/-- What the paths stand for, and the working directory. -/
structure Disk where
  cwd : Path
  node : Path → Option Node

namespace Disk

open ConferenceCall.Library.Path

variable (d : Disk)

/-- The content of a regular file. -/
def content (p : Path) : Option (List Item) :=
  match d.node p with
  | some (.file c) => some c
  | _ => none

def IsDir (p : Path) : Prop := p = [] ∨ match d.node p with
  | some .dir => True
  | _ => False

instance (p : Path) : Decidable (d.IsDir p) := by
  unfold IsDir
  split <;> infer_instance

/-- The path of a text. -/
def path (s : List Char) : Path := resolve d.cwd s

/-- What a text stands for; a slash after the name of a file is an error. -/
def lookup (s : List Char) : Option Node :=
  match d.node (d.path s) with
  | some (.file c) => if s.getLast? = some '/' then none else some (.file c)
  | n => if s = [] then none else n

def isFile (s : List Char) : Bool :=
  match d.lookup s with
  | some (.file _) => true
  | _ => false

/-- A file of this name can be made. -/
def Creatable (s : List Char) : Prop :=
  d.node (d.path s) = none ∧ s.getLast? ≠ some '/' ∧ d.path s ≠ [] ∧ d.IsDir (d.path s).dropLast

instance (s : List Char) : Decidable (d.Creatable s) :=
  decidable_of_iff ((d.node (d.path s)).isNone = true ∧ s.getLast? ≠ some '/' ∧ d.path s ≠ [] ∧
    d.IsDir (d.path s).dropLast) (by rw [Creatable, Option.isNone_iff_eq_none])

def put (p : Path) (n : Option Node) : Disk := { d with node := Function.update d.node p n }

/-- Give a file another path. -/
def move (p q : Path) : Disk := if p = q then d else (d.put q (d.node p)).put p none

/-- Remove paths. -/
def cut (gone : Path → Prop) [DecidablePred gone] : Disk :=
  { d with node := fun p => if gone p then none else d.node p }

/-- The files at and below some paths. -/
def members (roots : List Path) (p : Path) : Option (List Item) :=
  if ∃ r ∈ roots, r <+: p then d.content p else none

variable {d} {p q : Path} {n : Option Node}

@[simp] theorem put_cwd : (d.put p n).cwd = d.cwd := rfl

@[simp] theorem put_path (s : List Char) : (d.put p n).path s = d.path s := rfl

@[simp] theorem put_node_self : (d.put p n).node p = n := Function.update_self ..

theorem put_node_of_ne (h : q ≠ p) : (d.put p n).node q = d.node q := Function.update_of_ne h ..

@[simp] theorem put_put (m : Option Node) : (d.put p n).put p m = d.put p m := by
  simp only [put, Function.update_idem]

/-- Putting what is there changes nothing. -/
theorem put_node (h : d.node p = n) : d.put p n = d := by
  rw [put, ← h, Function.update_eq_self]

@[simp] theorem move_cwd : (d.move p q).cwd = d.cwd := by
  unfold move
  split <;> rfl

@[simp] theorem move_path (s : List Char) : (d.move p q).path s = d.path s := by
  rw [path, path, move_cwd]

theorem move_node_new (h : p ≠ q) : (d.move p q).node q = d.node p := by
  rw [move, if_neg h, put_node_of_ne h.symm, put_node_self]

theorem move_node_old (h : p ≠ q) : (d.move p q).node p = none := by
  rw [move, if_neg h, put_node_self]

theorem move_node_of_ne {r : Path} (h : r ≠ p) (h' : r ≠ q) : (d.move p q).node r = d.node r := by
  unfold move
  split
  · rfl
  · rw [put_node_of_ne h, put_node_of_ne h']

theorem content_eq_some {c : List Item} : d.content p = some c ↔ d.node p = some (.file c) := by
  unfold content
  split
  · next h => simp [h]
  · next h => simp only [reduceCtorEq, false_iff]; exact h c

theorem isDir_put_of_ne (h : q ≠ p) : (d.put p n).IsDir q ↔ d.IsDir q := by
  rw [IsDir, IsDir, put_node_of_ne h]

theorem content_congr {d' : Disk} (h : d'.node p = d.node q) : d'.content p = d.content q := by
  rw [content, content, h]

/-- What is put at a free path changes no file. -/
theorem content_put_of_none {c : List Item} (hnone : d.node q = none) (hc : d.content p = some c) :
    (d.put q n).content p = some c := by
  rw [← hc]
  refine content_congr (put_node_of_ne ?_)
  rintro rfl
  rw [content_eq_some, hnone] at hc
  cases hc

/-- The text of a file is looked up at its path. -/
theorem lookup_file {s : List Char} {c : List Item} (hs : s.getLast? ≠ some '/')
    (h : d.node (d.path s) = some (.file c)) : d.lookup s = some (.file c) := by
  rw [lookup, h]
  exact if_neg hs

theorem node_of_lookup {s : List Char} {c : List Item} (h : d.lookup s = some (.file c)) :
    d.node (d.path s) = some (.file c) := by
  unfold lookup at h
  split at h
  · next hn =>
    split_ifs at h
    rwa [← h]
  · split_ifs at h
    exact h

theorem node_of_isFile {s : List Char} (h : d.isFile s = true) :
    ∃ c, d.node (d.path s) = some (.file c) := by
  unfold isFile at h
  split at h
  · next c hc => exact ⟨c, node_of_lookup hc⟩
  · cases h

theorem lookup_none {s : List Char} (h : d.node (d.path s) = none) : d.lookup s = none := by
  rw [lookup, h]
  exact ite_self none

end Disk

end ConferenceCall.Library

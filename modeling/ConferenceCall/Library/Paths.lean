import Mathlib.Data.List.Basic

/-! Paths of a POSIX file system without links. A text is resolved from a working directory,
component by component. -/

namespace ConferenceCall.Library

/-- A name in a directory. -/
abbrev Name := List Char

/-- The names on the way from the root. -/
abbrev Path := List Name

namespace Path

/-- Follow components: empty ones and `.` stay, `..` goes up. -/
def descend (p : Path) : List Name → Path
  | [] => p
  | n :: l =>
    if n = [] ∨ n = ['.'] then descend p l
    else if n = ['.', '.'] then descend p.dropLast l
    else descend (p ++ [n]) l

/-- The path a text stands for. -/
def resolve (cwd : Path) (s : List Char) : Path :=
  descend (if s.head? = some '/' then [] else cwd) (s.splitOn '/')

/-- A name an entry of a directory can have. -/
def Proper (n : Name) : Prop := n ≠ [] ∧ n ≠ ['.'] ∧ n ≠ ['.', '.'] ∧ '/' ∉ n

instance (n : Name) : Decidable (Proper n) := inferInstanceAs (Decidable (_ ∧ _))

/-- The name of a directory ends with a slash, or is left out. -/
def Folder (dir : List Char) : Prop := dir = [] ∨ ∃ t, dir = t ++ ['/']

variable {cwd p : Path} {n : Name} {dir : List Char}

theorem descend_append (p : Path) (l l' : List Name) :
    descend p (l ++ l') = descend (descend p l) l' := by
  fun_induction descend p l with
  | case1 => rfl
  | case2 p n l h ih => rw [List.cons_append, descend, if_pos h, ih]
  | case3 p l h ih => rw [List.cons_append, descend, if_neg h, if_pos rfl, ih]
  | case4 p n l h h' ih => rw [List.cons_append, descend, if_neg h, if_neg h', ih]

theorem descend_nil (p : Path) (l : List Name) : descend p ([] :: l) = descend p l := by
  rw [descend, if_pos (.inl rfl)]

theorem descend_proper (h : Proper n) (l : List Name) :
    descend p (n :: l) = descend (p ++ [n]) l := by
  obtain ⟨h, h', h'', -⟩ := h
  rw [descend, if_neg (by simp [h, h']), if_neg h'']

/-- What follows a slash is resolved from what precedes it. -/
theorem resolve_append (cwd : Path) (t s : List Char) :
    resolve cwd (t ++ '/' :: s) = descend (resolve cwd (t ++ ['/'])) (s.splitOn '/') := by
  have hhead : (t ++ '/' :: s).head? = (t ++ ['/']).head? := by cases t <;> rfl
  rw [resolve, resolve, hhead, List.splitOn_append_cons_self, List.splitOn_append_cons_self,
    descend_append, descend_append, List.splitOn_nil, descend_nil]
  rfl

theorem resolve_nil (cwd : Path) : resolve cwd [] = cwd := by
  rw [resolve, List.splitOn_nil, descend_nil]
  rfl

/-- A text without a slash after the name of a directory is one component more. -/
theorem resolve_folder (cwd : Path) (hd : Folder dir) (hn : '/' ∉ n) :
    resolve cwd (dir ++ n) = descend (resolve cwd dir) [n] := by
  have hsplit : n.splitOn '/' = [n] := List.splitOn_eq_singleton hn
  rcases hd with rfl | ⟨t, rfl⟩
  · have hhead : n.head? ≠ some '/' := fun h => hn (List.mem_of_mem_head? h)
    rw [List.nil_append, resolve_nil, resolve, if_neg hhead, hsplit]
  · rw [List.append_assoc, List.singleton_append, resolve_append, hsplit]

/-- A name in a directory. -/
theorem resolve_proper (cwd : Path) (hd : Folder dir) (h : Proper n) :
    resolve cwd (dir ++ n) = resolve cwd dir ++ [n] := by
  rw [resolve_folder cwd hd h.2.2.2, descend_proper h]
  rfl

/-- One component stays, goes up or goes down. -/
theorem descend_cases (p : Path) (n : Name) :
    descend p [n] = p ∨ descend p [n] = p.dropLast ∨ descend p [n] = p ++ [n] := by
  simp only [descend]
  split_ifs
  · exact .inl rfl
  · exact .inr (.inl rfl)
  · exact .inr (.inr rfl)

/-- A slash at the end changes nothing. -/
theorem resolve_concat {t : List Char} (ht : t ≠ []) (cwd : Path) :
    resolve cwd (t ++ ['/']) = resolve cwd t := by
  have hhead : (t ++ ['/']).head? = t.head? := by
    cases t with
    | nil => exact absurd rfl ht
    | cons c t => rfl
  rw [resolve, resolve, hhead, List.splitOn_append_cons_self, descend_append, List.splitOn_nil,
    descend_nil]
  rfl

end Path

end ConferenceCall.Library

import ConferenceCall.Library.Disk

/-! Trees of directories: the parent of a directory is one. Making directories where nothing is
keeps all that was there. -/

namespace ConferenceCall.Library.Disk

/-- The working directory is there, and so is the parent of every directory. -/
structure IsTree (d : Disk) : Prop where
  cwd : d.IsDir d.cwd
  parent : ∀ p, d.IsDir p → d.IsDir p.dropLast

/-- Directories in `P` were made; the rest is as it was. -/
structure Grows (P : Path → Prop) (d d' : Disk) : Prop where
  cwd : d'.cwd = d.cwd
  node : ∀ p, d'.node p = d.node p ∨ d.node p = none ∧ d'.node p = some .dir ∧ P p

variable {P : Path → Prop} {d d' d'' : Disk} {p : Path}

theorem isDir_of_node (h : d.node p = some .dir) : d.IsDir p := .inr (by rw [h]; trivial)

theorem IsDir.node_eq (h : d.IsDir p) (hp : p ≠ []) : d.node p = some .dir := by
  have h := h.resolve_left hp
  split at h
  · assumption
  · exact h.elim

namespace Grows

theorem refl (P : Path → Prop) (d : Disk) : Grows P d d := ⟨rfl, fun _ => .inl rfl⟩

theorem trans (h : Grows P d d') (h' : Grows P d' d'') : Grows P d d'' := by
  refine ⟨h'.cwd.trans h.cwd, fun p => ?_⟩
  rcases h'.node p with hp | ⟨hnone, hdir, hp⟩
  · rw [hp]
    exact h.node p
  · rcases h.node p with hold | ⟨-, hold, -⟩
    · exact .inr ⟨hold ▸ hnone, hdir, hp⟩
    · rw [hold] at hnone
      cases hnone

theorem put (hnone : d.node p = none) (hp : P p) : Grows P d (d.put p (some .dir)) := by
  refine ⟨rfl, fun q => ?_⟩
  by_cases hq : q = p
  · subst hq
    exact .inr ⟨hnone, put_node_self, hp⟩
  · exact .inl (put_node_of_ne hq)

theorem path (h : Grows P d d') (t : List Char) : d'.path t = d.path t := by
  rw [Disk.path, Disk.path, h.cwd]

theorem isDir (h : Grows P d d') (hp : d.IsDir p) : d'.IsDir p := by
  rcases h.node p with hsame | ⟨-, hdir, -⟩
  · rwa [IsDir, hsame]
  · exact isDir_of_node hdir

/-- No file is made. -/
theorem not_file (h : Grows P d d') {c : List Item} (hp : d.node p ≠ some (.file c)) :
    d'.node p ≠ some (.file c) := by
  rcases h.node p with hsame | ⟨-, hdir, -⟩
  · rwa [hsame]
  · rw [hdir]
    simp

end Grows

/-- A directory made in a directory. -/
theorem IsTree.put (h : d.IsTree) (hnone : d.node p = none) (hp : d.IsDir p.dropLast) :
    (d.put p (some .dir)).IsTree := by
  have hgrows : Grows (fun _ => True) d (d.put p (some .dir)) := .put hnone trivial
  refine ⟨hgrows.isDir h.cwd, fun q hq => ?_⟩
  by_cases hqp : q = p
  · rw [hqp]
    exact hgrows.isDir hp
  · exact hgrows.isDir (h.parent q ((isDir_put_of_ne hqp).mp hq))

end ConferenceCall.Library.Disk

import ConferenceCall.Library.Tree
import ConferenceCall.Log.Days

/-! Making the folder of a day. The loop over the slashes of a path makes the directory before each
of them where it is missing; the empty text before a leading slash and the repeated texts before a
double slash go the same way. By induction along the path every directory on it is there in the
end, and nothing else has changed. -/

namespace ConferenceCall.Log

open Library Program Disk

/-- The texts on the way to a path: what ends at a slash, and the whole. -/
def Passes (path t : Text) : Prop := t = path ∨ t <+: path ∧ t.getLast? = some '/'

/-- What `mkdirs` does to a disk: only directories on the way are made. -/
structure Making (path : Text) (d d' : Disk) : Prop where
  tree : d'.IsTree
  grows : d.Grows (fun p => ∃ t, Passes path t ∧ p = d.path t) d'

/-- A directory that can be made. -/
def Missing (d : Disk) (str : Text) : Prop :=
  d.node (d.path str) = none ∧ d.path str ≠ [] ∧ str ≠ [] ∧ d.IsDir (d.path str).dropLast

variable {sh : Text → List (List Text)} {s : State} {d d' : Disk} {path str dir : Text} {n : Name}

/-- A directory is made where it is missing. -/
theorem yields_makeMissing {R : State → Prop} (hold : ¬Missing s.disk str → R s)
    (hnew : Missing s.disk str → R { s with disk := s.disk.put (s.disk.path str) (some .dir) }) :
    Yields sh (makeMissing str) (fun _ => R) s := by
  refine yields_call fun x hx => ?_
  show Yields sh (if !(s.disk.lookup str).isSome then _ else _) _ s
  by_cases hm : Missing s.disk str
  · rw [lookup_none hm.1]
    refine yields_call fun x' hx' => yields_pure ?_
    have hmade : act sh (.mkdir str) x' s =
        (true, { s with disk := s.disk.put (s.disk.path str) (some .dir) }) := by
      obtain ⟨hnone, hroot, hstr, hparent⟩ := hm
      simp [act, hx'.1, hnone, hroot, hstr, hparent]
    show R (act sh (.mkdir str) x' s).2
    rw [hmade]
    exact hnew hm
  · cases (s.disk.lookup str).isSome with
    | true => exact yields_pure (hold hm)
    | false =>
      refine yields_call fun x' hx' => yields_pure ?_
      have hfailed : act sh (.mkdir str) x' s = (false, s) := by
        simp only [act]
        rw [if_pos]
        unfold Missing at hm
        tauto
      show R (act sh (.mkdir str) x' s).2
      rw [hfailed]
      exact hold hm

/-- What is not missing is there when it is no file. -/
theorem isDir_of_not_missing (hd : d.IsTree) (hfolder : Path.Folder dir) (hn : '/' ∉ n)
    (hdir : d.IsDir (d.path dir))
    (hfile : dir ++ n ≠ [] → ∀ c, d.node (d.path (dir ++ n)) ≠ some (.file c))
    (hm : ¬Missing d (dir ++ n)) : d.IsDir (d.path (dir ++ n)) := by
  by_cases hempty : dir ++ n = []
  · rw [hempty, Disk.path, Path.resolve_nil]
    exact hd.cwd
  have hpath : d.path (dir ++ n) = Path.descend (d.path dir) [n] :=
    Path.resolve_folder d.cwd hfolder hn
  rcases Path.descend_cases (d.path dir) n with hstay | hup | hdown
  · rwa [hpath, hstay]
  · rw [hpath, hup]
    exact hd.parent _ hdir
  · have hparent : (d.path (dir ++ n)).dropLast = d.path dir := by
      rw [hpath, hdown, List.dropLast_concat]
    have hne : d.path (dir ++ n) ≠ [] := by
      rw [hpath, hdown]
      exact List.append_ne_nil_of_right_ne_nil _ (List.cons_ne_nil _ _)
    cases hnode : d.node (d.path (dir ++ n)) with
    | none => exact absurd ⟨hnode, hne, hempty, hparent ▸ hdir⟩ hm
    | some node =>
      cases node with
      | dir => exact isDir_of_node hnode
      | file c => exact absurd hnode (hfile hempty c)

/-- The directories on the way are there as far as a text goes. -/
def Covered (d d' : Disk) (str : Text) : Prop :=
  ∀ t, t <+: str → t.getLast? = some '/' → d'.IsDir (d.path t)

/-- A text is the name of a directory and what follows its last slash. -/
theorem exists_folder (str : Text) : ∃ dir n, str = dir ++ n ∧ Path.Folder dir ∧ '/' ∉ n := by
  induction str using List.reverseRecOn with
  | nil => exact ⟨[], [], rfl, .inl rfl, List.not_mem_nil⟩
  | append_singleton str c ih =>
    by_cases hc : c = '/'
    · exact ⟨str ++ [c], [], by simp, .inr ⟨str, by rw [hc]⟩, List.not_mem_nil⟩
    · obtain ⟨dir, n, rfl, hfolder, hn⟩ := ih
      refine ⟨dir, n ++ [c], List.append_assoc .., hfolder, ?_⟩
      simp [hn, Ne.symm hc]

theorem Covered.folder {P : Path → Prop} (h : Covered d d' (dir ++ n)) (hgrows : d.Grows P d')
    (hd : d'.IsTree) (hfolder : Path.Folder dir) : d'.IsDir (d.path dir) := by
  rcases hfolder with rfl | ⟨t, rfl⟩
  · rw [Disk.path, Path.resolve_nil, ← hgrows.cwd]
    exact hd.cwd
  · exact h _ (List.prefix_append ..) List.getLast?_concat

/-- One more character that is no slash, or one whose directory is there. -/
theorem Covered.concat {c : Char} (h : Covered d d' str)
    (hc : c = '/' → d'.IsDir (d.path (str ++ [c]))) : Covered d d' (str ++ [c]) := by
  intro t ht hlast
  rcases List.prefix_concat_iff.mp ht with rfl | ht
  · rw [List.getLast?_concat, Option.some.injEq] at hlast
    exact hc hlast
  · exact h t ht hlast

theorem isDir_concat (h : d'.IsDir (d.path str)) : d'.IsDir (d.path (str ++ ['/'])) := by
  by_cases hstr : str = []
  · subst hstr
    exact .inl rfl
  · rwa [Disk.path, Path.resolve_concat hstr]

section Loop
variable (hfile : ∀ t, Passes path t → ∀ c, d.node (d.path t) ≠ some (.file c))
include hfile

/-- One round. -/
theorem yields_round (hmaking : Making path d s.disk) (hcovered : Covered d s.disk str)
    (hpass : str ≠ [] → ∃ t, Passes path t ∧ d.path str = d.path t) :
    Yields sh (makeMissing str) (fun _ t => Making path d t.disk ∧ Covered d t.disk str ∧
      t.disk.IsDir (d.path str) ∧ t.opened = s.opened) s := by
  have hpath : s.disk.path str = d.path str := hmaking.grows.path str
  refine yields_makeMissing (fun hm => ?_) fun hm => ?_
  · obtain ⟨dir, n, rfl, hfolder, hn⟩ := exists_folder str
    refine ⟨hmaking, hcovered, hpath ▸ ?_, rfl⟩
    refine isDir_of_not_missing hmaking.tree hfolder hn ?_ (fun hne c => ?_) hm
    · rw [hmaking.grows.path]
      exact hcovered.folder hmaking.grows hmaking.tree hfolder
    · obtain ⟨t, ht, hsame⟩ := hpass hne
      rw [hpath, hsame]
      exact hmaking.grows.not_file (hfile t ht c)
  · obtain ⟨hnone, -, hne, hparent⟩ := hm
    have hput : Grows (fun p => ∃ t, Passes path t ∧ p = d.path t) s.disk
        (s.disk.put (s.disk.path str) (some .dir)) := .put hnone (hpath ▸ hpass hne)
    refine ⟨⟨hmaking.tree.put hnone hparent, hmaking.grows.trans hput⟩, ?_, ?_, rfl⟩
    · exact fun t ht hlast => hput.isDir (hcovered t ht hlast)
    · rw [← hpath]
      exact isDir_of_node put_node_self

/-- The loop over the slashes. -/
theorem yields_slashes {rest : Text} (hsplit : path = str ++ rest)
    (hmaking : Making path d s.disk) (hcovered : Covered d s.disk str) :
    Yields sh (each makeMissing (slashPrefixes str rest)) (fun _ t => Making path d t.disk ∧
      Covered d t.disk path ∧ t.opened = s.opened) s := by
  induction rest generalizing str s with
  | nil =>
    rw [List.append_nil] at hsplit
    exact yields_pure ⟨hmaking, hsplit ▸ hcovered, rfl⟩
  | cons c rest ih =>
    have hnext : path = (str ++ [c]) ++ rest := by rw [hsplit, List.append_assoc]; rfl
    rw [slashPrefixes]
    split_ifs with hc
    · subst hc
      have hpass : str ≠ [] → ∃ t, Passes path t ∧ d.path str = d.path t := by
        refine fun hne => ⟨str ++ ['/'], .inr ⟨⟨rest, hnext.symm⟩, List.getLast?_concat⟩, ?_⟩
        exact (Path.resolve_concat hne d.cwd).symm
      refine yields_bind ((yields_round hfile hmaking hcovered hpass).mono ?_)
      rintro - t ⟨hmaking, hcovered, hdir, hopened⟩
      rw [← hopened]
      exact ih hnext hmaking (hcovered.concat fun _ => isDir_concat hdir)
    · exact ih hnext hmaking (hcovered.concat fun h => absurd h hc)

end Loop

/-- On a tree in which no text on the way names a file, all directories on the way are there in
the end, and only those that were missing have been made. -/
theorem mkdirs_makes (hd : s.disk.IsTree)
    (hfile : ∀ t, Passes path t → ∀ c, s.disk.node (s.disk.path t) ≠ some (.file c)) :
    Yields sh (mkdirs path) (fun _ t => (∀ u, Passes path u → t.disk.IsDir (s.disk.path u)) ∧
      Making path s.disk t.disk ∧ t.opened = s.opened) s := by
  have hstart : Making path s.disk s.disk := ⟨hd, .refl _ _⟩
  have hnone : Covered s.disk s.disk [] := by
    intro t ht hlast
    rw [List.prefix_nil.mp ht] at hlast
    cases hlast
  refine yields_bind ((yields_slashes hfile rfl hstart hnone).mono ?_)
  rintro - t ⟨hmaking, hcovered, hopened⟩
  split_ifs with hne
  · refine (yields_round hfile hmaking hcovered fun _ => ⟨path, .inl rfl, rfl⟩).mono ?_
    rintro - u ⟨hmaking', hcovered', hdir, hopened'⟩
    refine ⟨?_, hmaking', hopened'.trans hopened⟩
    rintro w (rfl | ⟨hw, hlast⟩)
    · exact hdir
    · exact hcovered' w hw hlast
  · rw [not_not] at hne
    refine yields_pure ⟨?_, hmaking, hopened⟩
    rintro w (rfl | ⟨hw, hlast⟩)
    · rw [hne, Disk.path, Path.resolve_nil, ← hmaking.grows.cwd]
      exact hmaking.tree.cwd
    · exact hcovered w hw hlast

/-- Below the root there is one directory. -/
def varDisk : Disk where
  cwd := []
  node p := if p = ["var".toList] then some .dir else none

theorem varDisk_node (p : Path) :
    varDisk.node p = if p = ["var".toList] then some .dir else none := rfl

theorem isTree_varDisk : varDisk.IsTree where
  cwd := .inl rfl
  parent p hp := by
    by_cases hroot : p = []
    · exact .inl (by rw [hroot]; rfl)
    · have hnode := hp.node_eq hroot
      rw [varDisk_node] at hnode
      split_ifs at hnode with h
      exact .inl (by rw [h]; rfl)

/-- A slash at the start, two in the middle and one at the end. -/
theorem mkdirs_var : Yields splitWords (mkdirs "/var//log/".toList)
    (fun _ t => (∀ u, Passes "/var//log/".toList u → t.disk.IsDir (varDisk.path u)) ∧
      Making "/var//log/".toList varDisk t.disk ∧ t.opened = fun _ => none) ⟨varDisk, fun _ => none⟩ :=
  mkdirs_makes isTree_varDisk fun t _ c hnode => by
    rw [varDisk_node] at hnode
    split_ifs at hnode
    cases hnode

end ConferenceCall.Log

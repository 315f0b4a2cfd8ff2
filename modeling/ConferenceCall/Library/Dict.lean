import Mathlib.Data.Finmap

/-! Finite maps with one value type, as a hash map of the source is used: look
up, overwrite, erase, clear. Two maps are equal when every lookup agrees, so the
iteration order is not part of the value. -/

namespace ConferenceCall.Library

variable {κ ν : Type} [DecidableEq κ]

/-- A finite map from `κ` to `ν`. -/
abbrev Dict (κ ν : Type) := Finmap fun _ : κ => ν

namespace Dict

theorem lookup_insert_eq (m : Dict κ ν) (k k' : κ) (v : ν) :
    (m.insert k v).lookup k' = if k' = k then some v else m.lookup k' := by
  split_ifs with h
  · subst h; exact Finmap.lookup_insert m
  · exact Finmap.lookup_insert_of_ne m h

theorem lookup_erase_eq (m : Dict κ ν) (k k' : κ) :
    (m.erase k).lookup k' = if k' = k then none else m.lookup k' := by
  split_ifs with h
  · subst h; exact Finmap.lookup_erase k' m
  · exact Finmap.lookup_erase_ne h

theorem erase_of_lookup_none (m : Dict κ ν) (k : κ) (h : m.lookup k = none) : m.erase k = m := by
  refine Finmap.ext_lookup fun k' => ?_
  rw [lookup_erase_eq]
  split_ifs with hk
  · rw [hk, h]
  · rfl

theorem insert_of_lookup_some (m : Dict κ ν) (k : κ) (v : ν) (h : m.lookup k = some v) :
    m.insert k v = m := by
  refine Finmap.ext_lookup fun k' => ?_
  rw [lookup_insert_eq]
  split_ifs with hk
  · rw [hk, h]
  · rfl

theorem lookup_none_of_erase_eq (m : Dict κ ν) (k : κ) (h : m.erase k = m) : m.lookup k = none := by
  rw [← h]
  exact Finmap.lookup_erase k m

theorem erase_insert_ne (m : Dict κ ν) {k k' : κ} (v : ν) (h : k ≠ k') :
    (m.insert k v).erase k' = (m.erase k').insert k v := by
  refine Finmap.ext_lookup fun k'' => ?_
  simp only [lookup_erase_eq, lookup_insert_eq]
  split_ifs with h₁ h₂ <;> simp_all

theorem erase_insert_self (m : Dict κ ν) (k : κ) (v : ν) : (m.insert k v).erase k = m.erase k := by
  refine Finmap.ext_lookup fun k' => ?_
  simp only [lookup_erase_eq, lookup_insert_eq]
  split_ifs <;> rfl

theorem erase_erase_self (m : Dict κ ν) (k : κ) : (m.erase k).erase k = m.erase k :=
  erase_of_lookup_none _ _ (Finmap.lookup_erase k m)

/-- Erase the key, if there is one. -/
def eraseKey (m : Dict κ ν) (k : Option κ) : Dict κ ν := k.elim m m.erase

@[simp] theorem eraseKey_none (m : Dict κ ν) : m.eraseKey none = m := rfl

@[simp] theorem eraseKey_some (m : Dict κ ν) (k : κ) : m.eraseKey (some k) = m.erase k := rfl

theorem lookup_eraseKey_eq (m : Dict κ ν) (k : Option κ) (k' : κ) :
    (m.eraseKey k).lookup k' = if some k' = k then none else m.lookup k' := by
  cases k with
  | none => simp
  | some k => simp [lookup_erase_eq]

/-- Several insertions in a row. -/
def insertAll (m : Dict κ ν) (l : List (κ × ν)) : Dict κ ν :=
  l.foldl (fun m p => m.insert p.1 p.2) m

theorem lookup_insertAll (m : Dict κ ν) (l : List (κ × ν))
    (hl : ∀ p ∈ l, ∀ q ∈ l, p.1 = q.1 → p.2 = q.2) :
    ∀ p ∈ l, (m.insertAll l).lookup p.1 = some p.2 := by
  induction l using List.reverseRecOn with
  | nil => simp
  | append_singleton l a ih =>
    intro p hp
    rw [insertAll, List.foldl_append, List.foldl_cons, List.foldl_nil, lookup_insert_eq]
    split_ifs with hk
    · rw [hl p hp a (by simp) hk]
    · have hmem : p ∈ l := by
        rcases List.mem_append.mp hp with h | h
        · exact h
        · exact absurd (by rw [List.mem_singleton.mp h]) hk
      exact ih (fun p hp q hq => hl p (by simp [hp]) q (by simp [hq])) p hmem

theorem lookup_insertAll_of_ne (m : Dict κ ν) (l : List (κ × ν)) {k : κ} (h : ∀ p ∈ l, k ≠ p.1) :
    (m.insertAll l).lookup k = m.lookup k := by
  induction l generalizing m with
  | nil => rfl
  | cons p l ih =>
    rw [insertAll, List.foldl_cons]
    refine (ih (m.insert p.1 p.2) fun q hq => h q (by simp [hq])).trans ?_
    rw [lookup_insert_eq, if_neg (h p (by simp))]

/-- A key holds what was inserted for it or, if nothing was, what it held before. -/
theorem lookup_insertAll_eq_some (m : Dict κ ν) (l : List (κ × ν))
    (hl : ∀ p ∈ l, ∀ q ∈ l, p.1 = q.1 → p.2 = q.2) {k : κ} {v : ν} :
    (m.insertAll l).lookup k = some v ↔
      (k, v) ∈ l ∨ (∀ p ∈ l, k ≠ p.1) ∧ m.lookup k = some v := by
  by_cases h : ∀ p ∈ l, k ≠ p.1
  · rw [lookup_insertAll_of_ne m l h]
    refine ⟨fun hk => .inr ⟨h, hk⟩, ?_⟩
    rintro (hk | ⟨-, hk⟩)
    · exact absurd rfl (h _ hk)
    · exact hk
  · push Not at h
    obtain ⟨⟨k', w⟩, hp, rfl⟩ := h
    rw [lookup_insertAll m l hl _ hp]
    constructor
    · rintro ⟨⟩
      exact .inl hp
    · rintro (hk | ⟨hk, -⟩)
      · rw [hl _ hp _ hk rfl]
      · exact absurd rfl (hk _ hp)

/-- Consistent insertions change nothing exactly when all of them are there already. -/
theorem insertAll_eq_self_iff (m : Dict κ ν) (l : List (κ × ν))
    (hl : ∀ p ∈ l, ∀ q ∈ l, p.1 = q.1 → p.2 = q.2) :
    m.insertAll l = m ↔ ∀ p ∈ l, m.lookup p.1 = some p.2 := by
  constructor
  · intro h p hp
    have hlook := lookup_insertAll m l hl p hp
    rwa [h] at hlook
  · intro h
    induction l with
    | nil => rfl
    | cons a l ih =>
      rw [insertAll, List.foldl_cons, insert_of_lookup_some m a.1 a.2 (h a (by simp))]
      exact ih (fun p hp q hq => hl p (by simp [hp]) q (by simp [hq]))
        fun p hp => h p (by simp [hp])

/-- The values of a map, with repetition. -/
def values (m : Dict κ ν) : Multiset ν := m.entries.map Sigma.snd

theorem mem_values {m : Dict κ ν} {v : ν} : v ∈ m.values ↔ ∃ k, m.lookup k = some v := by
  rw [values, Multiset.mem_map]
  constructor
  · rintro ⟨⟨k, w⟩, hk, rfl⟩
    exact ⟨k, Finmap.lookup_eq_some_iff.mpr hk⟩
  · rintro ⟨k, hk⟩
    exact ⟨⟨k, v⟩, Finmap.lookup_eq_some_iff.mp hk, rfl⟩

end Dict

end ConferenceCall.Library

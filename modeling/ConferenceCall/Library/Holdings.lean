import Mathlib.Data.Multiset.AddSub

/-! What a program holds of the resources of others. A resource is taken, used while it is held and
given back; it may be held several times. Handlings that are proper for what is held stay proper
when more is held, so each piece of code has its account for itself. -/

namespace ConferenceCall.Library

/-- A merge of two lists that keeps the order of each. -/
inductive Merged {α : Type} : List α → List α → List α → Prop where
  | nil : Merged [] [] []
  | left {a : α} {l l' t : List α} : Merged l l' t → Merged (a :: l) l' (a :: t)
  | right {a : α} {l l' t : List α} : Merged l l' t → Merged l (a :: l') (a :: t)

namespace Merged

variable {α β : Type} {l l' t : List α}

theorem filterMap (h : Merged l l' t) (f : α → Option β) :
    Merged (l.filterMap f) (l'.filterMap f) (t.filterMap f) := by
  induction h with
  | nil => exact .nil
  | @left a l l' t _ ih =>
    cases ha : f a with
    | none => rwa [List.filterMap_cons_none ha, List.filterMap_cons_none ha]
    | some c =>
      rw [List.filterMap_cons_some ha, List.filterMap_cons_some ha]
      exact .left ih
  | @right a l l' t _ ih =>
    cases ha : f a with
    | none => rwa [List.filterMap_cons_none ha, List.filterMap_cons_none ha]
    | some c =>
      rw [List.filterMap_cons_some ha, List.filterMap_cons_some ha]
      exact .right ih

theorem nil_right (l : List α) : Merged l [] l := by
  induction l with
  | nil => exact .nil
  | cons a l ih => exact .left ih

theorem append (l l' : List α) : Merged l l' (l ++ l') := by
  induction l with
  | nil =>
    induction l' with
    | nil => exact .nil
    | cons a l' ih => exact .right ih
  | cons a l ih => exact .left ih

theorem coe (h : Merged l l' t) : (t : Multiset α) = l + l' := by
  induction h with
  | nil => rfl
  | left _ ih => rw [← Multiset.cons_coe, ← Multiset.cons_coe, ih, Multiset.cons_add]
  | right _ ih => rw [← Multiset.cons_coe, ← Multiset.cons_coe, ih, Multiset.add_cons]

end Merged

/-- What is done with a resource. -/
inductive Handling (ρ : Type) where
  | take (r : ρ)
  | use (r : ρ)
  | give (r : ρ)

namespace Handling

variable {ρ : Type} [DecidableEq ρ] {r : ρ} {l l' : List (Handling ρ)} {A B C D : Multiset ρ}

/-- What is held after a handling, if it was proper. -/
def apply : Handling ρ → Multiset ρ → Option (Multiset ρ)
  | take r, A => some (r ::ₘ A)
  | use r, A => if r ∈ A then some A else none
  | give r, A => if r ∈ A then some (A.erase r) else none

/-- What is held after proper handlings. -/
def settle : List (Handling ρ) → Multiset ρ → Option (Multiset ρ)
  | [], A => some A
  | h :: l, A => (h.apply A).bind (settle l)

/-- The handlings are proper for who holds `A`, who then holds `B`. -/
def Turns (l : List (Handling ρ)) (A B : Multiset ρ) : Prop := settle l A = some B

theorem turns_nil : Turns [] A A := rfl

theorem turns_take : Turns (take r :: l) A B ↔ Turns l (r ::ₘ A) B := Iff.rfl

theorem turns_use (h : r ∈ A) : Turns (use r :: l) A B ↔ Turns l A B := by
  rw [Turns, settle, apply, if_pos h]
  rfl

theorem turns_give (h : r ∈ A) : Turns (give r :: l) A B ↔ Turns l (A.erase r) B := by
  rw [Turns, settle, apply, if_pos h]
  rfl

theorem turns_give_cons : Turns (give r :: l) (r ::ₘ A) B ↔ Turns l A B := by
  rw [turns_give (Multiset.mem_cons_self r A), Multiset.erase_cons_head]

/-- What is held may be used. -/
theorem turns_of_uses (h : ∀ i ∈ l, ∃ r ∈ A, i = use r) : Turns l A A := by
  induction l with
  | nil => exact turns_nil
  | cons i l ih =>
    obtain ⟨r, hr, rfl⟩ := h i List.mem_cons_self
    exact (turns_use hr).mpr (ih fun j hj => h j (List.mem_cons_of_mem _ hj))

theorem Turns.append (h : Turns l A B) (h' : Turns l' B C) : Turns (l ++ l') A C := by
  induction l generalizing A with
  | nil =>
    cases h
    exact h'
  | cons i l ih =>
    obtain ⟨D, hi, hl⟩ := Option.bind_eq_some_iff.mp h
    exact Option.bind_eq_some_iff.mpr ⟨D, hi, ih hl⟩

/-- A proper handling is proper when more is held. -/
theorem apply_frame {h : Handling ρ} (hA : h.apply A = some B) : h.apply (A + C) = some (B + C) := by
  cases h with
  | take r =>
    cases hA
    exact congrArg some (Multiset.cons_add r A C).symm
  | use r =>
    simp only [apply, Option.ite_none_right_eq_some, Option.some.injEq] at hA
    obtain ⟨hr, rfl⟩ := hA
    exact if_pos (Multiset.mem_add.mpr (.inl hr))
  | give r =>
    simp only [apply, Option.ite_none_right_eq_some, Option.some.injEq] at hA
    obtain ⟨hr, rfl⟩ := hA
    rw [apply, if_pos (Multiset.mem_add.mpr (.inl hr)), Multiset.erase_add_left_pos C hr]

theorem Turns.frame (h : Turns l A B) (C : Multiset ρ) : Turns l (A + C) (B + C) := by
  induction l generalizing A with
  | nil =>
    cases h
    rfl
  | cons i l ih =>
    obtain ⟨D, hi, hl⟩ := Option.bind_eq_some_iff.mp h
    exact Option.bind_eq_some_iff.mpr ⟨D + C, apply_frame hi, ih hl⟩

/-- What was left behind before stays behind. -/
theorem Turns.continue (h : Turns l A (B + C)) (h' : Turns l' B D) : Turns (l ++ l') A (D + C) :=
  h.append (h'.frame C)

/-- What is used or given is held then. -/
theorem Turns.held {h : Handling ρ} (hl : Turns (l ++ h :: l') A B) (hh : h = use r ∨ h = give r) :
    ∃ C, Turns l A C ∧ r ∈ C := by
  induction l generalizing A with
  | nil =>
    obtain ⟨D, hi, -⟩ := Option.bind_eq_some_iff.mp hl
    refine ⟨A, turns_nil, ?_⟩
    rcases hh with rfl | rfl <;>
    · simp only [apply, Option.ite_none_right_eq_some] at hi
      exact hi.1
  | cons i l ih =>
    obtain ⟨D, hi, hl⟩ := Option.bind_eq_some_iff.mp hl
    obtain ⟨C, hC, hr⟩ := ih hl
    exact ⟨C, Option.bind_eq_some_iff.mpr ⟨D, hi, hC⟩, hr⟩

/-- Handlings that are proper for two holders are proper when they are mixed. -/
theorem Turns.merge {t : List (Handling ρ)} (h : Merged l l' t) (hl : Turns l A B)
    (hl' : Turns l' C D) : Turns t (A + C) (B + D) := by
  induction h generalizing A C with
  | nil =>
    cases hl
    cases hl'
    rfl
  | left _ ih =>
    obtain ⟨E, hi, hl⟩ := Option.bind_eq_some_iff.mp hl
    exact Option.bind_eq_some_iff.mpr ⟨E + C, apply_frame hi, ih hl hl'⟩
  | right _ ih =>
    obtain ⟨E, hi, hl'⟩ := Option.bind_eq_some_iff.mp hl'
    refine Option.bind_eq_some_iff.mpr ⟨A + E, ?_, ih hl hl'⟩
    rw [Multiset.add_comm A C, Multiset.add_comm A E]
    exact apply_frame hi

/-- Proper handlings lead to one holding. -/
theorem Turns.unique (h : Turns l A B) (h' : Turns l A C) : B = C :=
  Option.some.inj (h.symm.trans h')

end Handling

end ConferenceCall.Library

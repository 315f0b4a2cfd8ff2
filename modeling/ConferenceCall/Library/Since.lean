import Mathlib.Data.List.Induction
import ConferenceCall.Library.Machine

/-! The past of a run. A property of the state that some inputs set, that others keep and that the
rest clears says that such an input has come and that it was kept from then on. -/

namespace ConferenceCall.Library.Step

variable {ι σ ω : Type}

/-- An input that `sets` has come, and all inputs after it were such that `keeps`. -/
def Since (step : Step ι σ ω) (sets keeps : ι → σ → Prop) (l : List ι) (s : σ) : Prop :=
  ∃ l₁ i l₂, l = l₁ ++ i :: l₂ ∧ sets i (step.run l₁ s).1 ∧
    step.Along keeps l₂ (step.run (l₁ ++ [i]) s).1

variable {step : Step ι σ ω} {sets keeps : ι → σ → Prop} {i : ι} {l : List ι} {s : σ}

theorem not_since_nil : ¬ step.Since sets keeps [] s := by
  rintro ⟨l₁, i, l₂, hl, -⟩
  simp at hl

/-- The last input sets it, or it keeps what was the case before. -/
theorem since_concat : step.Since sets keeps (l ++ [i]) s ↔
    sets i (step.run l s).1 ∨ keeps i (step.run l s).1 ∧ step.Since sets keeps l s := by
  constructor
  · rintro ⟨l₁, j, l₂, hl, hset, hkeeps⟩
    rcases List.eq_nil_or_concat l₂ with rfl | ⟨l₃, k, rfl⟩
    · obtain ⟨rfl, hij⟩ := List.append_inj' hl rfl
      cases hij
      exact .inl hset
    · rw [List.concat_eq_append] at hl hkeeps
      rw [← List.cons_append, ← List.append_assoc] at hl
      obtain ⟨rfl, hik⟩ := List.append_inj' hl rfl
      cases hik
      obtain ⟨hbefore, hlast⟩ := along_append.mp hkeeps
      refine .inr ⟨?_, l₁, j, l₃, rfl, hset, hbefore⟩
      have hrun : (step.run (l₁ ++ j :: l₃) s).1 =
          (step.run l₃ (step.run (l₁ ++ [j]) s).1).1 := by
        rw [List.append_cons, run_append]
      rw [hrun]
      exact (along_cons.mp hlast).1
  · rintro (hset | ⟨hkeep, l₁, j, l₂, rfl, hset, hkeeps⟩)
    · exact ⟨l, i, [], rfl, hset, along_nil _ _⟩
    · refine ⟨l₁, j, l₂ ++ [i], by simp, hset, along_append.mpr ⟨hkeeps, along_cons.mpr ⟨?_, ?_⟩⟩⟩
      · rwa [List.append_cons, run_append] at hkeep
      · exact along_nil _ _

/-- By induction on the run from its end: what each step treats so is what has been since. -/
theorem run_since {I R : σ → Prop} (hI : ∀ i s, I s → I (step i s).1)
    (hstep : ∀ i s, I s → (R (step i s).1 ↔ sets i s ∨ keeps i s ∧ R s)) (hs : I s)
    (hR : ¬ R s) (l : List ι) : R (step.run l s).1 ↔ step.Since sets keeps l s := by
  induction l using List.reverseRecOn with
  | nil => exact iff_of_false hR not_since_nil
  | append_singleton l i ih =>
    have hrun : (step.run (l ++ [i]) s).1 = (step i (step.run l s).1).1 := by
      rw [run_append, run_cons, run_nil]
    rw [since_concat, ← ih, hrun]
    exact hstep i _ (run_invariant hI l s hs)

end ConferenceCall.Library.Step

import ConferenceCall.Library.Machine
import Mathlib.Data.ENat.Basic

/-! Runs with a rank. When every step is good or lowers the rank, a good step comes before the rank
is used up. -/

namespace ConferenceCall.Library.Step

variable {ι σ ω : Type} {step : Step ι σ ω} {I : σ → Prop} {ok good : ι → σ → Prop}

/-- What the steps of an invariant have holds all along a run. -/
theorem along_of_step (hstep : ∀ i s, I s → ok i s → I (step i s).1 ∧ good i s) (l : List ι) (s : σ)
    (hs : I s) (hok : step.Along ok l s) : step.Along good l s := by
  induction l generalizing s with
  | nil => exact along_nil good s
  | cons i l ih =>
    obtain ⟨hi, hl⟩ := along_cons.mp hok
    obtain ⟨hnext, hgood⟩ := hstep i s hs hi
    exact along_cons.mpr ⟨hgood, ih _ hnext hl⟩

/-- By induction over the run, the rank bounding what is left of it. -/
theorem exists_good_of_rank (rank : σ → ℕ∞) (hstep : ∀ i s, I s → ok i s →
      I (step i s).1 ∧ (good i s ∨ rank (step i s).1 + 1 ≤ rank s)) {l : List ι} {s : σ} {n : ℕ}
    (hs : I s) (hok : step.Along ok l s) (hrank : rank s ≤ n) (hl : n < l.length) :
    ∃ l₁ i l₂, l = l₁ ++ i :: l₂ ∧ l₁.length ≤ n ∧ good i (step.run l₁ s).1 := by
  induction l generalizing s n with
  | nil => exact absurd hl (Nat.not_lt_zero n)
  | cons i l ih =>
    obtain ⟨hi, hrest⟩ := along_cons.mp hok
    obtain ⟨hnext, hgood | hlower⟩ := hstep i s hs hi
    · exact ⟨[], i, l, rfl, Nat.zero_le n, hgood⟩
    cases n with
    | zero =>
      have hzero : rank (step i s).1 + 1 ≤ 0 := by simpa using hlower.trans hrank
      simp at hzero
    | succ n =>
      have hless : rank (step i s).1 ≤ n := by
        have hsucc : rank (step i s).1 + 1 ≤ (n : ℕ∞) + 1 := by simpa using hlower.trans hrank
        exact (ENat.add_le_add_iff_right (by simp)).mp hsucc
      obtain ⟨l₁, j, l₂, rfl, hlen, hgood⟩ :=
        ih hnext hrest hless (Nat.lt_of_succ_lt_succ (by simpa using hl))
      exact ⟨i :: l₁, j, l₂, rfl, Nat.succ_le_succ hlen, hgood⟩

end ConferenceCall.Library.Step

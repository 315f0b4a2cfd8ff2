import Mathlib.Data.Nat.Init
import Mathlib.Order.Monotone.Basic

/-! Runs without end. What a thread alone can finish is finished when the thread keeps getting
turns: a rank that no step raises and that each of its turns lowers runs out. -/

namespace ConferenceCall.Library

/-- It happens again and again. -/
def Recurs (turn : ℕ → Prop) : Prop := ∀ n, ∃ k, n ≤ k ∧ turn k

namespace Recurs

variable {turn : ℕ → Prop} {r : ℕ → ℕ} {n : ℕ}

/-- What one step keeps is kept. -/
theorem kept {P : ℕ → Prop} (hstep : ∀ k, n ≤ k → P k → P (k + 1)) (h : P n) {k : ℕ}
    (hk : n ≤ k) : P k := by
  induction k, hk using Nat.le_induction with
  | base => exact h
  | succ k hk ih => exact hstep k hk ih

theorem antitone (hle : ∀ k, n ≤ k → r (k + 1) ≤ r k) {k : ℕ} (hk : n ≤ k) : r k ≤ r n :=
  kept (P := fun k => r k ≤ r n) (fun k hk h => (hle k hk).trans h) (Nat.le_refl _) hk

/-- By induction on the rank: the next turn lowers it. -/
theorem exists_zero (h : Recurs turn) (hle : ∀ k, n ≤ k → r (k + 1) ≤ r k)
    (hturn : ∀ k, n ≤ k → turn k → 0 < r k → r (k + 1) < r k) : ∃ k, n ≤ k ∧ r k = 0 := by
  induction hr : r n using Nat.strongRecOn generalizing n with
  | ind v ih =>
    obtain ⟨k, hk, hturns⟩ := h n
    have hbound := antitone hle hk
    rcases Nat.eq_zero_or_pos (r k) with hzero | hpos
    · exact ⟨k, hk, hzero⟩
    · have hlower := hturn k hk hturns hpos
      obtain ⟨j, hj, hzero⟩ := ih (r (k + 1)) (by omega)
        (fun j hj => hle j (by omega)) (fun j hj => hturn j (by omega)) rfl
      exact ⟨j, by omega, hzero⟩

end Recurs

end ConferenceCall.Library

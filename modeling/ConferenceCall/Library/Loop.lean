import ConferenceCall.Library.Program

/-! A loop that goes on until its body has a result. Its runs are given up to a number of rounds;
the module gives the rules for a loop that ends and for one that never does. -/

namespace ConferenceCall.Library.Program

variable {κ : Type} {ρ : κ → Type} {χ σ α : Type}

/-- As many rounds as given, or fewer if one has a result. -/
def loop (body : Program κ ρ (Option α)) : ℕ → Program κ ρ (Option α)
  | 0 => pure none
  | n + 1 => body >>= fun
    | some a => pure (some a)
    | none => loop body n

/-- The choices that a part of a run has left. -/
def rest (o : Outcome σ (Event κ ρ σ) α) (x : ℕ → χ) : ℕ → χ := fun n => x (n + o.calls.length)

variable {sys : System κ ρ χ σ} {body : Program κ ρ (Option α)} {x : ℕ → χ} {s : σ} {a : α}

/-- After a round without one the loop goes on. -/
theorem loop_next (h : (body.exec sys x s).value = some none) (n : ℕ) :
    (loop body (n + 1)).exec sys x s =
      ((loop body n).exec sys (rest (body.exec sys x s) x) (body.exec sys x s).state).after
        (body.exec sys x s).calls := by
  rw [loop, exec_bind]
  unfold rest
  generalize body.exec sys x s = o at h
  obtain ⟨value, t, l⟩ := o
  cases h
  rfl

end ConferenceCall.Library.Program

import ConferenceCall.Library.Machine

/-! A part of a machine. It takes those inputs of the whole that concern it and accounts for the
outputs that are seen; the state of the whole has an image in it. A part that agrees with the whole
step by step agrees along every run, whatever happens to the other parts in between. -/

namespace ConferenceCall.Library.Step

variable {ι κ σ τ ω υ : Type}

/-- The outputs that are seen, judged in the state after the step. -/
def viewed (step : Step ι σ ω) (view : σ → ω → Option υ) : Step ι σ υ := fun i s =>
  ((step i s).1, (step i s).2.filterMap (view (step i s).1))

/-- Viewing the outputs changes no state. -/
theorem viewed_run_fst (step : Step ι σ ω) (view : σ → ω → Option υ) (l : List ι) (s : σ) :
    ((step.viewed view).run l s).1 = (step.run l s).1 := by
  induction l generalizing s with
  | nil => rfl
  | cons i l ih => exact ih (step i s).1

/-- The part does with what concerns it what the whole is seen to do; the rest is not seen. -/
structure Component (whole : Step ι σ υ) (part : Step κ τ υ) (image : σ → τ)
    (concerns : ι → Option κ) (I : σ → Prop) : Prop where
  keeps : ∀ i s, I s → I (whole i s).1
  acts : ∀ i s k, I s → concerns i = some k → part k (image s) = (image (whole i s).1, (whole i s).2)
  ignores : ∀ i s, I s → concerns i = none → image (whole i s).1 = image s ∧ (whole i s).2 = []

namespace Component

variable {whole : Step ι σ υ} {part : Step κ τ υ} {image : σ → τ} {concerns : ι → Option κ}
  {I : σ → Prop}

/-- The run of the part on what concerns it. -/
theorem run (h : Component whole part image concerns I) (l : List ι) {s : σ} (hs : I s) :
    part.run (l.filterMap concerns) (image s) = (image (whole.run l s).1, (whole.run l s).2) := by
  induction l generalizing s with
  | nil => rfl
  | cons i l ih =>
    have hrest := ih (h.keeps i s hs)
    cases hi : concerns i with
    | none =>
      obtain ⟨hsame, hquiet⟩ := h.ignores i s hs hi
      rw [List.filterMap_cons_none hi, run_cons, hquiet, List.nil_append, ← hrest, hsame]
    | some k =>
      rw [List.filterMap_cons_some hi, run_cons, run_cons, h.acts i s k hs hi, hrest]

end Component

end ConferenceCall.Library.Step

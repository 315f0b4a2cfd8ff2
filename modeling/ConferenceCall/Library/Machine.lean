import Mathlib.Data.List.Basic

/-! Runs of a deterministic machine that answers every input with a list of
outputs. A condition asked along a run meets every input and the state before it;
what one step keeps under the condition is kept by the run. Two machines whose
steps keep a relation keep it along runs, also when some inputs are left out of
one of them. -/

namespace ConferenceCall.Library

variable {ι σ τ ω : Type}

/-- One step: the next state and the outputs. -/
abbrev Step (ι σ ω : Type) := ι → σ → σ × List ω

namespace Step

/-- Feed a list of inputs; the outputs are concatenated. -/
def run (step : Step ι σ ω) : List ι → σ → σ × List ω
  | [], s => (s, [])
  | i :: l, s => ((run step l (step i s).1).1, (step i s).2 ++ (run step l (step i s).1).2)

variable (step : Step ι σ ω)

@[simp] theorem run_nil (s : σ) : step.run [] s = (s, []) := rfl

@[simp] theorem run_cons (i : ι) (l : List ι) (s : σ) :
    step.run (i :: l) s =
      ((step.run l (step i s).1).1, (step i s).2 ++ (step.run l (step i s).1).2) := rfl

theorem run_append (l₁ l₂ : List ι) (s : σ) :
    step.run (l₁ ++ l₂) s =
      ((step.run l₂ (step.run l₁ s).1).1,
        (step.run l₁ s).2 ++ (step.run l₂ (step.run l₁ s).1).2) := by
  induction l₁ generalizing s with
  | nil => simp
  | cons i l₁ ih => simp [ih]

variable {step}

/-- A condition on each input and the state it meets, all along a run. -/
def Along (step : Step ι σ ω) (ok : ι → σ → Prop) (l : List ι) (s : σ) : Prop :=
  ∀ l₁ i l₂, l = l₁ ++ i :: l₂ → ok i (step.run l₁ s).1

theorem along_nil (ok : ι → σ → Prop) (s : σ) : step.Along ok [] s := by
  intro l₁ i l₂ h
  simp at h

theorem along_cons {ok : ι → σ → Prop} {i : ι} {l : List ι} {s : σ} :
    step.Along ok (i :: l) s ↔ ok i s ∧ step.Along ok l (step i s).1 := by
  constructor
  · exact fun h => ⟨h [] i l rfl, fun l₁ j l₂ e => h (i :: l₁) j l₂ (by rw [e]; rfl)⟩
  · rintro ⟨hi, hl⟩ (_ | ⟨j, l₁⟩) k l₂ e
    · cases e
      exact hi
    · rw [List.cons_append, List.cons.injEq] at e
      obtain ⟨rfl, e⟩ := e
      exact hl l₁ k l₂ e

theorem along_append {ok : ι → σ → Prop} {l₁ l₂ : List ι} {s : σ} :
    step.Along ok (l₁ ++ l₂) s ↔ step.Along ok l₁ s ∧ step.Along ok l₂ (step.run l₁ s).1 := by
  induction l₁ generalizing s with
  | nil => simp [along_nil]
  | cons i l₁ ih => rw [List.cons_append, along_cons, along_cons, ih, run_cons, and_assoc]

/-- Conditions that agree where an invariant holds agree along runs, if the steps that meet them
keep the invariant. -/
theorem along_iff {I : σ → Prop} {ok ok' : ι → σ → Prop}
    (hstep : ∀ i s, I s → ok' i s → I (step i s).1) (h : ∀ i s, I s → (ok i s ↔ ok' i s))
    (l : List ι) (s : σ) (hs : I s) : step.Along ok l s ↔ step.Along ok' l s := by
  induction l generalizing s with
  | nil => exact iff_of_true (along_nil ok s) (along_nil ok' s)
  | cons i l ih =>
    rw [along_cons, along_cons, h i s hs]
    exact and_congr_right fun hi => ih _ (hstep i s hs hi)

theorem along_congr {I : σ → Prop} {ok ok' : ι → σ → Prop}
    (hstep : ∀ i s, I s → I (step i s).1) (h : ∀ i s, I s → (ok i s ↔ ok' i s)) (l : List ι)
    (s : σ) (hs : I s) : step.Along ok l s ↔ step.Along ok' l s :=
  along_iff (fun i s hs _ => hstep i s hs) h l s hs

/-- A property of the state kept by the steps that meet a condition is kept by the
runs that meet it. -/
theorem run_preserves {I : σ → Prop} {ok : ι → σ → Prop}
    (hstep : ∀ i s, I s → ok i s → I (step i s).1) (l : List ι) (s : σ) (h : I s)
    (hok : step.Along ok l s) : I (step.run l s).1 := by
  induction l generalizing s with
  | nil => exact h
  | cons i l ih =>
    obtain ⟨hi, hl⟩ := along_cons.mp hok
    exact ih _ (hstep i s h hi) hl

/-- The same for a property of the state and of all outputs so far. -/
theorem run_records {R : σ → List ω → Prop} {ok : ι → σ → Prop}
    (hstep : ∀ i s o, R s o → ok i s → R (step i s).1 (o ++ (step i s).2)) (l : List ι) (s : σ)
    (o : List ω) (h : R s o) (hok : step.Along ok l s) :
    R (step.run l s).1 (o ++ (step.run l s).2) := by
  induction l generalizing s o with
  | nil => simpa using h
  | cons i l ih =>
    obtain ⟨hi, hl⟩ := along_cons.mp hok
    simpa using ih _ _ (hstep i s o h hi) hl

/-- A property of the states after each step is one of all states reached. -/
theorem along_after_iff {P : σ → Prop} (l : List ι) (s : σ) (h : P s) :
    step.Along (fun i s => P (step i s).1) l s ↔ ∀ l₁, l₁ <+: l → P (step.run l₁ s).1 := by
  constructor
  · rintro hl l₁ ⟨l₂, rfl⟩
    refine run_preserves (fun i s _ hi => hi) l₁ s h ?_
    exact (along_append.mp hl).1
  · rintro hl l₁ i l₂ rfl
    have hi := hl (l₁ ++ [i]) ⟨l₂, by simp⟩
    rwa [run_append] at hi

theorem run_invariant {I : σ → Prop} (hstep : ∀ i s, I s → I (step i s).1) (l : List ι) (s : σ)
    (h : I s) : I (step.run l s).1 := by
  have hall : step.Along (fun _ _ => True) l s := fun _ _ _ _ => trivial
  exact run_preserves (fun i s hs _ => hstep i s hs) l s h hall

section TwoRuns
variable {υ : Type} {ghost : Step ι τ υ}

/-- A second machine that follows the first one step by step follows its runs. -/
theorem run_follows {R : σ → List ω → τ → Prop}
    (hstep : ∀ i s o t, R s o t → R (step i s).1 (o ++ (step i s).2) (ghost i t).1) (l : List ι)
    (s : σ) (o : List ω) (t : τ) (h : R s o t) :
    R (step.run l s).1 (o ++ (step.run l s).2) (ghost.run l t).1 := by
  induction l generalizing s o t with
  | nil => simpa using h
  | cons i l ih => simpa using ih _ _ _ (hstep i s o t h)

/-- A property of the outputs, decided step by step by a machine that follows, holds of
a run exactly when the following machine meets the condition all along. -/
theorem run_iff_along {R : σ → List ω → τ → Prop} {Q : List ω → Prop} {ok : ι → τ → Prop}
    (hQ : ∀ o p, Q (o ++ p) → Q o)
    (hstep : ∀ i s o t, R s o t → R (step i s).1 (o ++ (step i s).2) (ghost i t).1)
    (hok : ∀ i s o t, R s o t → Q o → (Q (o ++ (step i s).2) ↔ ok i t)) (l : List ι) (s : σ)
    (o : List ω) (t : τ) (h : R s o t) (hq : Q o) :
    Q (o ++ (step.run l s).2) ↔ ghost.Along ok l t := by
  induction l generalizing s o t with
  | nil => exact iff_of_true (by simpa using hq) (along_nil ok t)
  | cons i l ih =>
    rw [along_cons, ← hok i s o t h hq, run_cons, ← List.append_assoc]
    constructor
    · intro hrun
      have hi := hQ _ _ hrun
      exact ⟨hi, (ih _ _ _ (hstep i s o t h) hi).mp hrun⟩
    · rintro ⟨hi, hl⟩
      exact (ih _ _ _ (hstep i s o t h) hi).mpr hl

/-- Two runs, the right one without the inputs for which `keep` fails. The relation
is between the states and the outputs so far; the condition is on the left run. -/
theorem run_filter (step' : Step ι τ ω) {R : σ → List ω → τ → List ω → Prop} (keep : ι → Bool)
    {ok : ι → σ → Prop}
    (hkeep : ∀ i s o t p, R s o t p → ok i s → keep i = true →
      R (step i s).1 (o ++ (step i s).2) (step' i t).1 (p ++ (step' i t).2))
    (hskip : ∀ i s o t p, R s o t p → ok i s → keep i = false →
      R (step i s).1 (o ++ (step i s).2) t p)
    (l : List ι) (s : σ) (o : List ω) (t : τ) (p : List ω) (h : R s o t p)
    (hok : step.Along ok l s) :
    R (step.run l s).1 (o ++ (step.run l s).2) (step'.run (l.filter keep) t).1
      (p ++ (step'.run (l.filter keep) t).2) := by
  induction l generalizing s o t p with
  | nil => simpa using h
  | cons i l ih =>
    obtain ⟨hi, hl⟩ := along_cons.mp hok
    cases hk : keep i with
    | true =>
      have hs := ih _ _ _ _ (hkeep i s o t p h hi hk) hl
      simpa only [List.filter_cons, hk, if_true, run_cons, List.append_assoc] using hs
    | false =>
      have hs := ih _ _ _ _ (hskip i s o t p h hi hk) hl
      simpa only [List.filter_cons, hk, Bool.false_eq_true, if_false, run_cons,
        List.append_assoc] using hs

end TwoRuns

end Step

end ConferenceCall.Library

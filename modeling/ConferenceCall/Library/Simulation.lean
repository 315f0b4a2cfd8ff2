import ConferenceCall.Library.Action
import ConferenceCall.Library.Machine

/-! Two computations side by side. The left one runs where names are changed: it reads a renamed
environment, makes the renamed calls and returns the renamed value. What the parts of two
computations do, their compositions do, and so do the runs of two machines. -/

namespace ConferenceCall.Library

variable {ε ε' σ τ ω υ α α' β β' : Type}

/-- How the left side names what the right side has, and which states belong together. -/
structure Renaming (ε σ ω ε' τ υ : Type) where
  env : ε' → ε
  call : υ → ω
  related : σ → τ → Prop

namespace Act

/-- From related states the left computation does what the right one does, up to names; `v`
names the value. -/
def Simulates (r : Renaming ε σ ω ε' τ υ) (v : α' → α) (x : Act ε σ ω α) (y : Act ε' τ υ α') :
    Prop :=
  ∀ e s t, r.related s t →
    (x (r.env e) s).value = (y e t).value.map v ∧
    r.related (x (r.env e) s).state (y e t).state ∧
    (x (r.env e) s).calls = (y e t).calls.map r.call

namespace Simulates

variable {r : Renaming ε σ ω ε' τ υ}

theorem pure {v : α' → α} {a : α} {a' : α'} (h : a = v a') :
    Simulates r v (Pure.pure a) (Pure.pure a') :=
  fun _ _ _ hst => ⟨congrArg some h, hst, rfl⟩

theorem bind {v : α' → α} {w : β' → β} {x : Act ε σ ω α} {y : Act ε' τ υ α'}
    {f : α → Act ε σ ω β} {g : α' → Act ε' τ υ β'} (hx : Simulates r v x y)
    (hf : ∀ a, Simulates r w (f (v a)) (g a)) : Simulates r w (x >>= f) (y >>= g) := by
  intro e s t hst
  obtain ⟨hv, hs, hc⟩ := hx e s t hst
  rw [bind_apply, bind_apply]
  rcases hx' : x (r.env e) s with ⟨a, s', o⟩
  rcases hy' : y e t with ⟨a', t', o'⟩
  rw [hx', hy'] at hv hs hc
  subst hv hc
  cases a' with
  | none => exact ⟨rfl, hs, rfl⟩
  | some a' =>
    obtain ⟨hv, hs, hc⟩ := hf a' e s' t' hs
    refine ⟨hv, hs, ?_⟩
    simp only [Option.map_some, Outcome.andThen_some, Outcome.after_calls, List.map_append, hc]

theorem ask {v : α' → α} {f : ε → α} {g : ε' → α'} (h : ∀ e, f (r.env e) = v (g e)) :
    Simulates r v (Act.ask f) (Act.ask g) :=
  fun e _ _ hst => ⟨congrArg some (h e), hst, rfl⟩

theorem gets {v : α' → α} {f : σ → α} {g : τ → α'} (h : ∀ s t, r.related s t → f s = v (g t)) :
    Simulates r v (Act.gets f) (Act.gets g) :=
  fun _ s t hst => ⟨congrArg some (h s t hst), hst, rfl⟩

theorem modify {f : σ → σ} {g : τ → τ} (h : ∀ s t, r.related s t → r.related (f s) (g t)) :
    Simulates r id (Act.modify f) (Act.modify g) :=
  fun _ s t hst => ⟨rfl, h s t hst, rfl⟩

theorem record {c : ω} {d : υ} (h : c = r.call d) :
    Simulates r id (Act.record c) (Act.record d) :=
  fun _ _ _ hst => ⟨rfl, hst, by simp [Act.record, h]⟩

theorem ofOption {v : α' → α} {a : Option α} {a' : Option α'} (h : a = a'.map v) :
    Simulates r v (Act.ofOption a) (Act.ofOption a') :=
  fun _ _ _ hst => ⟨h, hst, rfl⟩

theorem attempt {x : Act ε σ ω Unit} {y : Act ε' τ υ Unit} (h : Simulates r id x y) :
    Simulates r id (Act.attempt x) (Act.attempt y) := by
  intro e s t hst
  obtain ⟨-, hs, hc⟩ := h e s t hst
  exact ⟨rfl, hs, hc⟩

theorem each {f : ℕ → α → Act ε σ ω Unit} {g : ℕ → α → Act ε' τ υ Unit}
    (h : ∀ i a, Simulates r id (f i a) (g i a)) (l : List α) (i : ℕ) :
    Simulates r id (Act.each f i l) (Act.each g i l) := by
  induction l generalizing i with
  | nil => exact .pure rfl
  | cons a l ih => exact .bind (h i a) fun _ => ih (i + 1)

theorem ite {p : Prop} [Decidable p] {v : α' → α} {x x' : Act ε σ ω α} {y y' : Act ε' τ υ α'}
    (hx : Simulates r v x y) (hx' : Simulates r v x' y') :
    Simulates r v (if p then x else x') (if p then y else y') := by
  split
  · exact hx
  · exact hx'

end Simulates

end Act

/-- The runs of two machines: the left one reads the renamed inputs. The condition is asked of
the inputs only. -/
theorem Step.run_simulates {ι κ : Type} {step : Step κ σ ω} {step' : Step ι τ υ}
    {R : σ → τ → Prop} {f : ι → κ} {g : υ → ω}
    (hstep : ∀ i s t, R s t →
      R (step (f i) s).1 (step' i t).1 ∧ (step (f i) s).2 = (step' i t).2.map g)
    (l : List ι) (s : σ) (t : τ) (h : R s t) :
    R (step.run (l.map f) s).1 (step'.run l t).1 ∧
      (step.run (l.map f) s).2 = (step'.run l t).2.map g := by
  induction l generalizing s t with
  | nil => exact ⟨h, rfl⟩
  | cons i l ih =>
    obtain ⟨hs, hc⟩ := hstep i s t h
    obtain ⟨hs, hd⟩ := ih _ _ hs
    exact ⟨hs, by simp only [List.map_cons, run_cons, List.map_append, hc, hd]⟩

end ConferenceCall.Library

import Mathlib.Data.List.Basic
import Mathlib.Logic.Basic

/-! Imperative computations with an environment, a mutable state, a log of the
calls they make and exceptions. An exception keeps every change made before it,
as in a language where assignments are not undone. The module gives the monad,
its evaluation rules, and two kinds of contract: a bound on the change of the
state and on the calls (`Within`), and indifference to a change of the state made
beforehand (`Commutes`). -/

namespace ConferenceCall.Library

variable {ε σ ω α β : Type}

/-- What a computation leaves behind. The value is absent when the computation
stopped by an exception. -/
structure Outcome (σ ω α : Type) where
  value : Option α
  state : σ
  calls : List ω

/-- Prepend earlier calls to an outcome. -/
def Outcome.after (o : List ω) (r : Outcome σ ω α) : Outcome σ ω α :=
  ⟨r.value, r.state, o ++ r.calls⟩

/-- Continue with `f` unless an exception stopped the computation. -/
def Outcome.andThen (r : Outcome σ ω α) (f : α → σ → Outcome σ ω β) : Outcome σ ω β :=
  match r.value with
  | none => ⟨none, r.state, r.calls⟩
  | some a => (f a r.state).after r.calls

@[simp] theorem Outcome.after_value (o : List ω) (r : Outcome σ ω α) :
    (r.after o).value = r.value := rfl

@[simp] theorem Outcome.after_state (o : List ω) (r : Outcome σ ω α) :
    (r.after o).state = r.state := rfl

@[simp] theorem Outcome.after_calls (o : List ω) (r : Outcome σ ω α) :
    (r.after o).calls = o ++ r.calls := rfl

@[simp] theorem Outcome.after_nil (r : Outcome σ ω α) : r.after [] = r := rfl

@[simp] theorem Outcome.andThen_none (s : σ) (o : List ω) (f : α → σ → Outcome σ ω β) :
    Outcome.andThen ⟨none, s, o⟩ f = ⟨none, s, o⟩ := rfl

@[simp] theorem Outcome.andThen_some (a : α) (s : σ) (o : List ω) (f : α → σ → Outcome σ ω β) :
    Outcome.andThen ⟨some a, s, o⟩ f = (f a s).after o := rfl

/-- A computation reading `ε`, changing `σ`, calling `ω` and returning `α`. -/
def Act (ε σ ω α : Type) := ε → σ → Outcome σ ω α

namespace Act

instance : Monad (Act ε σ ω) where
  pure a := fun _ s => ⟨some a, s, []⟩
  bind x f := fun e s => (x e s).andThen fun a t => f a e t

@[simp] theorem pure_apply (a : α) (e : ε) (s : σ) :
    (pure a : Act ε σ ω α) e s = ⟨some a, s, []⟩ := rfl

@[simp] theorem bind_apply (x : Act ε σ ω α) (f : α → Act ε σ ω β) (e : ε) (s : σ) :
    (x >>= f) e s = (x e s).andThen fun a t => f a e t := rfl

/-- A sequence stops in its first part or goes on with its second. -/
theorem bind_cases (x : Act ε σ ω α) (f : α → Act ε σ ω β) (e : ε) (s : σ) :
    ((x e s).value = none ∧ (x >>= f) e s = ⟨none, (x e s).state, (x e s).calls⟩) ∨
      ∃ a, (x e s).value = some a ∧
        (x >>= f) e s = (f a e (x e s).state).after (x e s).calls := by
  rw [bind_apply]
  rcases x e s with ⟨_ | a, t, o⟩
  · exact .inl ⟨rfl, rfl⟩
  · exact .inr ⟨a, rfl, rfl⟩

/-- Read the environment. -/
def ask (f : ε → α) : Act ε σ ω α := fun e s => ⟨some (f e), s, []⟩

/-- Read the state. -/
def gets (f : σ → α) : Act ε σ ω α := fun _ s => ⟨some (f s), s, []⟩

/-- Change the state. -/
def modify (f : σ → σ) : Act ε σ ω Unit := fun _ s => ⟨some (), f s, []⟩

/-- Log a call. -/
def record (c : ω) : Act ε σ ω Unit := fun _ s => ⟨some (), s, [c]⟩

/-- The result of a partial function; its undefinedness is an exception. -/
def ofOption (a : Option α) : Act ε σ ω α := fun _ s => ⟨a, s, []⟩

/-- Run a computation and swallow its exception. -/
def attempt (x : Act ε σ ω Unit) : Act ε σ ω Unit :=
  fun e s => ⟨some (), (x e s).state, (x e s).calls⟩

/-- A loop over a list with the position of the current item. -/
def each (f : ℕ → α → Act ε σ ω Unit) : ℕ → List α → Act ε σ ω Unit
  | _, [] => pure ()
  | i, a :: l => do f i a; each f (i + 1) l

/-- Every item passes a test that may depend on its position. -/
def allFrom (p : ℕ → α → Bool) : ℕ → List α → Bool
  | _, [] => true
  | i, a :: l => p i a && allFrom p (i + 1) l

theorem allFrom_of {p : ℕ → α → Bool} (h : ∀ i a, p i a = true) (i : ℕ) (l : List α) :
    allFrom p i l = true := by
  induction l generalizing i with
  | nil => rfl
  | cons a l ih => rw [allFrom, h, ih, Bool.and_self]

@[simp] theorem ask_apply (f : ε → α) (e : ε) (s : σ) :
    (ask f : Act ε σ ω α) e s = ⟨some (f e), s, []⟩ := rfl

@[simp] theorem gets_apply (f : σ → α) (e : ε) (s : σ) :
    (gets f : Act ε σ ω α) e s = ⟨some (f s), s, []⟩ := rfl

/-- Reading the state first passes it on. -/
theorem gets_bind (f : σ → α) (k : α → Act ε σ ω β) (e : ε) (s : σ) :
    (gets f >>= k) e s = k (f s) e s := rfl

@[simp] theorem modify_apply (f : σ → σ) (e : ε) (s : σ) :
    (modify f : Act ε σ ω Unit) e s = ⟨some (), f s, []⟩ := rfl

@[simp] theorem ofOption_apply (a : Option α) (e : ε) (s : σ) :
    (ofOption a : Act ε σ ω α) e s = ⟨a, s, []⟩ := rfl

@[simp] theorem attempt_apply (x : Act ε σ ω Unit) (e : ε) (s : σ) :
    attempt x e s = ⟨some (), (x e s).state, (x e s).calls⟩ := rfl

@[simp] theorem each_nil (f : ℕ → α → Act ε σ ω Unit) (i : ℕ) : each f i [] = pure () := rfl

@[simp] theorem each_cons (f : ℕ → α → Act ε σ ω Unit) (i : ℕ) (a : α) (l : List α) :
    each f i (a :: l) = (do f i a; each f (i + 1) l) := rfl

/-- A loop gets through when every round does. -/
theorem each_value {f : ℕ → α → Act ε σ ω Unit} {e : ε} (p : ℕ → α → Bool)
    (hf : ∀ i a s, (f i a e s).value = if p i a then some () else none) (l : List α) (i : ℕ)
    (s : σ) : (each f i l e s).value = if allFrom p i l then some () else none := by
  induction l generalizing i s with
  | nil => rfl
  | cons a l ih =>
    have hv := hf i a s
    rw [each_cons, allFrom]
    rcases bind_cases (f i a) (fun _ => each f (i + 1) l) e s with ⟨hn, hb⟩ | ⟨_, hs, hb⟩ <;>
      rw [hb] <;> cases hp : p i a <;> simp_all

@[simp] theorem ite_apply (p : Prop) [Decidable p] (x y : Act ε σ ω α) (e : ε) (s : σ) :
    (if p then x else y) e s = if p then x e s else y e s := by split <;> rfl

/-! ### Effect bounds -/

/-- Every run changes the state along `R` and makes only calls in `P`. -/
def Within (R : σ → σ → Prop) (P : ω → Prop) (x : Act ε σ ω α) : Prop :=
  ∀ e s, R s (x e s).state ∧ ∀ c ∈ (x e s).calls, P c

section Within
variable {R : σ → σ → Prop} {P : ω → Prop}

theorem Within.pure (hR : ∀ s, R s s) (a : α) : Within R P (Pure.pure a : Act ε σ ω α) :=
  fun _ s => ⟨hR s, by simp⟩

theorem Within.bind (hT : ∀ s t u, R s t → R t u → R s u) {x : Act ε σ ω α}
    {f : α → Act ε σ ω β} (hx : Within R P x) (hf : ∀ a, Within R P (f a)) :
    Within R P (x >>= f) := by
  intro e s
  obtain ⟨hs, hc⟩ := hx e s
  rw [bind_apply]
  rcases h : x e s with ⟨_ | a, t, o⟩
  · rw [h] at hs hc
    exact ⟨hs, hc⟩
  · rw [h] at hs hc
    obtain ⟨ht, hd⟩ := hf a e t
    refine ⟨hT _ _ _ hs ht, fun c hm => ?_⟩
    simp only [Outcome.andThen_some, Outcome.after_calls, List.mem_append] at hm
    exact hm.elim (hc c) (hd c)

theorem Within.ask (hR : ∀ s, R s s) (f : ε → α) : Within R P (Act.ask f : Act ε σ ω α) :=
  fun _ s => ⟨hR s, by simp⟩

theorem Within.gets (hR : ∀ s, R s s) (f : σ → α) : Within R P (Act.gets f : Act ε σ ω α) :=
  fun _ s => ⟨hR s, by simp⟩

theorem Within.modify {f : σ → σ} (hf : ∀ s, R s (f s)) :
    Within R P (Act.modify f : Act ε σ ω Unit) :=
  fun _ s => ⟨hf s, by simp⟩

theorem Within.each (hR : ∀ s, R s s) (hT : ∀ s t u, R s t → R t u → R s u)
    {f : ℕ → α → Act ε σ ω Unit} (l : List α) (hf : ∀ i, ∀ a ∈ l, Within R P (f i a)) (i : ℕ) :
    Within R P (Act.each f i l) := by
  induction l generalizing i with
  | nil => exact Within.pure hR ()
  | cons a l ih =>
    exact Within.bind hT (hf i a (by simp))
      fun _ => ih (fun j b hb => hf j b (by simp [hb])) (i + 1)

end Within

/-! ### Commuting with a change of the state -/

/-- Changing the state by `g` before or after the computation makes no difference to
its value, its calls or the state it leaves. -/
def Commutes (g : σ → σ) (x : Act ε σ ω α) : Prop :=
  ∀ e s, x e (g s) = ⟨(x e s).value, g (x e s).state, (x e s).calls⟩

section Commutes
variable {g : σ → σ}

theorem Commutes.pure (a : α) : Commutes g (Pure.pure a : Act ε σ ω α) := fun _ _ => rfl

theorem Commutes.bind {x : Act ε σ ω α} {f : α → Act ε σ ω β} (hx : Commutes g x)
    (hf : ∀ a, Commutes g (f a)) : Commutes g (x >>= f) := by
  intro e s
  have hs := hx e s
  simp only [bind_apply]
  rcases h : x e s with ⟨_ | a, t, o⟩ <;> rw [h] at hs <;> rw [hs]
  · rfl
  · simp only [Outcome.andThen_some, hf a e t]
    rfl

theorem Commutes.ask (f : ε → α) : Commutes g (Act.ask f : Act ε σ ω α) := fun _ _ => rfl

theorem Commutes.gets {f : σ → α} (hf : ∀ s, f (g s) = f s) :
    Commutes g (Act.gets f : Act ε σ ω α) :=
  fun _ s => by rw [gets_apply, gets_apply, hf s]

theorem Commutes.modify {f : σ → σ} (hf : ∀ s, f (g s) = g (f s)) :
    Commutes g (Act.modify f : Act ε σ ω Unit) :=
  fun _ s => by rw [modify_apply, modify_apply, hf s]

theorem Commutes.ofOption (a : Option α) : Commutes g (Act.ofOption a : Act ε σ ω α) :=
  fun _ _ => rfl

theorem Commutes.each {f : ℕ → α → Act ε σ ω Unit} (hf : ∀ i a, Commutes g (f i a)) (l : List α)
    (i : ℕ) : Commutes g (Act.each f i l) := by
  induction l generalizing i with
  | nil => exact Commutes.pure ()
  | cons a l ih => exact Commutes.bind (hf i a) fun _ => ih (i + 1)

theorem Commutes.ite {p : Prop} [Decidable p] {x y : Act ε σ ω α} (hx : Commutes g x)
    (hy : Commutes g y) : Commutes g (if p then x else y) := by
  split
  · exact hx
  · exact hy

end Commutes

end Act

end ConferenceCall.Library

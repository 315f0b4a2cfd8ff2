import Mathlib.Logic.Relation
import Mathlib.Order.Basic

/-! Threads that take recursive mutexes by scoped guards. Each thread has a list of
instructions left; an action changes the memory and may put further instructions in
front. A thread waits for another when its next mutex is held by that one. A deadlock
is a cycle of such waits; it is excluded by a rank that grows along them. -/

namespace ConferenceCall.Library

variable {θ μ κ σ : Type}

/-- One instruction of a thread. -/
inductive Instr (μ κ : Type) where
  | lock (a : μ)
  | unlock (a : μ)
  | act (k : κ)

/-- What a thread has left to do, and the mutexes it holds with the latest first. -/
structure Thread (μ κ : Type) where
  code : List (Instr μ κ)
  held : List μ

namespace Thread

/-- The mutex the next instruction takes. -/
def wants (x : Thread μ κ) : Option μ :=
  match x.code with
  | .lock a :: _ => some a
  | _ => none

theorem lock_mem_of_wants {x : Thread μ κ} {a : μ} (h : x.wants = some a) :
    .lock a ∈ x.code := by
  rcases x with ⟨_ | ⟨_ | _ | _, code⟩, held⟩ <;> simp_all [wants]

/-- The effect of an action: from a memory to a memory and to further instructions. -/
abbrev Effect (μ κ σ : Type) := κ → σ → σ → List (Instr μ κ) → Prop

/-- A thread runs its next instruction. -/
def Advance (effect : Effect μ κ σ) (free : μ → Prop) (x : Thread μ κ) (m : σ)
    (x' : Thread μ κ) (m' : σ) : Prop :=
  match x.code with
  | [] => False
  | .lock a :: code => free a ∧ x' = ⟨code, a :: x.held⟩ ∧ m' = m
  | .unlock a :: code => ∃ held, x.held = a :: held ∧ x' = ⟨code, held⟩ ∧ m' = m
  | .act k :: code => ∃ new, effect k m m' new ∧ x' = ⟨new ++ code, x.held⟩

end Thread

/-- Threads with a common memory. -/
structure Threads (θ μ κ σ : Type) where
  thread : θ → Thread μ κ
  memory : σ

namespace Threads

variable {effect : Thread.Effect μ κ σ}

/-- No other thread holds the mutex. -/
def free (c : Threads θ μ κ σ) (t : θ) (a : μ) : Prop := ∀ t', t' ≠ t → a ∉ (c.thread t').held

/-- One thread runs one instruction. -/
def Step (effect : Thread.Effect μ κ σ) (c : Threads θ μ κ σ) (t : θ)
    (c' : Threads θ μ κ σ) : Prop :=
  (c.thread t).Advance effect (c.free t) c.memory (c'.thread t) c'.memory ∧
    ∀ t', t' ≠ t → c'.thread t' = c.thread t'

/-- The states reached by steps that all meet a condition. -/
inductive Run (effect : Thread.Effect μ κ σ) (ok : Threads θ μ κ σ → θ → Prop)
    (c : Threads θ μ κ σ) : Threads θ μ κ σ → Prop where
  | start : Run effect ok c c
  | step {c₁ c₂ : Threads θ μ κ σ} {t : θ} (h : Run effect ok c c₁) (hok : ok c₁ t)
    (hs : Step effect c₁ t c₂) : Run effect ok c c₂

/-- What the steps keep under the condition holds of every state reached. -/
theorem Run.invariant {ok : Threads θ μ κ σ → θ → Prop} {I : Threads θ μ κ σ → Prop}
    (hstep : ∀ c t c', I c → ok c t → Step effect c t c' → I c') {c c' : Threads θ μ κ σ}
    (h : Run effect ok c c') (hc : I c) : I c' := by
  induction h with
  | start => exact hc
  | step _ hok hs ih => exact hstep _ _ _ ih hok hs

/-- The next mutex of `t` is held by `t'`. -/
def WaitsFor (c : Threads θ μ κ σ) (t t' : θ) : Prop :=
  t' ≠ t ∧ ∃ a, (c.thread t).wants = some a ∧ a ∈ (c.thread t').held

/-- Some thread waits, through others, for itself. -/
def Deadlock (c : Threads θ μ κ σ) : Prop := ∃ t, Relation.TransGen c.WaitsFor t t

/-- A rank that grows along the waits excludes cycles. -/
theorem not_deadlock_of_rank {ρ : Type} [Preorder ρ] {c : Threads θ μ κ σ} (rank : θ → ρ)
    (h : ∀ t t', c.WaitsFor t t' → rank t < rank t') : ¬c.Deadlock := by
  rintro ⟨t, ht⟩
  have hlt (t' : θ) (h' : Relation.TransGen c.WaitsFor t t') : rank t < rank t' := by
    induction h' with
    | single hw => exact h _ _ hw
    | tail _ hw ih => exact ih.trans (h _ _ hw)
  exact lt_irrefl _ (hlt t ht)

end Threads

end ConferenceCall.Library

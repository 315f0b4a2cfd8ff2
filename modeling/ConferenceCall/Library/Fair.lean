import ConferenceCall.Library.Program

/-! Programs that rely on their environment: its choices are good ones, and the events of the run
are fair ones, each with the states around it. What such a run guarantees holds of its end and of
each of its events. -/

namespace ConferenceCall.Library.Program

variable {κ : Type} {ρ : κ → Type} {χ σ α β : Type}

/-- Every run with good choices and fair events comes to its end, with a result, a state and events
in `Q`, and its events are sound. -/
def Assures (sys : System κ ρ χ σ) (ok : χ → Prop) (fair sound : Event κ ρ σ → Prop)
    (p : Program κ ρ α) (Q : α → σ → List (Event κ ρ σ) → Prop) (s : σ) : Prop :=
  ∀ x : ℕ → χ, (∀ n, ok (x n)) → (∀ e ∈ (p.exec sys x s).calls, fair e) →
    (∃ a, (p.exec sys x s).value = some a ∧
      Q a (p.exec sys x s).state (p.exec sys x s).calls) ∧
    ∀ e ∈ (p.exec sys x s).calls, sound e

variable {sys : System κ ρ χ σ} {ok : χ → Prop} {fair sound : Event κ ρ σ → Prop} {s : σ}

theorem Assures.mono {p : Program κ ρ α} {Q R : α → σ → List (Event κ ρ σ) → Prop}
    (h : Assures sys ok fair sound p Q s) (hQ : ∀ a t l, Q a t l → R a t l) :
    Assures sys ok fair sound p R s := by
  intro x hx hfair
  obtain ⟨⟨a, ha, hq⟩, hsound⟩ := h x hx hfair
  exact ⟨⟨a, ha, hQ _ _ _ hq⟩, hsound⟩

theorem assures_pure {Q : α → σ → List (Event κ ρ σ) → Prop} {a : α} (h : Q a s []) :
    Assures sys ok fair sound (pure a) Q s :=
  fun _ _ _ => ⟨⟨a, rfl, h⟩, fun _ he => absurd he List.not_mem_nil⟩

/-- A sequence: what the first part assures is what the second part starts from. -/
theorem assures_bind {p : Program κ ρ β} {f : β → Program κ ρ α}
    {Q : α → σ → List (Event κ ρ σ) → Prop}
    (h : Assures sys ok fair sound p
      (fun b t l => Assures sys ok fair sound (f b) (fun a u l' => Q a u (l ++ l')) t) s) :
    Assures sys ok fair sound (p >>= f) Q s := by
  intro x hx hfair
  rw [exec_bind] at hfair ⊢
  have hfirst : ∀ e ∈ (p.exec sys x s).calls, fair e := by
    intro e he
    refine hfair e ?_
    unfold Outcome.andThen
    split
    · exact he
    · exact List.mem_append_left _ he
  obtain ⟨⟨b, hb, hrest⟩, hsound⟩ := h x hx hfirst
  generalize p.exec sys x s = o at hb hrest hsound hfair
  obtain ⟨value, t, l⟩ := o
  cases hb
  rw [Outcome.andThen_some] at hfair ⊢
  obtain ⟨hQ, hsound'⟩ :=
    hrest _ (fun n => hx _) fun e he => hfair e (List.mem_append_right _ he)
  refine ⟨hQ, fun e he => ?_⟩
  rcases List.mem_append.mp he with he | he
  · exact hsound e he
  · exact hsound' e he

/-- A loop over a list keeps what its body keeps. -/
theorem assures_each {I : σ → Prop} {f : β → Program κ ρ Unit} (hf : ∀ b s, I s →
      Assures sys ok fair sound (f b) (fun _ t _ => I t) s) (l : List β) (hs : I s) :
    Assures sys ok fair sound (each f l) (fun _ t _ => I t) s := by
  induction l generalizing s with
  | nil => exact assures_pure hs
  | cons b l ih => exact assures_bind ((hf b s hs).mono fun _ t _ ht => ih ht)

/-- A loop whose rounds compute a function and leave the state as it is. -/
theorem assures_fold {γ : Type} {f : α → γ → Program κ ρ α} {g : α → γ → α}
    (hf : ∀ a c, Assures sys ok fair sound (f a c) (fun a' t _ => a' = g a c ∧ t = s) s)
    (l : List γ) (a : α) :
    Assures sys ok fair sound (fold f l a) (fun a' t _ => a' = l.foldl g a ∧ t = s) s := by
  induction l generalizing a with
  | nil => exact assures_pure ⟨rfl, rfl⟩
  | cons c l ih =>
    refine assures_bind ((hf a c).mono ?_)
    rintro a' t _ ⟨rfl, rfl⟩
    exact ih (g a c)

/-- A loop whose rounds keep an invariant of what they compute. -/
theorem assures_fold_keeps {γ : Type} {I : α → σ → Prop} {f : α → γ → Program κ ρ α}
    (hf : ∀ a c s, I a s → Assures sys ok fair sound (f a c) (fun a' t _ => I a' t) s)
    (l : List γ) {a : α} (hs : I a s) :
    Assures sys ok fair sound (fold f l a) (fun a' t _ => I a' t) s := by
  induction l generalizing a s with
  | nil => exact assures_pure hs
  | cons c l ih => exact assures_bind ((hf a c s hs).mono fun _ _ _ ht => ih ht)

section Total

variable (htotal : ∀ c x s, ok x → sys c x s ≠ none)
include htotal

theorem assures_call {c : κ} {next : ρ c → Program κ ρ α}
    {Q : α → σ → List (Event κ ρ σ) → Prop}
    (h : ∀ x r t, ok x → sys c x s = some (r, t) → fair ⟨c, r, s, t⟩ → sound ⟨c, r, s, t⟩ ∧
      Assures sys ok fair sound (next r) (fun a u l => Q a u (⟨c, r, s, t⟩ :: l)) t) :
    Assures sys ok fair sound (.call c next) Q s := by
  intro x hx hfair
  rw [exec] at hfair ⊢
  cases hc : sys c (x 0) s with
  | none => exact absurd hc (htotal c (x 0) s (hx 0))
  | some rt =>
    simp only [hc] at hfair ⊢
    obtain ⟨hsound, hnext⟩ := h (x 0) rt.1 rt.2 (hx 0) hc (hfair _ List.mem_cons_self)
    obtain ⟨hQ, hsound'⟩ :=
      hnext _ (fun n => hx (n + 1)) fun e he => hfair e (List.mem_cons_of_mem _ he)
    refine ⟨hQ, fun e he => ?_⟩
    rcases List.mem_cons.mp he with rfl | he
    · exact hsound
    · exact hsound' e he

/-- What every fair call in `P` keeps is kept by a program that makes no others. -/
theorem assures_makes_fair {P : κ → Prop} {I : σ → Prop} {p : Program κ ρ α} (hp : p.Makes P)
    (hI : ∀ c x s r t, P c → ok x → fair ⟨c, r, s, t⟩ → I s → sys c x s = some (r, t) →
      sound ⟨c, r, s, t⟩ ∧ I t)
    (hs : I s) : Assures sys ok fair sound p (fun _ t _ => I t) s := by
  induction p generalizing s with
  | done a => exact assures_pure hs
  | call c next ih =>
    refine assures_call htotal fun x r t hx hc hfair => ?_
    obtain ⟨hsound, ht⟩ := hI c x s r t hp.1 hx hfair hs hc
    exact ⟨hsound, ih r (hp.2 r) ht⟩

theorem assures_makes {P : κ → Prop} {I : σ → Prop} {p : Program κ ρ α} (hp : p.Makes P)
    (hI : ∀ c x s r t, P c → ok x → I s → sys c x s = some (r, t) → sound ⟨c, r, s, t⟩ ∧ I t)
    (hs : I s) : Assures sys ok fair sound p (fun _ t _ => I t) s :=
  assures_makes_fair htotal hp (fun c x s r t hc hx _ hs hcall => hI c x s r t hc hx hs hcall) hs

end Total

end ConferenceCall.Library.Program

import ConferenceCall.Library.Program

/-! What precedes a call. A condition on an event and the events before it holds all along the
runs of a program if it holds call by call, where what was called before counts for the rest. -/

namespace ConferenceCall.Library

/-- Each event is accounted for by the events before it. -/
def Accounted {ε : Type} (J : List ε → ε → Prop) (l : List ε) : Prop :=
  ∀ l₁ e l₂, l = l₁ ++ e :: l₂ → J l₁ e

section Accounted

variable {ε : Type} {J : List ε → ε → Prop} {l l' : List ε} {e : ε}

theorem accounted_nil : Accounted J [] := by
  intro l₁ e l₂ h
  simp at h

theorem accounted_cons : Accounted J (e :: l) ↔ J [] e ∧ Accounted (fun h => J (e :: h)) l := by
  constructor
  · intro h
    exact ⟨h [] e l rfl, fun l₁ e' l₂ hl => h (e :: l₁) e' l₂ (by rw [hl]; rfl)⟩
  · rintro ⟨he, hl⟩ (_ | ⟨e', l₁⟩) e'' l₂ hsplit
    · cases hsplit
      exact he
    · rw [List.cons_append, List.cons.injEq] at hsplit
      obtain ⟨rfl, hsplit⟩ := hsplit
      exact hl l₁ e'' l₂ hsplit

theorem accounted_append :
    Accounted J (l ++ l') ↔ Accounted J l ∧ Accounted (fun h => J (l ++ h)) l' := by
  induction l generalizing J with
  | nil => simp [accounted_nil]
  | cons e l ih => rw [List.cons_append, accounted_cons, accounted_cons, ih, and_assoc]; rfl

theorem not_accounted {k : ℕ} (h : l[k]? = some e) (hJ : ¬J (l.take k) e) : ¬Accounted J l := by
  intro hl
  obtain ⟨hk, rfl⟩ := List.getElem?_eq_some_iff.mp h
  refine hJ (hl (l.take k) _ (l.drop (k + 1)) ?_)
  rw [← List.drop_eq_getElem_cons, List.take_append_drop]

end Accounted

namespace Program

variable {κ : Type} {ρ : κ → Type} {χ σ α β : Type} (sys : System κ ρ χ σ)

/-- Every call of every run is accounted for by the calls before it. -/
def Accounts (J : List (Event κ ρ σ) → Event κ ρ σ → Prop) (p : Program κ ρ α) : Prop :=
  ∀ x s, Accounted J (p.exec sys x s).calls

variable {sys} {J : List (Event κ ρ σ) → Event κ ρ σ → Prop}

theorem accounts_done (a : α) : Accounts sys J (.done a) := fun _ _ => accounted_nil

theorem accounts_call {c : κ} {next : ρ c → Program κ ρ α}
    (h : ∀ x s r t, sys c x s = some (r, t) → J [] ⟨c, r, s, t⟩ ∧
      Accounts sys (fun l => J (⟨c, r, s, t⟩ :: l)) (next r)) : Accounts sys J (.call c next) := by
  intro x s
  rw [exec]
  cases hc : sys c (x 0) s with
  | none => exact accounted_nil
  | some rt =>
    obtain ⟨hfirst, hrest⟩ := h _ _ _ _ hc
    exact accounted_cons.mpr ⟨hfirst, hrest _ _⟩

theorem accounts_bind {p : Program κ ρ β} {f : β → Program κ ρ α} (hp : Accounts sys J p)
    (hf : ∀ b x s, (p.exec sys x s).value = some b →
      Accounts sys (fun l => J ((p.exec sys x s).calls ++ l)) (f b)) :
    Accounts sys J (p >>= f) := by
  intro x s
  have hfirst := hp x s
  have hrest (b : β) := hf b x s
  rw [exec_bind]
  generalize p.exec sys x s = o at hfirst hrest ⊢
  rcases o with ⟨_ | b, t, l⟩
  · exact hfirst
  · exact accounted_append.mpr ⟨hfirst, hrest b rfl _ _⟩

theorem Accounts.mono {J' : List (Event κ ρ σ) → Event κ ρ σ → Prop} {p : Program κ ρ α}
    (h : Accounts sys J p) (hJ : ∀ l e, J l e → J' l e) : Accounts sys J' p :=
  fun x s l₁ e l₂ hl => hJ l₁ e (h x s l₁ e l₂ hl)

/-- Calls that need not be accounted for. -/
theorem accounts_makes {P : κ → Prop} {p : Program κ ρ α} (hp : Makes P p)
    (hJ : ∀ l c x s r t, P c → sys c x s = some (r, t) → J l ⟨c, r, s, t⟩) : Accounts sys J p := by
  induction p generalizing J with
  | done a => exact accounts_done a
  | call c next ih =>
    refine accounts_call fun x s r t hc => ⟨hJ [] c x s r t hp.1 hc, ?_⟩
    exact ih r (hp.2 r) fun l => hJ (_ :: l)

/-- A condition that is kept when more was called before need not look back across a loop. -/
theorem accounts_each {f : β → Program κ ρ Unit} (hJ : ∀ l l' e, J l' e → J (l ++ l') e)
    (hf : ∀ b, Accounts sys J (f b)) (l : List β) : Accounts sys J (each f l) := by
  induction l with
  | nil => exact accounts_done ()
  | cons b l ih => exact accounts_bind (hf b) fun _ x s _ => ih.mono fun l' e => hJ _ l' e

end Program

end ConferenceCall.Library

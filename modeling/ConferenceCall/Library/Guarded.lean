import ConferenceCall.Library.Program

/-! A program beside others. Steps in a rely relation may come before each of its calls and after
the last one; its own calls meet a guarantee and its result a postcondition all the same. What a
program does to a state of its own, whatever the answers are, is a protocol. -/

namespace ConferenceCall.Library.Program

variable {κ : Type} {ρ : κ → Type} {χ σ φ α β : Type}

section
variable (sys : System κ ρ χ σ) (ok : κ → χ → σ → Prop) (rely : σ → σ → Prop)
  (guar : Event κ ρ σ → Prop)

/-- The calls that are made from here on are in `guar`, and the end is in `Q`. -/
def Guarded (Q : α → σ → Prop) : Program κ ρ α → σ → Prop
  | .done a, s => ∀ u, rely s u → Q a u
  | .call c next, s => ∀ u, rely s u → ∀ x, ok c x u → ∀ r t, sys c x u = some (r, t) →
      guar ⟨c, r, u, t⟩ ∧ Guarded Q (next r) t

end

section Guarded

variable {sys : System κ ρ χ σ} {ok : κ → χ → σ → Prop} {rely : σ → σ → Prop}
  {guar : Event κ ρ σ → Prop} {Q R : α → σ → Prop} {A : σ → Prop} {p : Program κ ρ α} {s u : σ}

/-- Steps of the others change nothing. -/
theorem Guarded.beside (htrans : ∀ s t u, rely s t → rely t u → rely s u)
    (h : Guarded sys ok rely guar Q p s) (hu : rely s u) : Guarded sys ok rely guar Q p u := by
  cases p with
  | done a => exact fun v hv => h v (htrans s u v hu hv)
  | call c next => exact fun v hv => h v (htrans s u v hu hv)

theorem Guarded.mono (h : Guarded sys ok rely guar Q p s) (hQ : ∀ a t, Q a t → R a t) :
    Guarded sys ok rely guar R p s := by
  induction p generalizing s with
  | done a => exact fun u hu => hQ a u (h u hu)
  | call c next ih =>
    intro u hu x hx r t hc
    obtain ⟨hguar, hnext⟩ := h u hu x hx r t hc
    exact ⟨hguar, ih r hnext⟩

theorem guarded_bind {q : Program κ ρ β} {f : β → Program κ ρ α} (hrefl : ∀ s, rely s s)
    (h : Guarded sys ok rely guar (fun b t => Guarded sys ok rely guar Q (f b) t) q s) :
    Guarded sys ok rely guar Q (q >>= f) s := by
  induction q generalizing s with
  | done b => exact h s (hrefl s)
  | call c next ih =>
    intro u hu x hx r t hc
    obtain ⟨hguar, hnext⟩ := h u hu x hx r t hc
    exact ⟨hguar, ih r hnext⟩

/-- One call, from any state of an assertion that the others keep. -/
theorem guarded_call {c : κ} {next : ρ c → Program κ ρ α} (hs : A s)
    (hstable : ∀ s u, A s → rely s u → A u)
    (h : ∀ u x r t, A u → ok c x u → sys c x u = some (r, t) →
      guar ⟨c, r, u, t⟩ ∧ Guarded sys ok rely guar Q (next r) t) :
    Guarded sys ok rely guar Q (.call c next) s :=
  fun u hu x hx r t hc => h u x r t (hstable s u hs hu) hx hc

theorem guarded_pure {a : α} (hs : A s) (hstable : ∀ s u, A s → rely s u → A u)
    (h : ∀ u, A u → Q a u) : Guarded sys ok rely guar Q (pure a) s :=
  fun u hu => h u (hstable s u hs hu)

end Guarded

section
variable (allows : φ → κ → Prop) (move : φ → (c : κ) → ρ c → φ)

/-- Whatever the answers are, each call is allowed where the calls before it lead, and the end is
in `Q`. -/
def Obeys (Q : α → φ → Prop) : φ → Program κ ρ α → Prop
  | i, .done a => Q a i
  | i, .call c next => allows i c ∧ ∀ r, Obeys Q (move i c r) (next r)

end

section Obeys

variable {allows : φ → κ → Prop} {move : φ → (c : κ) → ρ c → φ} {Q R : α → φ → Prop} {i : φ}
  {p : Program κ ρ α}

theorem Obeys.call {c : κ} {next : ρ c → Program κ ρ α} (hc : allows i c)
    (h : ∀ r, Obeys allows move Q (move i c r) (next r)) :
    Obeys allows move Q i (.call c next) := ⟨hc, h⟩

theorem Obeys.mono (h : Obeys allows move Q i p) (hQ : ∀ a j, Q a j → R a j) :
    Obeys allows move R i p := by
  induction p generalizing i with
  | done a => exact hQ a i h
  | call c next ih => exact ⟨h.1, fun r => ih r (h.2 r)⟩

theorem Obeys.bind {q : Program κ ρ β} {f : β → Program κ ρ α}
    (h : Obeys allows move (fun b j => Obeys allows move Q j (f b)) i q) :
    Obeys allows move Q i (q >>= f) := by
  induction q generalizing i with
  | done b => exact h
  | call c next ih => exact ⟨h.1, fun r => ih r (h.2 r)⟩

end Obeys

end ConferenceCall.Library.Program

import ConferenceCall.Library.Action

/-! Programs as trees of calls to a system. A call is answered according to a choice of the
environment, or the program ends there; every call that was made leaves an event with the state
before and after it. The module gives the runs of a program and the rules for what all of its
runs ensure. -/

namespace ConferenceCall.Library

/-- A program is done, or makes a call and goes on with the answer. -/
inductive Program (κ : Type) (ρ : κ → Type) (α : Type) : Type
  | done (a : α)
  | call (c : κ) (next : ρ c → Program κ ρ α)

/-- A call with its answer and its effect. -/
structure Event (κ : Type) (ρ : κ → Type) (σ : Type) where
  call : κ
  answer : ρ call
  before : σ
  after : σ

/-- The answer and the next state, or the end of the program before the call. -/
abbrev System (κ : Type) (ρ : κ → Type) (χ σ : Type) := (c : κ) → χ → σ → Option (ρ c × σ)

namespace Program

variable {κ : Type} {ρ : κ → Type} {χ σ α β : Type}

/-- Sequencing. -/
def bind : Program κ ρ α → (α → Program κ ρ β) → Program κ ρ β
  | .done a, f => f a
  | .call c next, f => .call c fun r => (next r).bind f

instance : Monad (Program κ ρ) where
  pure := .done
  bind := .bind

/-- The program of one call. -/
def request (c : κ) : Program κ ρ (ρ c) := .call c .done

/-- A loop over a list. -/
def each (f : β → Program κ ρ Unit) : List β → Program κ ρ Unit
  | [] => pure ()
  | b :: l => do f b; each f l

/-- A loop over a list with an accumulator. -/
def fold (f : α → β → Program κ ρ α) : List β → α → Program κ ρ α
  | [], a => pure a
  | b :: l, a => do fold f l (← f a b)

@[simp] theorem pure_bind (a : α) (f : α → Program κ ρ β) :
    (pure a : Program κ ρ α) >>= f = f a := rfl

@[simp] theorem call_bind (c : κ) (next : ρ c → Program κ ρ α) (f : α → Program κ ρ β) :
    Program.call c next >>= f = .call c fun r => next r >>= f := rfl

@[simp] theorem request_bind (c : κ) (f : ρ c → Program κ ρ β) :
    (request c : Program κ ρ (ρ c)) >>= f = .call c f := rfl

theorem call_congr {c : κ} {next next' : ρ c → Program κ ρ α} (h : ∀ r, next r = next' r) :
    Program.call c next = .call c next' := by
  rw [funext h]

theorem bind_assoc {γ : Type} (p : Program κ ρ α) (f : α → Program κ ρ β)
    (g : β → Program κ ρ γ) : p >>= f >>= g = p >>= fun a => f a >>= g := by
  induction p with
  | done a => rfl
  | call c next ih => simp only [call_bind, ih]

/-- Whatever the answers are, the program makes only calls in `P`. -/
def Makes (P : κ → Prop) : Program κ ρ α → Prop
  | .done _ => True
  | .call c next => P c ∧ ∀ r, Makes P (next r)

section Makes

variable {P : κ → Prop}

theorem Makes.pure (a : α) : Makes P (pure a : Program κ ρ α) := trivial

theorem Makes.bind {p : Program κ ρ α} {f : α → Program κ ρ β} (hp : Makes P p)
    (hf : ∀ a, Makes P (f a)) : Makes P (p >>= f) := by
  induction p with
  | done a => exact hf a
  | call c next ih => exact ⟨hp.1, fun r => ih r (hp.2 r)⟩

theorem Makes.mono {Q : κ → Prop} {p : Program κ ρ α} (hp : Makes P p) (h : ∀ c, P c → Q c) :
    Makes Q p := by
  induction p with
  | done a => trivial
  | call c next ih => exact ⟨h c hp.1, fun r => ih r (hp.2 r)⟩

theorem Makes.request {c : κ} (hc : P c) : Makes P (request c : Program κ ρ (ρ c)) :=
  ⟨hc, fun _ => trivial⟩

theorem Makes.each {f : β → Program κ ρ Unit} {l : List β} (hf : ∀ b ∈ l, Makes P (f b)) :
    Makes P (each f l) := by
  induction l with
  | nil => trivial
  | cons b l ih => exact (hf b (by simp)).bind fun _ => ih fun b' hb => hf b' (by simp [hb])

end Makes

/-- Whatever the answers are, a run to the end has a result in `Q`. -/
def Returns (Q : α → Prop) : Program κ ρ α → Prop
  | .done a => Q a
  | .call _ next => ∀ r, Returns Q (next r)

/-- What follows a program has to be right for its results only. -/
theorem Makes.bind_of_returns {P : κ → Prop} {Q : α → Prop} {p : Program κ ρ α}
    {f : α → Program κ ρ β} (hp : Makes P p) (hQ : Returns Q p) (hf : ∀ a, Q a → Makes P (f a)) :
    Makes P (p >>= f) := by
  induction p with
  | done a => exact hf a hQ
  | call c next ih => exact ⟨hp.1, fun r => ih r (hp.2 r) (hQ r)⟩

/-- Whatever the answers are, a run to the end makes `n` calls in `P`. -/
def Counts (P : κ → Bool) : Program κ ρ α → ℕ → Prop
  | .done _, n => n = 0
  | .call c next, n => ∃ m, n = m + (P c).toNat ∧ ∀ r, Counts P (next r) m

section Counts

variable {P : κ → Bool}

theorem Counts.pure (a : α) : Counts P (pure a : Program κ ρ α) 0 := rfl

theorem Counts.call {c : κ} {next : ρ c → Program κ ρ α} {n : ℕ} (h : ∀ r, Counts P (next r) n) :
    Counts P (.call c next) (n + (P c).toNat) := ⟨n, rfl, h⟩

theorem Counts.bind {p : Program κ ρ α} {f : α → Program κ ρ β} {m n : ℕ} (hp : Counts P p m)
    (hf : ∀ a, Counts P (f a) n) : Counts P (p >>= f) (m + n) := by
  induction p generalizing m with
  | done a =>
    rw [Counts] at hp
    rw [hp, Nat.zero_add]
    exact hf a
  | call c next ih =>
    obtain ⟨k, rfl, hk⟩ := hp
    exact ⟨k + n, Nat.add_right_comm .., fun r => ih r (hk r)⟩

end Counts

/-- Whatever the answers are, a run to the end makes calls with these marks, in this order. -/
def Records {γ : Type} (f : κ → Option γ) : Program κ ρ α → List γ → Prop
  | .done _, l => l = []
  | .call c next, l => ∃ m, l = (f c).toList ++ m ∧ ∀ r, Records f (next r) m

theorem Records.skip {γ : Type} {f : κ → Option γ} {c : κ} {next : ρ c → Program κ ρ α} {l : List γ}
    (hc : f c = none) (h : ∀ r, Records f (next r) l) : Records f (.call c next) l :=
  ⟨l, by rw [hc]; rfl, h⟩

theorem Records.mark {γ : Type} {f : κ → Option γ} {c : κ} {next : ρ c → Program κ ρ α} {l : List γ}
    {m : γ} (hc : f c = some m) (h : ∀ r, Records f (next r) l) :
    Records f (.call c next) (m :: l) :=
  ⟨l, by rw [hc]; rfl, h⟩

variable (sys : System κ ρ χ σ)

/-- The run with a stream of choices, one for each call. -/
def exec : Program κ ρ α → (ℕ → χ) → σ → Outcome σ (Event κ ρ σ) α
  | .done a, _, s => ⟨some a, s, []⟩
  | .call c next, x, s =>
    match sys c (x 0) s with
    | none => ⟨none, s, []⟩
    | some (r, t) => (exec (next r) (fun n => x (n + 1)) t).after [⟨c, r, s, t⟩]

/-- A sequence runs its second part on the choices its first part left. -/
theorem exec_bind (p : Program κ ρ α) (f : α → Program κ ρ β) (x : ℕ → χ) (s : σ) :
    (p >>= f).exec sys x s = (p.exec sys x s).andThen fun a t =>
      (f a).exec sys (fun n => x (n + (p.exec sys x s).calls.length)) t := by
  induction p generalizing x s with
  | done a => rfl
  | call c next ih =>
    rw [call_bind, exec, exec]
    cases sys c (x 0) s with
    | none => rfl
    | some rt =>
      obtain ⟨r, t⟩ := rt
      simp only [ih, Outcome.after, List.cons_append, List.nil_append, List.length_cons]
      rcases (next r).exec sys (fun n => x (n + 1)) t with ⟨_ | a, u, l⟩
      · rfl
      · simp only [Outcome.andThen_some, Outcome.after, List.cons_append, Nat.add_assoc]

/-- What follows a part that comes to its end starts where that part ends. -/
theorem exec_bind_state {p : Program κ ρ α} (f : α → Program κ ρ β) {x : ℕ → χ} {s : σ} {a : α}
    (h : (p.exec sys x s).value = some a) : ((p >>= f).exec sys x s).state =
      ((f a).exec sys (fun n => x (n + (p.exec sys x s).calls.length))
        (p.exec sys x s).state).state := by
  rw [exec_bind]
  generalize p.exec sys x s = o at h ⊢
  rcases o with ⟨_ | b, t, l⟩
  · cases h
  · cases h
    rfl

/-- A sequence that comes to its end has run both parts to their ends. -/
theorem exec_bind_value {p : Program κ ρ α} {f : α → Program κ ρ β} {x : ℕ → χ} {s : σ} {b : β}
    (h : ((p >>= f).exec sys x s).value = some b) : ∃ a y,
      (p.exec sys x s).value = some a ∧
      ((f a).exec sys y (p.exec sys x s).state).value = some b ∧
      ((p >>= f).exec sys x s).calls =
        (p.exec sys x s).calls ++ ((f a).exec sys y (p.exec sys x s).state).calls := by
  rw [exec_bind] at h ⊢
  cases hp : (p.exec sys x s).value with
  | none =>
    rw [Outcome.andThen, hp] at h
    cases h
  | some a =>
    rw [Outcome.andThen, hp] at h ⊢
    exact ⟨a, _, rfl, h, rfl⟩

/-- A loop that comes to its end has run the round of each element to its end. -/
theorem exec_each_value {f : β → Program κ ρ Unit} {l₁ l₂ : List β} {b : β} {x : ℕ → χ} {s : σ}
    (h : ((each f (l₁ ++ b :: l₂)).exec sys x s).value = some ()) : ∃ c₁ y t c₂,
      ((f b).exec sys y t).value = some () ∧
      ((each f (l₁ ++ b :: l₂)).exec sys x s).calls = c₁ ++ ((f b).exec sys y t).calls ++ c₂ := by
  induction l₁ generalizing x s with
  | nil =>
    obtain ⟨_, y, hround, -, hcalls⟩ := exec_bind_value sys h
    exact ⟨[], x, s, _, hround, hcalls⟩
  | cons b' l₁ ih =>
    obtain ⟨_, y, -, hrest, hcalls⟩ := exec_bind_value sys h
    obtain ⟨c₁, z, t, c₂, hround, hsplit⟩ := ih hrest
    refine ⟨((f b').exec sys x s).calls ++ c₁, z, t, c₂, hround, hcalls.trans ?_⟩
    rw [List.append_assoc, List.append_assoc]
    exact congrArg _ (hsplit.trans (List.append_assoc ..))

theorem Makes.exec {P : κ → Prop} {p : Program κ ρ α} (hp : Makes P p) (x : ℕ → χ) (s : σ) :
    ∀ e ∈ (p.exec sys x s).calls, P e.call := by
  induction p generalizing x s with
  | done a => simp [Program.exec]
  | call c next ih =>
    rw [Program.exec]
    cases sys c (x 0) s with
    | none => simp
    | some rt =>
      intro e he
      rcases List.mem_cons.mp he with rfl | he
      · exact hp.1
      · exact ih _ (hp.2 _) _ _ e he

theorem Counts.exec {P : κ → Bool} {p : Program κ ρ α} {n : ℕ} (hp : Counts P p n) (x : ℕ → χ)
    (s : σ) (hend : (p.exec sys x s).value ≠ none) :
    (p.exec sys x s).calls.countP (fun e => P e.call) = n := by
  induction p generalizing n x s with
  | done a => exact hp.symm
  | call c next ih =>
    obtain ⟨m, rfl, hm⟩ := hp
    rw [Program.exec] at hend ⊢
    cases hc : sys c (x 0) s with
    | none => simp [hc] at hend
    | some rt =>
      simp only [hc, Outcome.after_value] at hend
      have hrest := ih _ (hm rt.1) _ _ hend
      simp only [Outcome.after_calls, List.singleton_append, List.countP_cons, hrest]
      cases P c <;> rfl

theorem Records.exec {γ : Type} {f : κ → Option γ} {p : Program κ ρ α} {l : List γ}
    (hp : Records f p l) (x : ℕ → χ) (s : σ) (hend : (p.exec sys x s).value ≠ none) :
    (p.exec sys x s).calls.filterMap (fun e => f e.call) = l := by
  induction p generalizing l x s with
  | done a => exact hp.symm
  | call c next ih =>
    obtain ⟨m, rfl, hm⟩ := hp
    rw [Program.exec] at hend ⊢
    cases hc : sys c (x 0) s with
    | none => simp [hc] at hend
    | some rt =>
      simp only [hc, Outcome.after_value] at hend
      have hrest := ih _ (hm rt.1) _ _ hend
      simp only [Outcome.after_calls, List.singleton_append, List.filterMap_cons, hrest]
      cases f c <;> rfl

/-- The calls lead from one state to another. -/
def Leads : List (Event κ ρ σ) → σ → σ → Prop
  | [], s, t => s = t
  | e :: l, s, t => e.before = s ∧ Leads l e.after t

theorem exec_leads (p : Program κ ρ α) (x : ℕ → χ) (s : σ) :
    Leads (p.exec sys x s).calls s (p.exec sys x s).state := by
  induction p generalizing x s with
  | done a => rfl
  | call c next ih =>
    rw [exec]
    cases sys c (x 0) s with
    | none => rfl
    | some rt => exact ⟨rfl, ih _ _ _⟩

variable {sys} in
/-- What every call in `P` keeps holds before and after each call of a program that makes no
others. -/
theorem Makes.keeps {P : κ → Prop} {J : σ → Prop} {p : Program κ ρ α} (hp : Makes P p)
    (hJ : ∀ c x s r t, P c → J s → sys c x s = some (r, t) → J t) (x : ℕ → χ) (s : σ) (hs : J s) :
    J (p.exec sys x s).state ∧
      ∀ e ∈ (p.exec sys x s).calls, J e.before ∧ J e.after ∧
        ∃ y, sys e.call y e.before = some (e.answer, e.after) := by
  induction p generalizing x s with
  | done a => exact ⟨hs, by simp [Program.exec]⟩
  | call c next ih =>
    rw [Program.exec]
    cases hc : sys c (x 0) s with
    | none => exact ⟨hs, by simp⟩
    | some rt =>
      have ht := hJ c _ _ _ _ hp.1 hs hc
      obtain ⟨hstate, hcalls⟩ := ih rt.1 (hp.2 rt.1) (fun n => x (n + 1)) rt.2 ht
      refine ⟨hstate, fun e he => ?_⟩
      rcases List.mem_cons.mp he with rfl | he
      · exact ⟨hs, ht, x 0, hc⟩
      · exact hcalls e he

/-- All runs on choices in `ok` have a property. -/
def Ensures (ok : χ → Prop) (p : Program κ ρ α) (Q : Outcome σ (Event κ ρ σ) α → Prop) (s : σ) :
    Prop :=
  ∀ x : ℕ → χ, (∀ n, ok (x n)) → Q (p.exec sys x s)

section Ensures

variable {sys} {ok : χ → Prop} {Q R : Outcome σ (Event κ ρ σ) α → Prop} {s : σ}

theorem Ensures.mono {p : Program κ ρ α} (h : Ensures sys ok p Q s) (hQ : ∀ o, Q o → R o) :
    Ensures sys ok p R s :=
  fun x hx => hQ _ (h x hx)

theorem ensures_done {a : α} (h : Q ⟨some a, s, []⟩) : Ensures sys ok (.done a) Q s := fun _ _ => h

theorem ensures_pure {a : α} (h : Q ⟨some a, s, []⟩) : Ensures sys ok (pure a) Q s := fun _ _ => h

/-- The call is not reached, or it is answered and the program goes on. -/
theorem ensures_call {c : κ} {next : ρ c → Program κ ρ α}
    (hstop : ∀ x, ok x → sys c x s = none → Q ⟨none, s, []⟩)
    (h : ∀ x r t, ok x → sys c x s = some (r, t) →
      Ensures sys ok (next r) (fun o => Q (o.after [⟨c, r, s, t⟩])) t) :
    Ensures sys ok (.call c next) Q s := by
  intro x hx
  rw [exec]
  cases hc : sys c (x 0) s with
  | none => exact hstop _ (hx 0) hc
  | some rt => exact h _ _ _ (hx 0) hc _ fun n => hx (n + 1)

theorem ensures_bind {p : Program κ ρ β} {f : β → Program κ ρ α}
    (h : Ensures sys ok p (fun o => match o.value with
      | none => Q ⟨none, o.state, o.calls⟩
      | some b => Ensures sys ok (f b) (fun o' => Q (o'.after o.calls)) o.state) s) :
    Ensures sys ok (p >>= f) Q s := by
  intro x hx
  have hp := h x hx
  rw [exec_bind]
  generalize p.exec sys x s = o at hp ⊢
  rcases o with ⟨_ | b, t, l⟩
  · exact hp
  · exact hp _ fun n => hx _

/-- A loop whose rounds compute a function, each with a property that adds up. -/
theorem ensures_fold {γ : Type} {f : α → γ → Program κ ρ α} {g : α → γ → α}
    {P : List (Event κ ρ σ) → Prop} (hnil : P []) (happend : ∀ l l', P l → P l' → P (l ++ l'))
    (hf : ∀ a c, Ensures sys ok (f a c) (fun o => o.value = some (g a c) ∧ o.state = s ∧ P o.calls) s)
    (l : List γ) (a : α) : Ensures sys ok (fold f l a)
      (fun o => o.value = some (l.foldl g a) ∧ o.state = s ∧ P o.calls) s := by
  induction l generalizing a with
  | nil => exact ensures_done ⟨rfl, rfl, hnil⟩
  | cons c l ih =>
    refine ensures_bind ((hf a c).mono fun o ⟨hvalue, hstate, hcalls⟩ => ?_)
    rw [hvalue, hstate]
    exact (ih (g a c)).mono fun o' ⟨hvalue', hstate', hcalls'⟩ =>
      ⟨hvalue', hstate', happend _ _ hcalls hcalls'⟩

end Ensures

end Program

end ConferenceCall.Library

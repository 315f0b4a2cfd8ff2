import ConferenceCall.Session.Teardown

/-! Where the threads of a teardown can be: a library thread is between two callbacks or
in one of them, the application thread somewhere in Stop. From each place follows which
mutexes a thread holds and which it has still to take. -/

namespace ConferenceCall

open Library

/-- A handler is under way on the slot and has still to take `m_stateMutex`. -/
def Waits (x : Thread Mutex Action) (s : Slot) : Prop :=
  .slot s ∈ x.held ∧ .lock .stateMutex ∈ x.code

/-- The states of a library thread: between two callbacks, or in one of them. -/
inductive Worker : Thread Mutex Action → Prop where
  | idle (evs : List Event) : Worker ⟨evs.flatMap invokeCode, []⟩
  | invoking {ev : Event} {s : Slot} (h : ev.what.slot = some s) (evs : List Event) :
    Worker ⟨.act (.invoke ev) :: .unlock (.slot s) :: evs.flatMap invokeCode, [.slot s]⟩
  | waiting (ev : Event) (s : Slot) (evs : List Event) :
    Worker ⟨.lock .stateMutex :: .act (.handle ev) :: .unlock .stateMutex :: .unlock (.slot s) ::
      evs.flatMap invokeCode, [.slot s]⟩
  | holding (ev : Event) (s : Slot) (evs : List Event) :
    Worker ⟨.act (.handle ev) :: .unlock .stateMutex :: .unlock (.slot s) ::
      evs.flatMap invokeCode, [.stateMutex, .slot s]⟩
  | handled (s : Slot) (evs : List Event) :
    Worker ⟨.unlock .stateMutex :: .unlock (.slot s) :: evs.flatMap invokeCode,
      [.stateMutex, .slot s]⟩
  | handling (ev : Event) (s : Slot) (evs : List Event) :
    Worker ⟨.act (.handle ev) :: .unlock (.slot s) :: evs.flatMap invokeCode, [.slot s]⟩
  | returning (s : Slot) (evs : List Event) :
    Worker ⟨.unlock (.slot s) :: evs.flatMap invokeCode, [.slot s]⟩

/-- What is left of Stop after the cleanup's body. -/
def stopRest : Code := [.unlock .stateMutex, .act .finish, .unlock .apiMutex]

/-- The states of the application thread. -/
inductive Stopping : Thread Mutex Action → Prop where
  | calling : Stopping ⟨stopCode, []⟩
  | entered : Stopping ⟨[.act .stop, .unlock .apiMutex], [.apiMutex]⟩
  | leaving : Stopping ⟨cleanupCode ++ [.unlock .apiMutex], [.apiMutex]⟩
  | waiting : Stopping ⟨.lock .stateMutex :: .act .cleanup :: stopRest, [.apiMutex]⟩
  | holding : Stopping ⟨.act .cleanup :: stopRest, [.stateMutex, .apiMutex]⟩
  | sweeping (tasks : List Task) :
    Stopping ⟨tasks.flatMap Task.code ++ stopRest, [.stateMutex, .apiMutex]⟩
  | clearing (s : Slot) (tasks : List Task) :
    Stopping ⟨.act (.perform (.clear s)) :: .unlock (.slot s) :: (tasks.flatMap Task.code ++ stopRest),
      [.slot s, .stateMutex, .apiMutex]⟩
  | cleared (s : Slot) (tasks : List Task) :
    Stopping ⟨.unlock (.slot s) :: (tasks.flatMap Task.code ++ stopRest),
      [.slot s, .stateMutex, .apiMutex]⟩
  | finishing : Stopping ⟨[.act .finish, .unlock .apiMutex], [.apiMutex]⟩
  | returning : Stopping ⟨[.unlock .apiMutex], [.apiMutex]⟩
  | returned : Stopping ⟨[], []⟩

variable {x x' : Thread Mutex Action} {mem mem' : Memory} {free : Mutex → Prop}

/-- A library thread starts its next callback. -/
theorem worker_next (evs : List Event)
    (h : Thread.Advance Acts free ⟨evs.flatMap invokeCode, []⟩ mem x' mem') :
    ∃ (ev : Event) (rest : List Event), x' = ⟨rest.flatMap invokeCode, []⟩ ∨
      ∃ s, ev.what.slot = some s ∧
        x' = ⟨.act (.invoke ev) :: .unlock (.slot s) :: rest.flatMap invokeCode, [.slot s]⟩ := by
  rcases evs with _ | ⟨ev, evs⟩
  · exact h.elim
  · refine ⟨ev, evs, ?_⟩
    cases hs : ev.what.slot with
    | none =>
      simp only [List.flatMap_cons, invokeCode, hs, List.cons_append, List.nil_append,
        Thread.Advance] at h
      obtain ⟨new, hact, rfl⟩ := h
      cases hact
      exact .inl rfl
    | some s =>
      simp only [List.flatMap_cons, invokeCode, hs, List.cons_append, List.nil_append,
        Thread.Advance] at h
      obtain ⟨-, rfl, rfl⟩ := h
      exact .inr ⟨s, rfl, rfl⟩

theorem Worker.advance (h : Worker x) (ha : x.Advance Acts free mem x' mem') : Worker x' := by
  cases h with
  | idle evs =>
    obtain ⟨ev, rest, rfl | ⟨s, hs, rfl⟩⟩ := worker_next evs ha
    · exact .idle rest
    · exact .invoking hs rest
  | invoking hs evs =>
    rename_i ev s
    obtain ⟨new, hact, rfl⟩ := ha
    cases hact
    simp only [handlerCode]
    split_ifs
    · exact .waiting ev s evs
    · exact .handling ev s evs
    · exact .returning s evs
  | waiting ev s evs =>
    obtain ⟨-, rfl, -⟩ := ha
    exact .holding ev s evs
  | holding ev s evs =>
    obtain ⟨new, hact, rfl⟩ := ha
    cases hact
    exact .handled s evs
  | handled s evs =>
    obtain ⟨held, hheld, rfl, -⟩ := ha
    cases hheld
    exact .returning s evs
  | handling ev s evs =>
    obtain ⟨new, hact, rfl⟩ := ha
    cases hact
    exact .returning s evs
  | returning s evs =>
    obtain ⟨held, hheld, rfl, -⟩ := ha
    cases hheld
    exact .idle evs

theorem Stopping.advance (h : Stopping x) (ha : x.Advance Acts free mem x' mem') :
    Stopping x' := by
  cases h with
  | calling =>
    obtain ⟨-, rfl, -⟩ := ha
    exact .entered
  | entered =>
    obtain ⟨new, hact, rfl⟩ := ha
    cases hact
    split_ifs
    · exact .leaving
    · exact .returning
  | leaving =>
    obtain ⟨new, hact, rfl⟩ := ha
    cases hact
    exact .waiting
  | waiting =>
    obtain ⟨-, rfl, -⟩ := ha
    exact .holding
  | holding =>
    obtain ⟨new, hact, rfl⟩ := ha
    cases hact
    exact .sweeping _
  | sweeping tasks =>
    rcases tasks with _ | ⟨task, tasks⟩
    · obtain ⟨held, hheld, rfl, -⟩ := ha
      cases hheld
      exact .finishing
    · cases task with
      | clear s =>
        obtain ⟨-, rfl, -⟩ := ha
        exact .clearing s tasks
      | _ =>
        obtain ⟨new, hact, rfl⟩ := ha
        cases hact
        exact .sweeping tasks
  | clearing s tasks =>
    obtain ⟨new, hact, rfl⟩ := ha
    cases hact
    exact .cleared s tasks
  | cleared s tasks =>
    obtain ⟨held, hheld, rfl, -⟩ := ha
    cases hheld
    exact .sweeping tasks
  | finishing =>
    obtain ⟨new, hact, rfl⟩ := ha
    cases hact
    exact .returning
  | returning =>
    obtain ⟨held, hheld, rfl, -⟩ := ha
    cases hheld
    exact .returned
  | returned => exact ha.elim

/-! ### Which locks are ahead -/

variable {s : Slot}

theorem lock_not_mem_invoke (evs : List Event) : .lock .stateMutex ∉ evs.flatMap invokeCode := by
  intro h
  obtain ⟨ev, -, hev⟩ := List.mem_flatMap.mp h
  rw [invokeCode] at hev
  split at hev <;> simp at hev

theorem lock_mem_tasks {tasks : List Task} (h : .lock (.slot s) ∈ tasks.flatMap Task.code) :
    .clear s ∈ tasks := by
  obtain ⟨task, ht, hs⟩ := List.mem_flatMap.mp h
  cases task <;> simp [Task.code] at hs
  rwa [hs]

/-- The cleanup empties the slots of the stored connections and of the socket only. -/
theorem sweeps_of_task {m : Manager} {order : List ℕ} (ho : ↑order = m.pcs.values)
    (h : .clear s ∈ cleanupTasks order m.signalingContext.isSome) : m.sweeps s := by
  rcases List.mem_append.mp h with h | h
  · obtain ⟨pc, hpc, ht⟩ := List.mem_flatMap.mp h
    have hmem : pc ∈ m.pcs.values := by
      rw [← ho]
      exact hpc
    simp only [closingTasks, List.mem_cons, Task.clear.injEq, List.not_mem_nil, or_false,
      reduceCtorEq] at ht
    rcases ht with rfl | rfl | rfl <;> exact hmem
  · cases hc : m.signalingContext.isSome with
    | false => simp [hc] at h
    | true =>
      simp [hc, disconnectTasks] at h
      rcases h with rfl | rfl | rfl | rfl | rfl | rfl <;> exact hc

/-- A handler comes to wait for `m_stateMutex` by being entered only. -/
theorem Worker.waits_of_advance (h : Worker x) (ha : x.Advance Acts free mem x' mem')
    (hw : Waits x' s) : Waits x s ∨ ∃ ev, x.code.head? = some (.act (.invoke ev)) ∧
      ev.what.slot = some s ∧ mem.enters ev := by
  obtain ⟨hheld, hcode⟩ := hw
  cases h with
  | idle evs =>
    obtain ⟨ev, rest, rfl | ⟨t, -, rfl⟩⟩ := worker_next evs ha
    · exact absurd hcode (lock_not_mem_invoke rest)
    · simp only [List.mem_cons, reduceCtorEq, false_or] at hcode
      exact absurd hcode (lock_not_mem_invoke rest)
  | invoking hs evs =>
    rename_i ev t
    obtain ⟨new, hact, rfl⟩ := ha
    cases hact
    simp only [List.mem_singleton, Mutex.slot.injEq] at hheld
    subst hheld
    refine .inr ⟨ev, rfl, hs, ?_⟩
    have hnew : .lock .stateMutex ∈
        if ev.what.slot.any mem.installed then handlerCode mem.manager ev else [] := by
      rcases List.mem_append.mp hcode with hm | hm
      · exact hm
      · simp only [List.mem_cons, reduceCtorEq, false_or] at hm
        exact absurd hm (lock_not_mem_invoke evs)
    split_ifs at hnew with hi
    · rw [handlerCode] at hnew
      split_ifs at hnew with hl
      · simp [Memory.enters, hi, hl]
      · simp at hnew
    · simp at hnew
  | waiting ev t evs =>
    obtain ⟨-, rfl, -⟩ := ha
    simp only [List.mem_cons, reduceCtorEq, false_or] at hcode
    exact absurd hcode (lock_not_mem_invoke evs)
  | holding ev t evs =>
    obtain ⟨new, hact, rfl⟩ := ha
    cases hact
    simp only [List.nil_append, List.mem_cons, reduceCtorEq, false_or] at hcode
    exact absurd hcode (lock_not_mem_invoke evs)
  | handled t evs =>
    obtain ⟨held, hh, rfl, -⟩ := ha
    simp only [List.mem_cons, reduceCtorEq, false_or] at hcode
    exact absurd hcode (lock_not_mem_invoke evs)
  | handling ev t evs =>
    obtain ⟨new, hact, rfl⟩ := ha
    cases hact
    simp only [List.nil_append, List.mem_cons, reduceCtorEq, false_or] at hcode
    exact absurd hcode (lock_not_mem_invoke evs)
  | returning t evs =>
    obtain ⟨held, hh, rfl, -⟩ := ha
    exact absurd hcode (lock_not_mem_invoke evs)

/-- The slots Stop has still to empty are those the cleanup found. -/
theorem Stopping.owes_of_advance (h : Stopping x) (ha : x.Advance Acts free mem x' mem')
    (ho : .lock (.slot s) ∈ x'.code) : .lock (.slot s) ∈ x.code ∨
      x.code.head? = some (.act .cleanup) ∧ mem.manager.sweeps s := by
  cases h with
  | holding =>
    obtain ⟨new, hact, rfl⟩ := ha
    cases hact with
    | cleanup order horder =>
      refine .inr ⟨rfl, ?_⟩
      rcases List.mem_append.mp ho with hm | hm
      · exact sweeps_of_task horder (lock_mem_tasks hm)
      · simp [stopRest] at hm
  | entered =>
    obtain ⟨new, hact, rfl⟩ := ha
    cases hact
    split_ifs at ho <;> simp [cleanupCode] at ho
  | sweeping tasks =>
    left
    rcases tasks with _ | ⟨task, tasks⟩
    · obtain ⟨held, hheld, rfl, -⟩ := ha
      simp at ho
    · have hrest : .lock (.slot s) ∈ tasks.flatMap Task.code ++ stopRest := by
        cases task with
        | clear t =>
          obtain ⟨-, rfl, -⟩ := ha
          simpa using ho
        | _ =>
          obtain ⟨new, hact, rfl⟩ := ha
          cases hact
          simpa using ho
      simp only [List.flatMap_cons, List.append_assoc]
      exact List.mem_append_right _ hrest
  | clearing t tasks =>
    obtain ⟨new, hact, rfl⟩ := ha
    cases hact
    exact .inl (List.mem_cons_of_mem _ ho)
  | cleared t tasks =>
    obtain ⟨held, hheld, rfl, -⟩ := ha
    exact .inl (List.mem_cons_of_mem _ ho)
  | calling =>
    obtain ⟨-, rfl, -⟩ := ha
    simp at ho
  | waiting =>
    obtain ⟨-, rfl, -⟩ := ha
    simp [stopRest] at ho
  | leaving =>
    obtain ⟨new, hact, rfl⟩ := ha
    cases hact
    simp at ho
  | finishing =>
    obtain ⟨new, hact, rfl⟩ := ha
    cases hact
    simp at ho
  | returning =>
    obtain ⟨held, hheld, rfl, -⟩ := ha
    simp at ho
  | returned => exact ha.elim

theorem Worker.apiMutex (h : Worker x) : .apiMutex ∉ x.held := by
  cases h <;> simp

theorem Worker.wants_of_stateMutex (h : Worker x) (hs : .stateMutex ∈ x.held) : x.wants = none := by
  cases h <;> simp at hs <;> rfl

/-- What holds a slot waits for nothing or for `m_stateMutex`. -/
theorem Worker.wants_of_slot (h : Worker x) (hs : .slot s ∈ x.held) :
    x.wants = none ∨ x.wants = some .stateMutex := by
  cases h with
  | idle evs => simp at hs
  | waiting ev t evs => exact .inr rfl
  | _ => exact .inl rfl

end ConferenceCall

import ConferenceCall.Manager.Run
import ConferenceCall.Session.Workers

/-! Deadlock between Stop and the callbacks. The cleanup empties slots while it holds
`m_stateMutex`; most handlers take `m_stateMutex` while their slot is locked. There is no
deadlock in the runs in which no such handler is under way on a slot the cleanup has
still to empty. -/

namespace ConferenceCall

open Library

namespace System

/-- The application thread has still to empty the slot. -/
def owes (c : System) (s : Slot) : Prop := .lock (.slot s) ∈ (c.thread .application).code

/-- The cleanup starts to empty slots when no handler that waits for `m_stateMutex` is under
way on them; no handler that takes it is entered on a slot still to be emptied. -/
def orderly (c : System) : ThreadId → Prop
  | .application => (c.thread .application).code.head? = some (.act .cleanup) →
    ∀ n s, c.memory.manager.sweeps s → ¬Waits (c.thread (.library n)) s
  | .library n => ∀ ev s, (c.thread (.library n)).code.head? = some (.act (.invoke ev)) →
    ev.what.slot = some s → c.owes s → c.memory.enters ev = false

end System

/-! ### Every interleaving -/

namespace System

/-- The threads are where their code leads, and no handler that waits for `m_stateMutex` is
under way on a slot still to be emptied. -/
structure Safe (c : System) : Prop where
  application : Stopping (c.thread .application)
  library : ∀ n, Worker (c.thread (.library n))
  waits : ∀ n s, c.owes s → ¬Waits (c.thread (.library n)) s

variable {c c' : System}

theorem safe_initial (m : Manager) (work : ℕ → List Event) : (initial m work).Safe := by
  refine ⟨.calling, fun n => .idle (work n), fun n s ho => ?_⟩
  simp [owes, initial, stopCode] at ho

theorem Safe.step {t : ThreadId} (h : c.Safe) (hok : c.orderly t)
    (hs : Threads.Step Acts c t c') : c'.Safe := by
  obtain ⟨happ, hlib, hwaits⟩ := h
  obtain ⟨hadv, hother⟩ := hs
  cases t with
  | application =>
    have hsame (n : ℕ) : c'.thread (.library n) = c.thread (.library n) := hother _ (by simp)
    refine ⟨happ.advance hadv, fun n => by rw [hsame n]; exact hlib n, fun n s ho => ?_⟩
    rw [hsame n]
    rcases happ.owes_of_advance hadv ho with ho | ⟨hhead, hsweeps⟩
    · exact hwaits n s ho
    · exact hok hhead n s hsweeps
  | library n =>
    have hsame : c'.thread .application = c.thread .application := hother _ (by simp)
    have howes (s : Slot) : c'.owes s ↔ c.owes s := by rw [owes, owes, hsame]
    refine ⟨by rwa [hsame], fun k => ?_, fun k s ho hw => ?_⟩
    · by_cases hk : k = n
      · rw [hk]
        exact (hlib n).advance hadv
      · rw [hother _ (by simpa using hk)]
        exact hlib k
    · rw [howes] at ho
      by_cases hk : k = n
      · rw [hk] at hw
        rcases (hlib n).waits_of_advance hadv hw with hw | ⟨ev, hhead, hslot, henters⟩
        · exact hwaits n s ho hw
        · rw [hok ev s hhead hslot ho] at henters
          cases henters
      · rw [hother _ (by simpa using hk)] at hw
        exact hwaits k s ho hw

/-- Waiting for a slot, for `m_stateMutex`, in Stop, or not at all. -/
def rank (c : System) : ThreadId → ℕ
  | .application => if (c.thread .application).wants = none then 3 else 2
  | .library n => match (c.thread (.library n)).wants with
    | some (.slot _) => 0
    | some _ => 1
    | none => 3

theorem rank_application (c : System) : 2 ≤ c.rank .application := by
  rw [rank]
  split <;> omega

theorem rank_of_wants_none {n : ℕ} (h : (c.thread (.library n)).wants = none) :
    c.rank (.library n) = 3 := by rw [rank, h]

/-- A thread waits only for threads that are nearer to going on. -/
theorem Safe.rank_lt (h : c.Safe) {t t' : ThreadId} (hw : c.WaitsFor t t') :
    c.rank t < c.rank t' := by
  obtain ⟨hne, a, hwants, hheld⟩ := hw
  cases t with
  | application =>
    have ht : c.rank .application = 2 := by simp [rank, hwants]
    rw [ht]
    cases t' with
    | application => exact absurd rfl hne
    | library n =>
      have hw := h.library n
      have hnone : (c.thread (.library n)).wants = none := by
        cases a with
        | apiMutex => exact absurd hheld hw.apiMutex
        | stateMutex => exact hw.wants_of_stateMutex hheld
        | slot s =>
          refine (hw.wants_of_slot hheld).resolve_right fun hstate => ?_
          exact h.waits n s (Thread.lock_mem_of_wants hwants)
            ⟨hheld, Thread.lock_mem_of_wants hstate⟩
      rw [rank_of_wants_none hnone]
      omega
  | library n =>
    have happ := c.rank_application
    cases t' with
    | application =>
      have hn : c.rank (.library n) ≤ 1 := by
        rw [rank, hwants]
        cases a <;> simp
      omega
    | library k =>
      have hw := h.library k
      cases a with
      | apiMutex => exact absurd hheld hw.apiMutex
      | stateMutex =>
        rw [rank_of_wants_none (hw.wants_of_stateMutex hheld), rank, hwants]
        simp
      | slot s =>
        have hn : c.rank (.library n) = 0 := by rw [rank, hwants]
        rw [hn]
        rcases hw.wants_of_slot hheld with hk | hk <;> rw [rank, hk] <;> simp

/-- Stop and the callbacks do not deadlock in any interleaving in which no handler that
takes `m_stateMutex` is under way on a slot the cleanup has still to empty. -/
theorem stop_no_deadlock (m : Manager) (work : ℕ → List Event) (c : System)
    (h : Threads.Run Acts orderly (initial m work) c) : ¬c.Deadlock := by
  have hsafe : c.Safe := h.invariant (fun _ _ _ hc hok hs => hc.step hok hs) (safe_initial m work)
  exact Threads.not_deadlock_of_rank c.rank fun _ _ hw => hsafe.rank_lt hw

/-! ### One library thread -/

/-- A system in which at most the first library thread has something to do. -/
def pair (x y : Thread Mutex Action) (mem : Memory) : System where
  thread
    | .application => x
    | .library 0 => y
    | .library _ => ⟨[], []⟩
  memory := mem

variable {x x' y y' : Thread Mutex Action} {mem mem' : Memory}

theorem initial_pair (m : Manager) (evs : List Event) :
    initial m (fun n => if n = 0 then evs else []) =
      pair ⟨stopCode, []⟩ ⟨evs.flatMap invokeCode, []⟩ ⟨m, []⟩ := by
  simp only [initial, pair, Threads.mk.injEq, and_true]
  funext t
  rcases t with _ | _ | n <;> rfl

theorem free_application {a : Mutex} (h : a ∉ y.held) : (pair x y mem).free .application a := by
  intro t ht
  rcases t with _ | _ | n
  · exact absurd rfl ht
  · exact h
  · exact List.not_mem_nil

theorem free_library {a : Mutex} (h : a ∉ x.held) : (pair x y mem).free (.library 0) a := by
  intro t ht
  rcases t with _ | _ | n
  · exact h
  · exact absurd rfl ht
  · exact List.not_mem_nil

theorem step_application
    (h : x.Advance Acts ((pair x y mem).free .application) mem x' mem') :
    Threads.Step Acts (pair x y mem) .application (pair x' y mem') := by
  refine ⟨h, fun t ht => ?_⟩
  rcases t with _ | _ | n
  · exact absurd rfl ht
  · rfl
  · rfl

theorem step_library (h : y.Advance Acts ((pair x y mem).free (.library 0)) mem y' mem') :
    Threads.Step Acts (pair x y mem) (.library 0) (pair x y' mem') := by
  refine ⟨h, fun t ht => ?_⟩
  rcases t with _ | _ | n
  · rfl
  · exact absurd rfl ht
  · rfl

theorem acts_enter {ev : Event} (h : mem.enters ev) :
    Acts (.invoke ev) mem mem [.lock .stateMutex, .act (.handle ev), .unlock .stateMutex] := by
  obtain ⟨hi, hl⟩ := Bool.and_eq_true_iff.mp h
  have hact : Acts (.invoke ev) mem mem
      (if ev.what.slot.any mem.installed then handlerCode mem.manager ev else []) := .invoke
  rwa [if_pos hi, handlerCode, if_pos hl] at hact

/-- A session in which the room sends its media. -/
def joined : Manager := Opening.plain.after [(Signal.onRemoteSDP "room" "offer" "").event .calm]

/-- A track of the room arrives. -/
def roomTrack : Event := ⟨.track 1 ⟨0, "remote-video-96", "video"⟩, .calm⟩

/-- The library thread is in `addRemoteTrack` and has not taken `m_stateMutex` yet. -/
def trackWaiting : Thread Mutex Action :=
  ⟨[.lock .stateMutex, .act (.handle roomTrack), .unlock .stateMutex,
    .unlock (.slot (.track 1))], [.slot (.track 1)]⟩

/-- The library thread gets there before Stop is called. -/
theorem run_to_track (ok : System → ThreadId → Prop)
    (hok : ∀ y mem, ok (pair ⟨stopCode, []⟩ y mem) (.library 0)) :
    Threads.Run Acts ok (initial joined fun n => if n = 0 then [roomTrack] else [])
      (pair ⟨stopCode, []⟩ trackWaiting ⟨joined, []⟩) := by
  rw [initial_pair]
  have hlock : Threads.Step Acts
      (pair ⟨stopCode, []⟩ ⟨[roomTrack].flatMap invokeCode, []⟩ ⟨joined, []⟩)
      (.library 0) (pair ⟨stopCode, []⟩ ⟨[.act (.invoke roomTrack), .unlock (.slot (.track 1))],
        [.slot (.track 1)]⟩ ⟨joined, []⟩) :=
    step_library ⟨free_library (by simp), rfl, rfl⟩
  have henter : (Memory.mk joined []).enters roomTrack := by decide
  exact .step (.step .start (hok _ _) hlock) (hok _ _)
    (step_library ⟨_, acts_enter henter, rfl⟩)

/-- The track is being added when Stop is called; so far nothing is lost. -/
theorem track_stop_no_deadlock :
    ¬(pair ⟨[.act .stop, .unlock .apiMutex], [.apiMutex]⟩ trackWaiting ⟨joined, []⟩).Deadlock := by
  have hidle (s : Slot) (y : Thread Mutex Action) (mem : Memory) :
      ¬(pair ⟨stopCode, []⟩ y mem).owes s := by simp [owes, pair, stopCode]
  have hrun := run_to_track orderly fun y mem ev s _ _ ho => absurd ho (hidle s y mem)
  have hok : (pair ⟨stopCode, []⟩ trackWaiting ⟨joined, []⟩).orderly .application := by
    intro hhead
    simp [pair, stopCode] at hhead
  exact stop_no_deadlock joined (fun n => if n = 0 then [roomTrack] else []) _ (.step hrun hok
    (step_application ⟨free_application (by simp [trackWaiting]), rfl, rfl⟩))

/-- Stop takes `m_stateMutex` first: it waits for the slot, the handler for the mutex. -/
theorem stop_deadlocks : ¬ ∀ (o : Opening) (evs : List Event) (work : ℕ → List Event) (c : System),
    Threads.Run Acts (fun _ _ => True) (initial (o.after evs) work) c → ¬c.Deadlock := by
  intro h
  have hrun := run_to_track (fun _ _ => True) fun _ _ => trivial
  have happ {x x' : Thread Mutex Action} {mem mem' : Memory}
      (hr : Threads.Run Acts (fun _ _ => True)
        (initial joined fun n => if n = 0 then [roomTrack] else []) (pair x trackWaiting mem))
      (ha : x.Advance Acts ((pair x trackWaiting mem).free .application) mem x' mem') :
      Threads.Run Acts (fun _ _ => True)
        (initial joined fun n => if n = 0 then [roomTrack] else []) (pair x' trackWaiting mem') :=
    .step hr trivial (step_application ha)
  have hentered := happ hrun ⟨free_application (by simp [trackWaiting]), rfl, rfl⟩
  have hstop := happ hentered ⟨_, .stop, rfl⟩
  have hleft := happ hstop ⟨_, .leave, rfl⟩
  have hheld := happ hleft ⟨free_application (by simp [trackWaiting]), rfl, rfl⟩
  have hswept := happ hheld ⟨_, .cleanup [1, 0] (by decide), rfl⟩
  refine h _ _ _ _ hswept ⟨.application, .tail (.single (b := .library 0) ?_) ?_⟩
  · exact ⟨by decide, .slot (.track 1), rfl, by simp [pair, trackWaiting]⟩
  · exact ⟨by decide, .stateMutex, rfl, by simp [pair]⟩

end System

end ConferenceCall

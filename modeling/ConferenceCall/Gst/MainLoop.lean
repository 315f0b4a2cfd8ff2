import ConferenceCall.Gst.Pipelines

/-! The thread that `startAudioPlayer` creates, against the destructor of `GstManager`. The flag of
the loop is set when the thread enters it and cleared by the quit, so a quit that comes first is
lost and the destructor waits for a loop that nobody ends. -/

namespace ConferenceCall.Gst

open Library

/-- The thread that runs `mainLoop_`. -/
inductive MainThread where
  | absent | starting | looping | finished
  deriving DecidableEq

inductive Instr where
  | call (c : Call)
  | loopQuit
  | join
  | loopUnref

/-- `~GstManager`. -/
def destructor : List Instr :=
  [.call .stopVideo, .call .stopAudio, .call .stopAudioPlayer, .loopQuit, .join, .loopUnref]

/-- The thread of the API, with what it has left to do, and the thread of the loop. -/
structure Threads where
  world : World
  code : List Instr
  thread : MainThread := .absent
  /-- The flag of the `GMainLoop`. -/
  isRunning : Bool := false

namespace Threads

variable (qcs610 : Bool)

def callStep (c : Call) (code : List Instr) (s : Threads) : Threads :=
  let world := c.run qcs610 s.world
  { s with
    world, code
    thread := if world.manager.mainLoop && !s.world.manager.mainLoop then .starting else s.thread }

/-- `join` waits for a thread that has not finished. -/
def apiStep (s : Threads) : Threads :=
  match s.code with
  | [] => s
  | .call c :: code => s.callStep qcs610 c code
  | .loopQuit :: code =>
    if s.world.manager.mainLoop then { s with code, isRunning := false } else { s with code }
  | .join :: code =>
    match s.thread with
    | .absent => { s with code }
    | .finished => { s with code, thread := .absent }
    | .starting | .looping => s
  | .loopUnref :: code =>
    { s with
      code
      world := { s.world with manager := { s.world.manager with mainLoop := false } } }

/-- `g_main_loop_run` sets the flag when it is entered, and ends when it finds it cleared. -/
def mainStep (s : Threads) : Threads :=
  match s.thread with
  | .starting => { s with thread := .looping, isRunning := true }
  | .looping => if s.isRunning then s else { s with thread := .finished }
  | .absent | .finished => s

end Threads

/-- The thread that is scheduled. -/
inductive Turn where
  | api | main
  deriving DecidableEq

def threadStep (qcs610 : Bool) : Step Turn Threads Empty
  | .api, s => (s.apiStep qcs610, [])
  | .main, s => (s.mainStep, [])

namespace Threads

/-- A manager is about to be used and then destroyed. -/
def start (world : World) (calls : List Call) : Threads :=
  { world, code := calls.map .call ++ destructor }

/-- The destructor waits, past its quit, for a loop that is to run. -/
def Stuck (s : Threads) : Prop :=
  s.code.head? = some .join ∧ (s.thread = .starting ∨ s.thread = .looping ∧ s.isRunning = true)

/-- A quit comes after the thread has entered its loop. -/
def Entered (turn : Turn) (s : Threads) : Prop :=
  turn = .api → s.code.head? = some .loopQuit → s.thread ≠ .starting

variable {s : Threads} (qcs610 : Bool)

/-! ### What being stuck means -/

theorem code_of_head {i : Instr} (h : s.code.head? = some i) : ∃ code, s.code = i :: code := by
  cases hcode : s.code with
  | nil => simp [hcode] at h
  | cons j code =>
    rw [hcode, List.head?_cons, Option.some.injEq] at h
    exact ⟨code, by rw [h]⟩

theorem stuck_step (turn : Turn) (h : s.Stuck) : (threadStep qcs610 turn s).1.Stuck := by
  obtain ⟨hhead, hthread⟩ := h
  obtain ⟨code, hcode⟩ := code_of_head hhead
  cases turn with
  | api =>
    have hsame : s.apiStep qcs610 = s := by
      unfold apiStep
      rw [hcode]
      rcases hthread with hthread | ⟨hthread, -⟩ <;> simp only [hthread]
    change (s.apiStep qcs610).Stuck
    rw [hsame]
    exact ⟨hhead, hthread⟩
  | main =>
    change s.mainStep.Stuck
    unfold mainStep
    rcases hthread with hthread | ⟨hthread, hrunning⟩
    · simp only [hthread]
      exact ⟨hhead, .inr ⟨rfl, rfl⟩⟩
    · simp only [hthread, hrunning, if_true]
      exact ⟨hhead, .inr ⟨hthread, hrunning⟩⟩

/-- A destructor that is stuck stays so. -/
theorem stuck_forever (turns : List Turn) (h : s.Stuck) :
    ((threadStep qcs610).run turns s).1.Stuck :=
  Step.run_invariant (fun turn _ => stuck_step qcs610 turn) turns s h

/-- One that waits without being stuck gets on when the loop has had its turn. -/
theorem join_returns {code : List Instr} (hcode : s.code = .join :: code) (h : ¬s.Stuck) :
    ((threadStep qcs610).run [.main, .api] s).1.code = code := by
  rw [Stuck, hcode, List.head?_cons, not_and] at h
  have hthread := h rfl
  rw [not_or, not_and, Bool.not_eq_true] at hthread
  change (s.mainStep.apiStep qcs610).code = code
  cases hs : s.thread with
  | absent => simp only [mainStep, apiStep, hs, hcode]
  | starting => exact absurd hs hthread.1
  | looping => simp [mainStep, apiStep, hs, hcode, hthread.2 hs]
  | finished => simp only [mainStep, apiStep, hs, hcode]

end Threads

/-! ### The loop is made by the player's start and only given up by the destructor -/

section MainLoop
variable (w : World)

@[simp] theorem onPipeline_manager (pipeline : Option Handle) (f : Pipeline → Pipeline) :
    (w.onPipeline pipeline f).manager = w.manager := by
  cases pipeline <;> rfl

theorem setupSink_manager (pipeline : Option Handle) (name : String) (callback : SampleCallback) :
    (setupSink pipeline name callback w).manager = w.manager := by
  unfold setupSink
  split
  · rfl
  · exact onPipeline_manager w _ _

theorem addOverlayProbe_manager (qcs610 : Bool) (pipeline : Option Handle) :
    (addOverlayProbe qcs610 pipeline w).manager = w.manager := by
  unfold addOverlayProbe
  split_ifs
  · rfl
  · split
    · rfl
    · exact onPipeline_manager w _ _

theorem parseLaunch_mainLoop (medium : Medium) (desc : String) (launch : Launch) :
    (w.parseLaunch medium desc launch).manager.mainLoop = w.manager.mainLoop := by
  cases launch <;> rfl

theorem setupSinks_manager (medium : Medium) (sinks : List (String × SampleCallback)) :
    (sinks.foldl (fun w s => setupSink (w.manager.pipeline medium) s.1 s.2 w) w).manager =
      w.manager := by
  induction sinks generalizing w with
  | nil => rfl
  | cons s sinks ih => rw [List.foldl_cons, ih, setupSink_manager]

theorem startCapture_mainLoop (medium : Medium) (desc : GstManager → String)
    {prepare : Option Handle → World → World}
    (hprepare : ∀ pipeline w, (prepare pipeline w).manager = w.manager) (launch : Launch) :
    (startCapture medium desc prepare launch w).manager.mainLoop = w.manager.mainLoop := by
  unfold startCapture
  dsimp only
  split_ifs
  · rfl
  · exact parseLaunch_mainLoop w _ _ _
  · simp only [World.setState, onPipeline_manager, setupSinks_manager, hprepare,
      parseLaunch_mainLoop]

theorem stopCapture_mainLoop (medium : Medium) :
    (stopCapture medium w).manager.mainLoop = w.manager.mainLoop := by
  unfold stopCapture
  split <;> rfl

theorem run_mainLoop (qcs610 : Bool) (c : Call) (h : w.manager.mainLoop = true) :
    (c.run qcs610 w).manager.mainLoop = true := by
  cases c with
  | startVideo launch =>
    exact (startCapture_mainLoop w _ _
      (fun pipeline w => addOverlayProbe_manager w qcs610 pipeline) launch).trans h
  | startAudio launch => exact (startCapture_mainLoop w _ _ (fun _ _ => rfl) launch).trans h
  | startAudioPlayer launch =>
    change (startAudioPlayer launch w).manager.mainLoop = true
    unfold startAudioPlayer
    dsimp only
    split_ifs with hsome hloop
    · exact h
    · exact hloop
    · rfl
  | stopVideo => exact (stopCapture_mainLoop w _).trans h
  | stopAudio => exact (stopCapture_mainLoop w _).trans h
  | stopAudioPlayer =>
    change (stopAudioPlayer w).manager.mainLoop = true
    unfold stopAudioPlayer
    split
    · exact h
    · exact h

end MainLoop

namespace Threads

variable {s : Threads} (qcs610 : Bool)

/-- Before the quit, a loop that is there has a thread that is to enter it or runs it. -/
def Used (s : Threads) : Prop :=
  (∃ calls : List Call, s.code = calls.map .call ++ [.loopQuit, .join, .loopUnref]) ∧
    if s.world.manager.mainLoop then s.thread = .starting ∨ s.thread = .looping ∧ s.isRunning = true
    else s.thread = .absent

/-- After a quit that was not lost. -/
def Quit (s : Threads) : Prop :=
  s.code ∈ [[.join, .loopUnref], [.loopUnref], []] ∧ s.thread ≠ .starting ∧
    (s.thread = .looping → s.isRunning = false)

theorem start_used (width height fps videoBitrate : ℤ) (videoSSRC audioSSRC : ℕ)
    (calls : List Call) :
    (start (.fresh width height fps videoBitrate videoSSRC audioSSRC) calls).Used :=
  ⟨⟨calls ++ [.stopVideo, .stopAudio, .stopAudioPlayer], by simp [start, destructor]⟩, rfl⟩

theorem Quit.not_stuck (h : s.Quit) : ¬s.Stuck := by
  rintro ⟨-, hthread | ⟨hthread, hrunning⟩⟩
  · exact h.2.1 hthread
  · exact Bool.false_ne_true ((h.2.2 hthread).symm.trans hrunning)

theorem Used.not_stuck (h : s.Used) : ¬s.Stuck := by
  rintro ⟨hhead, -⟩
  obtain ⟨⟨_ | ⟨c, calls⟩, hcode⟩, -⟩ := h <;> simp [hcode] at hhead

theorem Quit.step (h : s.Quit) (turn : Turn) : (threadStep qcs610 turn s).1.Quit := by
  obtain ⟨hcode, hstarting, hrunning⟩ := h
  cases turn with
  | api =>
    change (s.apiStep qcs610).Quit
    unfold apiStep
    simp only [List.mem_cons, List.not_mem_nil, or_false] at hcode
    rcases hcode with hcode | hcode | hcode <;> simp only [hcode]
    · cases hthread : s.thread with
      | absent => exact ⟨by simp, by simp, by simp⟩
      | starting => exact absurd hthread hstarting
      | looping => exact ⟨by simp [hcode], hstarting, hrunning⟩
      | finished => exact ⟨by simp, by simp, by simp⟩
    · exact ⟨by simp, hstarting, hrunning⟩
    · exact ⟨by simp [hcode], hstarting, hrunning⟩
  | main =>
    change s.mainStep.Quit
    unfold mainStep
    cases hthread : s.thread with
    | absent => exact ⟨hcode, hstarting, hrunning⟩
    | starting => exact absurd hthread hstarting
    | looping =>
      simp only [hrunning hthread, Bool.false_eq_true, if_false]
      exact ⟨hcode, by simp, by simp⟩
    | finished => exact ⟨hcode, hstarting, hrunning⟩

theorem Used.main (h : s.Used) : s.mainStep.Used := by
  obtain ⟨hcode, hthread⟩ := h
  unfold mainStep
  split_ifs at hthread with hloop
  · rcases hthread with hthread | ⟨hthread, hrunning⟩
    · simp only [hthread]
      exact ⟨hcode, by simp [hloop]⟩
    · simp only [hthread, hrunning, if_true]
      exact ⟨hcode, by simp [hloop, hthread, hrunning]⟩
  · simp only [hthread]
    exact ⟨hcode, by simp [hloop, hthread]⟩

theorem Used.call {c : Call} {calls : List Call}
    (hcode : s.code = (c :: calls).map .call ++ [.loopQuit, .join, .loopUnref])
    (h : s.Used) : (s.apiStep qcs610).Used := by
  have hthread := h.2
  unfold apiStep
  simp only [hcode, List.map_cons, List.cons_append, callStep]
  refine ⟨⟨calls, rfl⟩, ?_⟩
  split_ifs at hthread with hloop
  · simpa [run_mainLoop _ qcs610 c hloop, hloop] using hthread
  · simp only [hloop, Bool.not_false, Bool.and_true]
    split_ifs with hnew
    · exact .inl rfl
    · exact hthread

/-- The step of the destructor that decides. -/
theorem Used.quit (hcode : s.code = [.loopQuit, .join, .loopUnref]) (h : s.Used) :
    (¬(s.apiStep qcs610).Stuck ↔ s.thread ≠ .starting) ∧
      (s.thread ≠ .starting → (s.apiStep qcs610).Quit) := by
  have hthread := h.2
  have hquit : s.thread ≠ .starting → (s.apiStep qcs610).Quit := by
    intro hne
    unfold apiStep
    simp only [hcode]
    split_ifs at hthread ⊢
    · exact ⟨by simp, hne, fun _ => rfl⟩
    · exact ⟨by simp, hne, by simp [hthread]⟩
  refine ⟨⟨fun hstuck hstarting => hstuck ?_, fun hne => (hquit hne).not_stuck⟩, hquit⟩
  unfold apiStep
  simp only [hcode]
  split_ifs
  · exact ⟨rfl, .inl hstarting⟩
  · exact ⟨rfl, .inl hstarting⟩

/-- One turn gets the destructor stuck exactly when the quit comes before the loop is entered. -/
theorem turn_iff (turn : Turn) (h : s.Used ∨ s.Quit) :
    (¬(threadStep qcs610 turn s).1.Stuck ↔ s.Entered turn) ∧
      (s.Entered turn →
        (threadStep qcs610 turn s).1.Used ∨ (threadStep qcs610 turn s).1.Quit) := by
  rcases h with h | h
  · cases turn with
    | main => exact ⟨iff_of_true h.main.not_stuck nofun, fun _ => .inl h.main⟩
    | api =>
      obtain ⟨⟨_ | ⟨c, calls⟩, hcode⟩, -⟩ := id h
      · have hentered : s.Entered .api ↔ s.thread ≠ .starting := by
          simp [Entered, hcode]
        rw [hentered]
        exact (h.quit qcs610 hcode).imp_right fun hquit hne => .inr (hquit hne)
      · have hused := h.call qcs610 hcode
        exact ⟨iff_of_true hused.not_stuck (by simp [Entered, hcode]), fun _ => .inl hused⟩
  · have hquit := h.step qcs610 turn
    refine ⟨iff_of_true hquit.not_stuck ?_, fun _ => .inr hquit⟩
    rintro - hhead
    have hcode := h.1
    simp only [List.mem_cons, List.not_mem_nil, or_false] at hcode
    rcases hcode with hcode | hcode | hcode <;> simp [hcode] at hhead

/-- For every sequence of calls before the destructor and every schedule. -/
theorem never_stuck_iff (width height fps videoBitrate : ℤ) (videoSSRC audioSSRC : ℕ)
    (calls : List Call) (turns : List Turn) :
    (∀ l, l <+: turns → ¬((threadStep qcs610).run l
      (start (.fresh width height fps videoBitrate videoSSRC audioSSRC) calls)).1.Stuck) ↔
      (threadStep qcs610).Along Entered turns
        (start (.fresh width height fps videoBitrate videoSSRC audioSSRC) calls) := by
  have hused := start_used width height fps videoBitrate videoSSRC audioSSRC calls
  refine (Step.along_after_iff (P := fun s : Threads => ¬s.Stuck) turns _ hused.not_stuck).symm.trans
    (Step.along_iff (I := fun s : Threads => s.Used ∨ s.Quit) ?_ ?_ turns _ (.inl hused))
  · exact fun turn s h hentered => (turn_iff qcs610 turn h).2 hentered
  · exact fun turn s h => (turn_iff qcs610 turn h).1

/-- A connection that fails: the player is started, stopped and destroyed before its thread runs. -/
theorem failed_connection_blocks :
    ¬∀ l, l <+: List.replicate 6 .api → ¬((threadStep false).run l
      (start (.fresh 720 480 30 1000000 42 43)
        [.startAudioPlayer .pipeline, .stopAudioPlayer])).1.Stuck := by
  intro h
  exact h _ List.prefix_rfl ⟨rfl, .inl rfl⟩

end Threads

end ConferenceCall.Gst

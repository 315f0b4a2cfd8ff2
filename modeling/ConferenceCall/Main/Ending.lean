import ConferenceCall.Library.Turns
import ConferenceCall.Main.Lines

/-! The end of the process. Once the flag is cleared, the main thread comes to the stop, or the
process is over before, when both threads keep getting through with their steps, whatever else
happens. Nothing is said of the stop itself, which may hang. -/

namespace ConferenceCall.Main

open Library Console

/-- What a step does to the process apart from the manager. -/
inductive Moves : Happening → Process → Process → Prop
  | rests {h : Happening} {s : Process} (hover : s.main.over) : Moves h s s
  | configured {s : Process} {c : Setting} {rest : List Setting} (manager : Option Manager)
    (hm : s.main = .configuring (c :: rest)) :
    Moves .main s { s with manager, main := .configuring rest }
  | started {s : Process} (manager : Option Manager) (hm : s.main = .configuring []) :
    Moves .main s { s with manager, main := .serving, console := .checking }
  | failed {s : Process} (manager : Option Manager) {place : MainThread} (hover : place.over)
    (hm : s.main = .configuring []) :
    Moves .main s { s with manager, main := place, console := .absent }
  | looked {s : Process} (hm : s.main = .serving) :
    Moves .main s { s with main := if s.appRunning then .serving else .joining }
  | waited {s : Process} (hm : s.main = .joining) (hc : s.console ≠ .ended) : Moves .main s s
  | stopped {s : Process} (manager : Option Manager) (hm : s.main = .joining)
    (hc : s.console = .ended) : Moves .main s { s with manager, main := .exited 0 }
  | idle {s : Process} {input : Option Chunk} {date : String}
    (hc : s.console = .absent ∨ s.console = .ended) : Moves (.console input date) s s
  | checked {s : Process} {input : Option Chunk} {date : String} (hc : s.console = .checking) :
    Moves (.console input date) s { s with console := if s.appRunning then .polling else .ended }
  | polled {s : Process} {date : String} (hc : s.console = .polling) :
    Moves (.console none date) s { s with console := .checking }
  | read {s : Process} {chunk : Chunk} {date : String} (hc : s.console = .polling) :
    Moves (.console (some chunk) date) s
      { s with lineBuffer := s.lineBuffer ++ cString (chunk.bytes ++ [0]), console := .passing }
  | emptied {s : Process} {input : Option Chunk} {date : String} (hc : s.console = .passing) :
    Moves (.console input date) s { s with console := .checking }
  | passed {s : Process} {input : Option Chunk} {date : String} (manager : Option Manager)
    {pos : ℕ} {running : Bool} {place : MainThread} (hc : s.console = .passing)
    (hpos : pos < s.lineBuffer.length) (hrunning : s.appRunning = false → running = false)
    (hplace : place = s.main ∨ place = .aborted) :
    Moves (.console input date) s
      { s with appRunning := running, manager, main := place,
               lineBuffer := s.lineBuffer.drop (pos + 1) }
  | signal {s : Process} : Moves .signal s { s with appRunning := false }
  | callback {s : Process} {cb : Callback} (manager : Option Manager) :
    Moves (.callback cb) s { s with manager }

variable {p : Launch} {h : Happening} {s s' : Process} {e : Env}

theorem mainTurn_moves (p : Launch) (e : Env) (s : Process) : Moves .main s (mainTurn p e s).1 := by
  cases hm : s.main with
  | configuring rest =>
    cases rest with
    | nil =>
      simp only [mainTurn, hm, startTurn]
      rcases (WebRTC_Start2WayCommunication p.isPlayer e s.manager).value with _ | _ | _
      · exact .failed _ rfl hm
      · exact .failed _ rfl hm
      · exact .started _ hm
    | cons c rest =>
      simp only [mainTurn, hm]
      exact .configured _ hm
  | serving =>
    simp only [mainTurn, hm]
    exact .looked hm
  | joining =>
    cases hc : s.console with
    | ended =>
      have hstopped := Moves.stopped (WebRTC_Stop2WayCommunication e s.manager).state hm hc
      simpa only [mainTurn, hm, hc] using hstopped
    | _ =>
      simp only [mainTurn, hm, hc]
      exact .waited hm (by simp [hc])
  | exited code =>
    simp only [mainTurn, hm]
    exact .rests (by simp [hm, MainThread.over])
  | aborted =>
    simp only [mainTurn, hm]
    exact .rests (by simp [hm, MainThread.over])

theorem passLine_moves (hc : s.console = .passing) (input : Option Chunk) (date : String) (e : Env) :
    Moves (.console input date) s (passLine date e s).1 := by
  cases hpos : s.lineBuffer.idxOf? newline with
  | none =>
    simp only [passLine, hpos]
    exact .emptied hc
  | some pos =>
    obtain ⟨hlt, -⟩ := List.idxOf?_eq_some_iff.mp hpos
    simp only [passLine, hpos, onLine]
    split_ifs
    · exact .passed s.manager hc hlt id (.inl rfl)
    · exact .passed s.manager hc hlt (fun _ => rfl) (.inl rfl)
    · exact .passed _ hc hlt id (Process.after_main _ _)

theorem consoleTurn_moves (input : Option Chunk) (date : String) (e : Env) (s : Process) :
    Moves (.console input date) s (consoleTurn input date e s).1 := by
  cases hc : s.console with
  | absent =>
    simp only [consoleTurn, hc]
    exact .idle (.inl hc)
  | ended =>
    simp only [consoleTurn, hc]
    exact .idle (.inr hc)
  | checking =>
    simp only [consoleTurn, hc]
    exact .checked hc
  | polling =>
    cases input <;> simp only [consoleTurn, hc]
    · exact .polled hc
    · exact .read hc
  | passing =>
    simp only [consoleTurn, hc]
    exact passLine_moves hc input date e

/-- Every step is one of the moves. -/
theorem processStep_moves (p : Launch) (i : Timed Happening) (s : Process) :
    Moves i.what s (processStep p i s).1 := by
  obtain ⟨what, e⟩ := i
  cases hover : s.main.over with
  | true =>
    rw [processStep_over hover]
    exact .rests hover
  | false =>
    rw [processStep_running hover]
    cases what with
    | main => exact mainTurn_moves p e s
    | console input date => exact consoleTurn_moves input date e s
    | signal => exact .signal
    | callback cb =>
      cases hg : s.manager with
      | none =>
        simp only [turn, callbackTurn, hg]
        exact .callback s.manager
      | some m =>
        simp only [turn, callbackTurn, hg]
        exact .callback _

/-! ### What is left to do -/

/-- The settings that are left, and the start. -/
def settingsLeft (s : Process) : ℕ :=
  match s.main with
  | .configuring rest => rest.length + 1
  | _ => 0

/-- What the thread of the console has still to do. A poll may find another chunk. -/
def linesLeft (s : Process) : ℕ :=
  if s.main.over then 0 else
    match s.console with
    | .absent | .ended => 0
    | .checking => 1
    | .passing => s.lineBuffer.length + 2
    | .polling => s.lineBuffer.length + bufSize + 3

/-- Whether the main thread has still to see that the flag is cleared. -/
def stopLeft (s : Process) : ℕ :=
  match s.main with
  | .serving => 1
  | _ => 0

theorem settingsLeft_over (hover : s.main.over) : settingsLeft s = 0 := by
  unfold settingsLeft
  cases hm : s.main <;> simp_all [MainThread.over]

theorem stopLeft_over (hover : s.main.over) : stopLeft s = 0 := by
  unfold stopLeft
  cases hm : s.main <;> simp_all [MainThread.over]

/-- A chunk fits into the buffer. -/
theorem cString_length (chunk : Chunk) : (cString (chunk.bytes ++ [0])).length ≤ bufSize := by
  have htake : (cString (chunk.bytes ++ [0])).length ≤ (chunk.bytes ++ [0]).length :=
    (List.takeWhile_sublist _).length_le
  have hfits := chunk.fits
  rw [List.length_append, List.length_singleton] at htake
  simp only [bufSize] at hfits ⊢
  omega

namespace Moves

/-- The flag stays cleared. -/
theorem cleared (hm : Moves h s s') (hs : s.appRunning = false) : s'.appRunning = false := by
  cases hm with
  | passed _ _ _ hrunning _ => exact hrunning hs
  | signal => rfl
  | _ => exact hs

/-- A main thread that serves or joins has the thread of the console beside it. -/
theorem beside (hm : Moves h s s') (hs : s.main = .serving ∨ s.main = .joining → s.console ≠ .absent)
    (hs' : s'.main = .serving ∨ s'.main = .joining) : s'.console ≠ .absent := by
  cases hm with
  | configured | stopped => simp at hs'
  | failed _ hover _ => rcases hs' with rfl | rfl <;> cases hover
  | started | read => simp
  | looked hmain => exact hs (.inl hmain)
  | checked => dsimp only; split_ifs <;> simp
  | polled | emptied => simp
  | passed _ hc _ _ _ => simp [hc]
  | _ => exact hs hs'

/-- A turn of the main thread applies a setting, or starts. -/
theorem settingsLeft_main (hm : Moves .main s s') : settingsLeft s' ≤ settingsLeft s - 1 := by
  cases hm with
  | rests hover => simp [settingsLeft_over hover]
  | configured manager hmain => simp [settingsLeft, hmain]
  | started manager hmain => simp [settingsLeft]
  | @failed _ manager place hover hmain =>
    have hzero : settingsLeft { s with manager, main := place, console := .absent } = 0 :=
      settingsLeft_over hover
    exact hzero.trans_le (Nat.zero_le _)
  | looked hmain =>
    rw [settingsLeft]
    dsimp only
    split_ifs <;> simp
  | waited hmain hc => simp [settingsLeft, hmain]
  | stopped manager hmain hc => simp [settingsLeft]

theorem settingsLeft_le (hm : Moves h s s') : settingsLeft s' ≤ settingsLeft s := by
  cases h with
  | main => exact hm.settingsLeft_main.trans (Nat.sub_le _ _)
  | console input date =>
    cases hm with
    | passed _ _ _ _ hplace => rcases hplace with rfl | rfl <;> simp [settingsLeft]
    | _ => exact le_rfl
  | signal => cases hm <;> exact le_rfl
  | callback cb => cases hm <;> exact le_rfl

/-- A turn of the thread of the console takes a line or comes nearer to the flag. -/
theorem linesLeft_console {input : Option Chunk} {date : String}
    (hm : Moves (.console input date) s s') (hs : s.appRunning = false) :
    linesLeft s' ≤ linesLeft s - 1 := by
  cases hm with
  | rests hover => simp [linesLeft, hover]
  | idle hc => rcases hc with hc | hc <;> simp [linesLeft, hc]
  | checked hc => simp [linesLeft, hs]
  | polled hc =>
    simp only [linesLeft, hc]
    split_ifs
    · exact le_rfl
    · omega
  | @read _ chunk _ hc =>
    have hlength := cString_length chunk
    simp only [linesLeft, hc, List.length_append]
    split_ifs
    · exact le_rfl
    · omega
  | emptied hc =>
    simp only [linesLeft, hc]
    split_ifs
    · exact le_rfl
    · omega
  | passed _ hc hpos _ hplace =>
    rcases hplace with rfl | rfl
    · simp only [linesLeft, hc, List.length_drop]
      split_ifs
      · exact le_rfl
      · omega
    · exact Nat.zero_le _

/-- Nobody else gives the thread of the console more to do. -/
theorem linesLeft_le (hm : Moves h s s') (hset : settingsLeft s = 0) (hs : s.appRunning = false) :
    linesLeft s' ≤ linesLeft s := by
  cases h with
  | main =>
    cases hm with
    | configured _ hmain | started _ hmain | failed _ _ hmain => simp [settingsLeft, hmain] at hset
    | looked hmain => simp [linesLeft, hmain, hs, MainThread.over]
    | stopped => exact Nat.zero_le _
    | _ => exact le_rfl
  | console input date => exact (hm.linesLeft_console hs).trans (Nat.sub_le _ _)
  | signal => cases hm <;> exact le_rfl
  | callback cb => cases hm <;> exact le_rfl

/-- A turn of the main thread leaves the loop. -/
theorem stopLeft_main (hm : Moves .main s s') (hset : settingsLeft s = 0)
    (hs : s.appRunning = false) : stopLeft s' ≤ stopLeft s - 1 := by
  cases hm with
  | rests hover => simp [stopLeft_over hover]
  | configured _ hmain | started _ hmain | failed _ _ hmain => simp [settingsLeft, hmain] at hset
  | looked hmain => simp [stopLeft, hmain, hs]
  | waited hmain hc => simp [stopLeft, hmain]
  | stopped manager hmain hc => simp [stopLeft]

theorem stopLeft_le (hm : Moves h s s') (hset : settingsLeft s = 0) : stopLeft s' ≤ stopLeft s := by
  cases h with
  | main =>
    cases hm with
    | configured _ hmain | started _ hmain | failed _ _ hmain => simp [settingsLeft, hmain] at hset
    | looked hmain =>
      rw [stopLeft, stopLeft, hmain]
      dsimp only
      split_ifs <;> simp
    | stopped manager hmain hc => simp [stopLeft]
    | _ => exact le_rfl
  | console input date =>
    cases hm with
    | passed _ _ _ _ hplace => rcases hplace with rfl | rfl <;> simp [stopLeft]
    | _ => exact le_rfl
  | signal => cases hm <;> exact le_rfl
  | callback cb => cases hm <;> exact le_rfl

/-- The thread of the console stays where it ended. -/
theorem ended (hm : Moves h s s') (hset : settingsLeft s = 0) (hc : s.console = .ended) :
    s'.console = .ended := by
  cases hm with
  | started _ hmain | failed _ _ hmain => simp [settingsLeft, hmain] at hset
  | checked hc' | polled hc' | read hc' | emptied hc' => simp [hc] at hc'
  | _ => exact hc

end Moves

/-- The main thread is at the stop, its console joined, or the process is over. -/
def Process.Done (s : Process) : Prop :=
  s.main = .joining ∧ s.console = .ended ∨ s.main.over

/-! ### Runs without end -/

/-- A turn of the thread of the console. -/
def Happening.isConsole : Happening → Prop
  | .console _ _ => True
  | _ => False

/-- The process after the first `n` happenings. -/
def moment (p : Launch) (x : ℕ → Timed Happening) (n : ℕ) : Process :=
  ((processStep p).run ((List.range n).map x) (boot p)).1

section
variable {x : ℕ → Timed Happening} {n : ℕ}

theorem moment_moves (p : Launch) (x : ℕ → Timed Happening) (n : ℕ) :
    Moves (x n).what (moment p x n) (moment p x (n + 1)) := by
  have hnext : moment p x (n + 1) = (processStep p (x n) (moment p x n)).1 := by
    rw [moment, List.range_succ, List.map_append, Step.run_append]
    rfl
  rw [hnext]
  exact processStep_moves p (x n) _

/-- A main thread that serves or joins has the thread of the console beside it. -/
theorem moment_beside (p : Launch) (x : ℕ → Timed Happening) (n : ℕ)
    (hm : (moment p x n).main = .serving ∨ (moment p x n).main = .joining) :
    (moment p x n).console ≠ .absent := by
  induction n with
  | zero =>
    have hboot : (moment p x 0).main = (boot p).main := rfl
    rw [hboot, boot] at hm
    split_ifs at hm <;> simp at hm
  | succ n ih => exact (moment_moves p x n).beside ih hm

/-- The rest of the settings and the start, then the lines that were read, then the join. -/
theorem done_of_recurs (hmain : Recurs fun n => (x n).what = .main)
    (hconsole : Recurs fun n => (x n).what.isConsole) (hn : (moment p x n).appRunning = false) :
    ∃ k, (moment p x k).Done := by
  have hmoves (k : ℕ) : Moves (x k).what (moment p x k) (moment p x (k + 1)) := moment_moves p x k
  have hcleared : ∀ k, n ≤ k → (moment p x k).appRunning = false := fun k =>
    Recurs.kept (P := fun k => (moment p x k).appRunning = false) (fun k _ => (hmoves k).cleared) hn
  obtain ⟨k₁, hk₁, hset⟩ := hmain.exists_zero (r := fun k => settingsLeft (moment p x k)) (n := n)
    (fun k _ => (hmoves k).settingsLeft_le) fun k _ hturn hpos => by
      have hlower := (hturn ▸ hmoves k).settingsLeft_main
      omega
  have hconfigured : ∀ k, k₁ ≤ k → settingsLeft (moment p x k) = 0 := fun k hk =>
    Nat.le_zero.mp ((Recurs.antitone (r := fun k => settingsLeft (moment p x k))
      (fun k _ => (hmoves k).settingsLeft_le) hk).trans_eq hset)
  obtain ⟨k₂, hk₂, hlines⟩ := hconsole.exists_zero (r := fun k => linesLeft (moment p x k)) (n := k₁)
    (fun k hk => (hmoves k).linesLeft_le (hconfigured k hk) (hcleared k (by omega)))
    fun k hk hturn hpos => by
      have hmove := hmoves k
      cases hwhat : (x k).what with
      | console input date =>
        have hlower := (hwhat ▸ hmove).linesLeft_console (hcleared k (by omega))
        omega
      | _ => simp [hwhat, Happening.isConsole] at hturn
  by_cases hover : (moment p x k₂).main.over
  · exact ⟨k₂, .inr hover⟩
  have hended : (moment p x k₂).console = .ended := by
    have hset₂ := hconfigured k₂ hk₂
    have hbeside := moment_beside p x k₂
    cases hm : (moment p x k₂).main with
    | configuring rest => simp [settingsLeft, hm] at hset₂
    | serving | joining =>
      have hpresent := hbeside (by simp [hm])
      cases hc : (moment p x k₂).console <;> simp_all [linesLeft, MainThread.over]
    | exited code | aborted => simp [hm, MainThread.over] at hover
  have hstays : ∀ k, k₂ ≤ k → (moment p x k).console = .ended := fun k =>
    Recurs.kept (P := fun k => (moment p x k).console = .ended)
      (fun k hk => (hmoves k).ended (hconfigured k (by omega))) hended
  obtain ⟨k₃, hk₃, hstop⟩ := hmain.exists_zero (r := fun k => stopLeft (moment p x k)) (n := k₂)
    (fun k hk => (hmoves k).stopLeft_le (hconfigured k (by omega))) fun k hk hturn hpos => by
      have hlower := (hturn ▸ hmoves k).stopLeft_main (hconfigured k (by omega))
        (hcleared k (by omega))
      omega
  have hset₃ := hconfigured k₃ (by omega)
  refine ⟨k₃, ?_⟩
  cases hm : (moment p x k₃).main with
  | configuring rest => simp [settingsLeft, hm] at hset₃
  | serving => simp [stopLeft, hm] at hstop
  | joining => exact .inl ⟨hm, hstays k₃ hk₃⟩
  | exited code | aborted => exact .inr (by simp [hm, MainThread.over])

/-- Once the flag is cleared, the main thread comes to the stop, or the process is over before,
whatever the console, the libraries and the system do: unless each of its two threads gets through
with finitely many steps only without coming there. -/
theorem stop_reached (p : Launch) (x : ℕ → Timed Happening)
    (hmain : (∀ k, ¬(moment p x k).Done) → Recurs fun n => (x n).what = .main)
    (hconsole : (∀ k, ¬(moment p x k).Done) → Recurs fun n => (x n).what.isConsole)
    (hn : (moment p x n).appRunning = false) : ∃ k, (moment p x k).Done := by
  by_contra hnever
  have hgoes : ∀ k, ¬(moment p x k).Done := not_exists.mp hnever
  exact hnever (done_of_recurs (hmain hgoes) (hconsole hgoes) hn)

end

/-- The handler of a signal is through before the start. -/
def signalled (n : ℕ) : Timed Happening :=
  ⟨if n = 5 then .signal else if n % 2 = 0 then .main else .console none "", .calm⟩

theorem stop_reached_signalled :
    ∃ k, (moment ⟨some "ws", [], true, 7⟩ signalled k).Done := by
  refine stop_reached ⟨some "ws", [], true, 7⟩ signalled (fun _ n => ⟨2 * n, by omega, ?_⟩)
    (fun _ n => ⟨2 * n + 7, by omega, ?_⟩) (n := 6) (by decide +kernel)
  · have hne : 2 * n ≠ 5 := by omega
    simp [signalled, hne]
  · simp [signalled, Happening.isConsole]

end ConferenceCall.Main

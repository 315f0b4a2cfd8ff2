import ConferenceCall.Main.Threads

/-! What becomes of the lines on standard input. Every line of what was read is passed on once and
in order, before the thread of the console ends; after the one that quits nothing is read. -/

namespace ConferenceCall.Main

open Library Console

variable {p : Launch} {i : Timed Happening} {s t : Process} {o o' : List Doing}

section Doings

theorem reads_append (o o' : List Doing) : reads (o ++ o') = reads o ++ reads o' :=
  List.filterMap_append

theorem chats_append (o o' : List Doing) : chats (o ++ o') = chats o ++ chats o' :=
  List.filterMap_append

theorem reads_read (o : List Doing) (chunk : Chunk) :
    reads (o ++ [.read chunk]) = reads o ++ [chunk] := reads_append ..

@[simp] theorem reads_library (l : List Invocation) : reads (l.map .library) = [] := by
  simp [reads]

@[simp] theorem chats_library (l : List Invocation) : chats (l.map .library) = [] := by
  simp [chats]

theorem texts_append (l l' : List Bytes) : texts (l ++ l') = texts l ++ texts l' :=
  List.filter_append ..

theorem received_append (l l' : List Chunk) : received (l ++ l') = received l ++ received l' :=
  List.flatMap_append

theorem received_singleton (chunk : Chunk) : received [chunk] = cString (chunk.bytes ++ [0]) :=
  List.append_nil _

theorem lines_of_not_mem {s : Bytes} (h : newline ∉ s) : lines s = [] := by
  rw [lines, Lines.ended_of_not_mem h]
  rfl

/-- The lines of what was read first are passed on first. -/
theorem lines_first (l l' : List Chunk) : lines (received l) <+: lines (received (l ++ l')) := by
  rw [received_append, lines_append]
  exact List.prefix_append ..

/-- The line that is taken from the buffer. -/
theorem lines_take {b : Bytes} {pos : ℕ} (h : b.idxOf? newline = some pos) :
    lines b = (if (b.take pos).isEmpty then [] else [b.take pos]) ++ lines (b.drop (pos + 1)) ∧
      Lines.rest newline (b.drop (pos + 1)) = Lines.rest newline b := by
  obtain ⟨hpos, hb, hfirst⟩ := List.idxOf?_eq_some_iff.mp h
  have hsplit : b.take pos ++ newline :: b.drop (pos + 1) = b := by
    rw [← hb, List.cons_getElem_drop_succ, List.take_append_drop]
  have hnot : newline ∉ b.take pos := by
    intro hmem
    obtain ⟨j, hj, heq⟩ := List.mem_take_iff_getElem.mp hmem
    exact hfirst j (by omega) heq
  have hended := Lines.ended_segment hnot (b.drop (pos + 1))
  have hrest := Lines.rest_segment hnot (b.drop (pos + 1))
  rw [hsplit] at hended hrest
  refine ⟨?_, hrest.symm⟩
  rw [lines, hended]
  cases b.take pos <;> simp [lines]

end Doings

/-- What was read, passed on and kept. -/
structure Passing (s : Process) (o : List Doing) : Prop where
  passed : ∃ l, lines (received (reads o)) = l ++ lines s.lineBuffer ∧ chats o = texts l ∧
    (quitText ∈ l → s.appRunning = false ∧ s.console ≠ .polling)
  rest : Lines.rest newline s.lineBuffer = Lines.rest newline (received (reads o))
  /-- Only the inner loop has a line to pass on. -/
  clean : s.console ≠ .passing → newline ∉ s.lineBuffer
  absent : ∀ rest, s.main = .configuring rest → s.console = .absent
  ended : s.main = .exited 0 → s.console = .ended
  last : ∀ before chunk after, reads o = before ++ chunk :: after →
    quitText ∈ lines (received (before ++ [chunk])) → after = []

namespace Passing

/-- A step that neither reads nor passes on. -/
theorem quiet (h : Passing s o) (hreads : reads o' = []) (hchats : chats o' = [])
    (hbuffer : t.lineBuffer = s.lineBuffer) (hrunning : s.appRunning = false → t.appRunning = false)
    (hconsole : t.console = s.console) (habsent : ∀ rest, t.main = .configuring rest →
      s.console = .absent) (hended : t.main = .exited 0 → s.console = .ended) :
    Passing t (o ++ o') where
  passed := by
    obtain ⟨l, hl, htexts, hquit⟩ := h.passed
    refine ⟨l, ?_, ?_, fun hq => ?_⟩
    · rw [reads_append, hreads, List.append_nil, hbuffer, hl]
    · rw [chats_append, hchats, List.append_nil, htexts]
    · rw [hconsole]
      exact ⟨hrunning (hquit hq).1, (hquit hq).2⟩
  rest := by rw [reads_append, hreads, List.append_nil, hbuffer, h.rest]
  clean := by rw [hconsole, hbuffer]; exact h.clean
  absent := fun rest hm => hconsole.trans (habsent rest hm)
  ended := fun hm => hconsole.trans (hended hm)
  last := by rw [reads_append, hreads, List.append_nil]; exact h.last

/-- The thread of the console moves on. -/
theorem moved (h : Passing s o) {t : ConsoleThread} (hclean : t ≠ .passing → newline ∉ s.lineBuffer)
    (hpolling : t = .polling → s.appRunning = true)
    (hmain : ∀ rest, s.main ≠ .configuring rest) (hended : s.main ≠ .exited 0) :
    Passing { s with console := t } (o ++ []) where
  passed := by
    obtain ⟨l, hl, htexts, hquit⟩ := h.passed
    rw [List.append_nil]
    refine ⟨l, hl, htexts, fun hq => ⟨(hquit hq).1, fun hc => ?_⟩⟩
    rw [hpolling hc] at hquit
    cases (hquit hq).1
  rest := by rw [List.append_nil]; exact h.rest
  clean := hclean
  absent := fun rest hm => absurd hm (hmain rest)
  ended := fun hm => absurd hm hended
  last := by rw [List.append_nil]; exact h.last

/-- A chunk is read only as long as nothing has quit. -/
theorem read (h : Passing s o) (hc : s.console = .polling) (chunk : Chunk) :
    Passing { s with
      lineBuffer := s.lineBuffer ++ cString (chunk.bytes ++ [0]), console := .passing }
      (o ++ [.read chunk]) where
  passed := by
    obtain ⟨l, hl, htexts, hquit⟩ := h.passed
    have hclean : newline ∉ s.lineBuffer := h.clean (by simp [hc])
    refine ⟨l, ?_, ?_, fun hq => absurd hc (hquit hq).2⟩
    · rw [reads_read, received_append, received_singleton, lines_append, hl, ← h.rest,
        Lines.rest_of_not_mem hclean, lines_of_not_mem hclean, List.append_nil]
    · rw [chats_append, htexts]
      exact List.append_nil _
  rest := by
    rw [reads_read, received_append, received_singleton, Lines.rest_append, h.rest, ← Lines.rest_append]
  clean := fun hne => absurd rfl hne
  absent := fun rest hm => by
    have habsent := h.absent rest hm
    rw [hc] at habsent
    cases habsent
  ended := fun hm => by
    have hended := h.ended hm
    rw [hc] at hended
    cases hended
  last := by
    obtain ⟨l, hl, -, hquit⟩ := h.passed
    have hclean : newline ∉ s.lineBuffer := h.clean (by simp [hc])
    have hnone : quitText ∉ lines (received (reads o)) := by
      rw [hl, lines_of_not_mem hclean, List.append_nil]
      exact fun hq => (hquit hq).2 hc
    intro before chunk' after hreads hq
    rw [reads_read] at hreads
    by_contra hafter
    obtain ⟨after', last, rfl⟩ := (List.eq_nil_or_concat after).resolve_left hafter
    have hsplit : reads o ++ [chunk] = (before ++ chunk' :: after') ++ [last] := by
      simpa using hreads
    have hbefore := List.append_inj_left' hsplit rfl
    have hfirst := (lines_first (before ++ [chunk']) after').subset hq
    rw [List.append_assoc, List.singleton_append, ← hbefore] at hfirst
    exact hnone hfirst

/-- A line leaves the buffer, with what is done about it. -/
theorem taken (h : Passing s o) (hc : s.console = .passing) {pos : ℕ}
    (hpos : s.lineBuffer.idxOf? newline = some pos) (ht : t.lineBuffer = s.lineBuffer.drop (pos + 1))
    (hconsole : t.console = .passing) (hmain : t.main = s.main ∨ t.main = .aborted)
    (hreads : reads o' = [])
    (hchats : chats o' =
      texts (if (s.lineBuffer.take pos).isEmpty then [] else [s.lineBuffer.take pos]))
    (hrunning : s.appRunning = false ∨ s.lineBuffer.take pos = quitText → t.appRunning = false) :
    Passing t (o ++ o') where
  passed := by
    obtain ⟨l, hl, htexts, hquit⟩ := h.passed
    refine ⟨l ++ if (s.lineBuffer.take pos).isEmpty then [] else [s.lineBuffer.take pos], ?_, ?_,
      fun hq => ⟨hrunning ?_, by simp [hconsole]⟩⟩
    · rw [reads_append, hreads, List.append_nil, hl, (lines_take hpos).1, ht, List.append_assoc]
    · rw [chats_append, hchats, htexts, texts_append]
    · rcases List.mem_append.mp hq with hq | hq
      · exact .inl (hquit hq).1
      · split_ifs at hq
        · cases hq
        · exact .inr (List.mem_singleton.mp hq).symm
  rest := by rw [reads_append, hreads, List.append_nil, ht, (lines_take hpos).2, h.rest]
  clean := fun hne => absurd hconsole hne
  absent := fun rest hm => by
    rcases hmain with hmain | hmain
    · have habsent := h.absent rest (hmain ▸ hm)
      rw [hc] at habsent
      cases habsent
    · rw [hm] at hmain
      cases hmain
  ended := fun hm => by
    rcases hmain with hmain | hmain
    · have hended := h.ended (hmain ▸ hm)
      rw [hc] at hended
      cases hended
    · rw [hm] at hmain
      cases hmain
  last := by rw [reads_append, hreads, List.append_nil]; exact h.last

theorem passLine (h : Passing s o) (hc : s.console = .passing)
    (hover : s.main.over = false) (date : String) (e : Env) :
    Passing (Main.passLine date e s).1 (o ++ (Main.passLine date e s).2) := by
  have hmain : ∀ rest, s.main ≠ .configuring rest := fun rest hm => by
    have habsent := h.absent rest hm
    rw [hc] at habsent
    cases habsent
  have hexited : s.main ≠ .exited 0 := fun hm => by simp [hm, MainThread.over] at hover
  cases hpos : s.lineBuffer.idxOf? newline with
  | none =>
    have hclean : newline ∉ s.lineBuffer := List.idxOf?_eq_none_iff.mp hpos
    simp only [Main.passLine, hpos]
    exact h.moved (fun _ => hclean) (by simp) hmain hexited
  | some pos =>
    have htaken := fun (t : Process) (o' : List Doing) => @taken s t o o' h hc pos hpos
    simp only [Main.passLine, hpos]
    split_ifs with hempty
    · refine htaken _ _ rfl hc (.inl rfl) rfl (by simp [hempty, chats, texts]) fun hr => ?_
      refine hr.resolve_right fun hq => ?_
      rw [hq] at hempty
      exact absurd hempty (by decide)
    · rw [onLine]
      split_ifs with hq
      · exact htaken _ _ rfl hc (.inl rfl) rfl (by simp [hq, chats, texts]) fun _ => rfl
      · refine htaken _ _ rfl hc ?_ ?_ ?_ fun hr => hr.resolve_right hq
        · exact Process.after_main _ _
        · exact reads_library _
        · rw [if_neg hempty, texts, List.filter_cons_of_pos (by simpa using hq)]
          exact congrArg (List.cons _) (chats_library _)

theorem consoleTurn (h : Passing s o) (hover : s.main.over = false) (input : Option Chunk)
    (date : String) (e : Env) : Passing (Main.consoleTurn input date e s).1
      (o ++ (Main.consoleTurn input date e s).2) := by
  have hexited : s.main ≠ .exited 0 := fun hm => by simp [hm, MainThread.over] at hover
  have hmain (hc : s.console ≠ .absent) : ∀ rest, s.main ≠ .configuring rest :=
    fun rest hm => hc (h.absent rest hm)
  have hsame : Passing s (o ++ []) := by rwa [List.append_nil]
  cases hc : s.console with
  | absent | ended => simpa only [Main.consoleTurn, hc] using hsame
  | checking =>
    have hclean : newline ∉ s.lineBuffer := h.clean (by simp [hc])
    simp only [Main.consoleTurn, hc]
    refine h.moved (fun _ => hclean) (fun hp => ?_) (hmain (by simp [hc])) hexited
    by_contra hrunning
    simp [hrunning] at hp
  | polling =>
    have hclean : newline ∉ s.lineBuffer := h.clean (by simp [hc])
    cases input with
    | none =>
      simp only [Main.consoleTurn, hc]
      exact h.moved (fun _ => hclean) (by simp) (hmain (by simp [hc])) hexited
    | some chunk =>
      simp only [Main.consoleTurn, hc]
      exact h.read hc chunk
  | passing =>
    simp only [Main.consoleTurn, hc]
    exact h.passLine hc hover date e

theorem mainTurn (h : Passing s o) (e : Env) :
    Passing (Main.mainTurn p e s).1 (o ++ (Main.mainTurn p e s).2) := by
  have hsame : Passing s (o ++ []) := by rwa [List.append_nil]
  cases hm : s.main with
  | configuring rest =>
    have habsent := h.absent rest hm
    cases rest with
    | nil =>
      simp only [Main.mainTurn, hm, startTurn]
      have hclean : newline ∉ s.lineBuffer := h.clean (by simp [habsent])
      rcases (WebRTC_Start2WayCommunication p.isPlayer e s.manager).value with _ | _ | _
      · exact h.quiet (reads_library _) (chats_library _) rfl id habsent.symm (by simp) (by simp)
      · exact h.quiet (reads_library _) (chats_library _) rfl id habsent.symm (by simp) (by simp)
      · have hstarted : Passing { s with
            manager := (WebRTC_Start2WayCommunication p.isPlayer e s.manager).state, main := .serving }
            (o ++ (WebRTC_Start2WayCommunication p.isPlayer e s.manager).calls.map .library) :=
          h.quiet (reads_library _) (chats_library _) rfl id rfl (by simp) (by simp)
        have hmoved := hstarted.moved (t := .checking) (fun _ => hclean) (by simp) (by simp) (by simp)
        rwa [List.append_nil] at hmoved
    | cons c rest =>
      simp only [Main.mainTurn, hm]
      exact h.quiet (reads_library _) (chats_library _) rfl id rfl (fun _ _ => habsent) (by simp)
  | serving =>
    simp only [Main.mainTurn, hm]
    refine h.quiet rfl rfl rfl id rfl (fun rest hr => ?_) fun hr => ?_
    · split_ifs at hr
    · split_ifs at hr
  | joining =>
    cases hc : s.console with
    | ended =>
      simp only [Main.mainTurn, hm, hc]
      exact h.quiet (reads_library _) (chats_library _) rfl id hc.symm (by simp) fun _ => hc
    | _ => simpa only [Main.mainTurn, hm, hc] using hsame
  | exited code => simpa only [Main.mainTurn, hm] using hsame
  | aborted => simpa only [Main.mainTurn, hm] using hsame

/-- Every step keeps account of the lines. -/
theorem step (h : Passing s o) (i : Timed Happening) :
    Passing (processStep p i s).1 (o ++ (processStep p i s).2) := by
  cases hover : s.main.over with
  | true =>
    rw [processStep_over hover, List.append_nil]
    exact h
  | false =>
    obtain ⟨what, e⟩ := i
    rw [processStep_running hover]
    cases what with
    | main => exact h.mainTurn e
    | console input date => exact h.consoleTurn hover input date e
    | signal => exact h.quiet rfl rfl rfl (fun _ => rfl) rfl h.absent h.ended
    | callback cb =>
      cases hg : s.manager with
      | none => simpa [turn, callbackTurn, hg] using h
      | some m =>
        simp only [turn, callbackTurn, hg]
        exact h.quiet (reads_library _) (chats_library _) rfl id rfl h.absent h.ended

end Passing

theorem passing_boot (p : Launch) : Passing (boot p) [] := by
  rw [boot]
  split_ifs
  · exact ⟨⟨[], rfl, rfl, by simp⟩, rfl, by simp, by simp, by simp, by simp [reads]⟩
  · exact ⟨⟨[], rfl, rfl, by simp⟩, rfl, by simp, by simp, by simp, by simp [reads]⟩

/-- Whatever the threads, the signals and the callbacks do in which order: the chat messages are the
lines of what was read, without those that quit and those that are still to be passed on; nothing is
left to pass on when the process ends properly; a line that quits is in the last chunk that is
read. -/
theorem console_passes (p : Launch) (l : List (Timed Happening)) :
    let r := (processStep p).run l (boot p)
    chats r.2 ++ texts (lines r.1.lineBuffer) = texts (lines (received (reads r.2))) ∧
    (r.1.main = .exited 0 → lines r.1.lineBuffer = []) ∧
    ∀ before chunk after, reads r.2 = before ++ chunk :: after →
      quitText ∈ lines (received (before ++ [chunk])) → after = [] := by
  intro r
  have hrun : Passing r.1 ([] ++ r.2) :=
    Step.run_records (fun i s o h (_ : True) => h.step i) l _ [] (passing_boot p)
      fun _ _ _ _ => trivial
  obtain ⟨k, hk, htexts, -⟩ := hrun.passed
  refine ⟨?_, fun hm => lines_of_not_mem (hrun.clean (by simp [hrun.ended hm])), hrun.last⟩
  rw [List.nil_append] at hk htexts
  rw [hk, htexts, texts_append]

/-- A session that the console ends, with a line behind the one that quits. -/
def quitting : List (Timed Happening) :=
  [.main, .main, .main, .main, .main, .console none "", .console (some
    ⟨[104, 105, 10, 113, 117, 105, 116, 10, 104, 111, 10], by decide, by decide⟩) "",
    .console none "", .console none "", .console none "", .console none "", .console none "",
    .main, .main].map (⟨·, .calm⟩)

/-- Nothing is left; the line behind the one that quits was passed on. -/
theorem console_passes_quitting :
    lines ((processStep ⟨some "ws", [], true, 7⟩).run quitting (boot ⟨some "ws", [], true, 7⟩)).1.lineBuffer =
      [] :=
  (console_passes ⟨some "ws", [], true, 7⟩ quitting).2.1 (by decide +kernel)

example : chats ((processStep ⟨some "ws", [], true, 7⟩).run quitting
    (boot ⟨some "ws", [], true, 7⟩)).2 = [[104, 105], [104, 111]] := by decide +kernel

end ConferenceCall.Main

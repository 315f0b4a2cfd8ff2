import ConferenceCall.Main.Lines
import ConferenceCall.Session.Ownership

/-! The manager of the process. Whatever the order of the threads, it is configured, sees one start,
then callbacks and chat messages only, and one stop. What was shown about the runs of a session
holds of the process. -/

namespace ConferenceCall.Main

open Library Console

variable {p : Launch} {s t : Process} {o o' : List Doing}

section Doings

theorem calls_append (o o' : List Doing) : calls (o ++ o') = calls o ++ calls o' :=
  List.filterMap_append

@[simp] theorem calls_library (l : List Invocation) : calls (l.map .library) = l := by
  induction l with
  | nil => rfl
  | cons c l ih => exact congrArg (List.cons c) ih

end Doings

/-- What reaches the manager of the process during the session. -/
def served : Input → Prop
  | .callback _ | .api (.sendChatMessage _ _) => True
  | _ => False

/-- The text of a chat message. -/
def chatOf : Timed Input → Option String
  | ⟨.api (.sendChatMessage text _), _⟩ => some text
  | _ => none

/-- The text the manager gets. -/
def textOf (line : Bytes) : String := (ofUtf8 line).getD ""

/-- The bytes of the text decide whether the dump throws. -/
def dumping (e : Env) (line : Bytes) : Env :=
  { e with throws := Function.update e.throws .chatDump (ofUtf8 line).isNone }

/-- A line is a chat message to the manager. -/
theorem sendChatBytes_input (line : Bytes) (date : String) (e : Env) (m : Manager) :
    sendChatBytes line date e m = sendChatMessage (textOf line) date (dumping e line) m := by
  have hbytes : sendChatBytes line date e m = sendChatBytes line date (dumping e line) m := by
    have hsend : (dumping e line).throws .chatSend = e.throws .chatSend := by simp [dumping]
    have hisOpen : (dumping e line).isOpen = e.isOpen := rfl
    cases hrunning : m.isCommunicating && m.wsOpen with
    | false => simp [sendChatBytes, hrunning]
    | true =>
      cases htext : ofUtf8 line <;> cases hdc : m.localDataChannels.lookup m.publishStreamId <;>
        simp [sendChatBytes, hrunning, htext, hdc, hisOpen, call_apply, hsend]
  rw [hbytes]
  exact sendChatBytes_eq line date (by simp [dumping])

/-- A callback finds nothing on a manager that was only configured. -/
theorem deliver_configured (cb : Callback) (e : Env) (url room stream : String) :
    deliver cb e (.configured url room stream) = ⟨some (), .configured url room stream, []⟩ := by
  cases cb <;> simp [deliver, Manager.configured, Manager.connected, Manager.signaling,
    Manager.captured, Manager.announces, Manager.updatePeer]

/-- A session of the process and what has reached its manager. -/
structure SessionOf (p : Launch) (o : List Doing) (op : Opening) (l : List (Timed Input)) :
    Prop where
  before : op.before = .configured p.amsUrl "room1" p.streamId
  isPlayer : op.isPlayer = p.isPlayer
  inputs : ∀ i ∈ l, served i.what
  lines : l.filterMap chatOf = (chats o).map textOf

/-- The manager runs the session. -/
def Running (p : Launch) (s : Process) (o : List Doing) : Prop :=
  ∃ op l, SessionOf p o op l ∧ s.manager = some (inputStep.run l op.state).1 ∧
    calls o = op.calls ++ (inputStep.run l op.state).2

/-- The session was stopped, all its connections are closed. -/
def Stopped (p : Launch) (s : Process) (o : List Doing) : Prop :=
  ∃ op l e, SessionOf p o op l ∧
    s.manager = some (stop2WayCommunication e (inputStep.run l op.state).1).state ∧
    calls o = op.calls ++ (inputStep.run l op.state).2 ++
      (stop2WayCommunication e (inputStep.run l op.state).1).calls ∧
    ∀ m ∈ s.manager, m.isCommunicating = false ∧ ∀ peer ∈ m.peers, peer.closeCalled = true

/-- The manager was configured so far, and the rest of the settings completes it. -/
structure Configuring (p : Launch) (rest : List Setting) (s : Process) (o : List Doing) : Prop where
  manager : s.manager = none ∨ ∃ url room stream, s.manager = some (.configured url room stream)
  completes : ∀ e, Setting.applyAll rest e s.manager =
    ⟨some (), some (.configured p.amsUrl "room1" p.streamId), []⟩
  noChats : chats o = []
  noCalls : calls o = []

/-- What is true of the manager where the main thread is. -/
structure Standing (p : Launch) (s : Process) (o : List Doing) : Prop where
  configuring : ∀ rest, s.main = .configuring rest → Configuring p rest s o
  running : s.main = .serving ∨ s.main = .joining → Running p s o
  stopped : s.main = .exited 0 → Stopped p s o

section Parts

theorem SessionOf.append {op : Opening} {l l' : List (Timed Input)} (h : SessionOf p o op l)
    (hserved : ∀ i ∈ l', served i.what) (hchats : l'.filterMap chatOf = (chats o').map textOf) :
    SessionOf p (o ++ o') op (l ++ l') where
  before := h.before
  isPlayer := h.isPlayer
  inputs := fun i hi => (List.mem_append.mp hi).elim (h.inputs i) (hserved i)
  lines := by rw [List.filterMap_append, h.lines, hchats, chats_append, List.map_append]

/-- The manager goes on by an input, or by none. -/
theorem Running.inputs (h : Running p s o) (l' : List (Timed Input))
    (hserved : ∀ i ∈ l', served i.what) (hchats : l'.filterMap chatOf = (chats o').map textOf)
    (hmanager : ∀ m, s.manager = some m → t.manager = some (inputStep.run l' m).1 ∧
      calls o' = (inputStep.run l' m).2) : Running p t (o ++ o') := by
  obtain ⟨op, l, hsession, hm, hcalls⟩ := h
  obtain ⟨hm', hcalls'⟩ := hmanager _ hm
  refine ⟨op, l ++ l', hsession.append hserved hchats, ?_, ?_⟩
  · rw [Step.run_append, hm']
  · rw [calls_append, hcalls, hcalls', Step.run_append, List.append_assoc]

theorem Running.quiet (h : Running p s o) (hmanager : t.manager = s.manager)
    (hchats : chats o' = []) (hcalls : calls o' = []) : Running p t (o ++ o') := by
  refine h.inputs [] (by simp) (by simp [hchats]) fun m hm => ⟨hmanager.trans hm, hcalls⟩

theorem Running.callback (h : Running p s o) (cb : Callback) (e : Env) :
    Running p (callbackTurn cb e s).1 (o ++ (callbackTurn cb e s).2) := by
  cases hm : s.manager with
  | none =>
    simp only [callbackTurn, hm]
    exact h.quiet rfl rfl rfl
  | some m =>
    simp only [callbackTurn, hm]
    refine h.inputs [⟨.callback cb, e⟩] (by simp [served]) (by simp [chatOf]) fun m' hm' => ?_
    obtain rfl : m = m' := Option.some.inj (hm.symm.trans hm')
    rw [calls_library, Step.run_cons, Step.run_nil, List.append_nil]
    exact ⟨rfl, rfl⟩

theorem Running.line (h : Running p s o) (line : Bytes) (date : String) (e : Env) :
    Running p (onLine line date e s).1 (o ++ (onLine line date e s).2) := by
  rw [onLine]
  split_ifs
  · exact h.quiet rfl rfl rfl
  · refine h.inputs [⟨.api (.sendChatMessage (textOf line) date), dumping e line⟩] (by simp [served])
      ?_ fun m hm => ?_
    · simp [chatOf, chats]
    · have hsend := sendChatBytes_input line date e m
      have hcalls (l : List Invocation) : calls (Doing.chat line :: l.map .library) = l :=
        calls_library l
      simp only [Process.after, hm, ifInstance, Step.run_cons, Step.run_nil, List.append_nil, hcalls,
        hsend]
      exact ⟨rfl, rfl⟩

/-- The thread of the console sends chat messages or leaves the manager alone. -/
theorem Running.console (h : Running p s o) (input : Option Chunk) (date : String) (e : Env) :
    Running p (consoleTurn input date e s).1 (o ++ (consoleTurn input date e s).2) := by
  cases hc : s.console with
  | absent | ended | checking =>
    simp only [consoleTurn, hc]
    exact h.quiet rfl rfl rfl
  | polling =>
    cases input <;>
    · simp only [consoleTurn, hc]
      exact h.quiet rfl rfl rfl
  | passing =>
    simp only [consoleTurn, hc, passLine]
    cases hpos : s.lineBuffer.idxOf? newline with
    | none => exact h.quiet rfl rfl rfl
    | some pos =>
      have hs : Running p { s with
          console := .passing, lineBuffer := s.lineBuffer.drop (pos + 1) } (o ++ []) :=
        h.quiet rfl rfl rfl
      rw [List.append_nil] at hs
      dsimp only
      split_ifs
      · exact h.quiet rfl rfl rfl
      · exact hs.line _ date e

/-- One setting after the other. -/
theorem Configuring.set {c : Setting} {rest : List Setting} (h : Configuring p (c :: rest) s o)
    (e : Env) :
    Configuring p rest { s with manager := (c.apply e s.manager).state, main := .configuring rest }
      (o ++ (c.apply e s.manager).calls.map .library) := by
  have hset : ∃ g, (∀ e, c.apply e s.manager = ⟨some (), g, []⟩) ∧
      (g = none ∨ ∃ url room stream, g = some (.configured url room stream)) := by
    rcases h.manager with hm | ⟨url, room, stream, hm⟩ <;> rw [hm]
    · cases c with
      | init => exact ⟨_, fun _ => rfl, .inr ⟨"", "room1", "", rfl⟩⟩
      | setSignalingServerURL url => exact ⟨_, fun _ => rfl, .inr ⟨url, "room1", "", rfl⟩⟩
      | setRoomId roomId => exact ⟨_, fun _ => rfl, .inl rfl⟩
      | setStreamId streamId => exact ⟨_, fun _ => rfl, .inl rfl⟩
    · cases c with
      | init => exact ⟨_, fun _ => rfl, .inr ⟨url, room, stream, rfl⟩⟩
      | setSignalingServerURL url' => exact ⟨_, fun _ => rfl, .inr ⟨url', room, stream, rfl⟩⟩
      | setRoomId roomId => exact ⟨_, fun _ => rfl, .inr ⟨url, roomId, stream, rfl⟩⟩
      | setStreamId streamId => exact ⟨_, fun _ => rfl, .inr ⟨url, room, streamId, rfl⟩⟩
  obtain ⟨g, hg, hmanager⟩ := hset
  have hcompletes : ∀ e, Setting.applyAll rest e g =
      ⟨some (), some (.configured p.amsUrl "room1" p.streamId), []⟩ := by
    intro e
    have hall := h.completes e
    rwa [Setting.applyAll, Act.bind_apply, hg e] at hall
  rw [hg e]
  exact ⟨hmanager, hcompletes, by simpa using h.noChats, by simpa using h.noCalls⟩

/-- A callback changes nothing before the start. -/
theorem Configuring.callback {rest : List Setting} (h : Configuring p rest s o) (cb : Callback)
    (e : Env) : callbackTurn cb e s = (s, []) := by
  rcases h.manager with hm | ⟨url, room, stream, hm⟩
  · simp only [callbackTurn, hm]
  · simp only [callbackTurn, hm, deliver_configured, List.map_nil]
    rw [← hm]

theorem Configuring.configured (h : Configuring p [] s o) :
    s.manager = some (.configured p.amsUrl "room1" p.streamId) :=
  congrArg Outcome.state (h.completes .calm)

/-- A start that returns true begins the session. -/
theorem Configuring.start (h : Configuring p [] s o) (e : Env)
    (hv : (WebRTC_Start2WayCommunication p.isPlayer e s.manager).value = some true)
    (hm : t.manager = (WebRTC_Start2WayCommunication p.isPlayer e s.manager).state) :
    Running p t (o ++ (WebRTC_Start2WayCommunication p.isPlayer e s.manager).calls.map .library) := by
  rw [h.configured] at hv hm ⊢
  let op : Opening := ⟨.configured p.amsUrl "room1" p.streamId, p.isPlayer, e, idle_new .., hv⟩
  refine ⟨op, [], ⟨rfl, rfl, by simp, ?_⟩, hm, ?_⟩
  · simp [chats_append, h.noChats]
  · rw [calls_append, h.noCalls, calls_library, List.nil_append]
    exact (List.append_nil _).symm

theorem served_inSession {own room : String} {m : Manager} (h : InSession own room m)
    {i : Timed Input} (hi : served i.what) : InSession own room (inputStep i m).1 := by
  obtain ⟨what, e⟩ := i
  rcases what with cb | call
  · exact h.after_step ⟨cb, e⟩
  · cases call with
    | sendChatMessage text date =>
      have hstate : m = (sendChatMessage text date e m).state := (sendChatMessage_within text date e m).1
      change InSession own room (sendChatMessage text date e m).state
      rwa [← hstate]
    | _ => exact hi.elim

/-- The manager is in its session, and its maps know the connections. -/
theorem SessionOf.inSession {op : Opening} {l : List (Timed Input)} (h : SessionOf p o op l) :
    InSession op.own op.room (inputStep.run l op.state).1 ∧ (inputStep.run l op.state).1.Linked := by
  constructor
  · refine Step.run_preserves (I := InSession op.own op.room)
      (fun i m hm hi => served_inSession hm hi) l _ op.inSession ?_
    rintro l₁ i l₂ rfl
    exact h.inputs i (by simp)
  · have hbefore : op.before.Linked := by
      rw [h.before]
      exact Manager.Linked.new.congr rfl rfl rfl
    have hstate : op.state.Linked := (Effects.start op.isPlayer op.env op.before).1.invariant
      (fun _ _ he hm => Manager.Linked.effect hm he) hbefore
    exact run_effects (fun _ _ he hm => Manager.Linked.effect hm he) l hstate

/-- The stop closes every connection. -/
theorem Running.stop (h : Running p s o) (e : Env)
    (hm : t.manager = (WebRTC_Stop2WayCommunication e s.manager).state) :
    Stopped p t (o ++ (WebRTC_Stop2WayCommunication e s.manager).calls.map .library) := by
  obtain ⟨op, l, hsession, hmanager, hcalls⟩ := h
  obtain ⟨hin, hlinked⟩ := hsession.inSession
  rw [hmanager] at hm ⊢
  have hstop : t.manager = some (stop2WayCommunication e (inputStep.run l op.state).1).state := hm
  have hsame : SessionOf p (o ++ (WebRTC_Stop2WayCommunication e s.manager).calls.map .library)
      op (l ++ []) := hsession.append (by simp) (by simp)
  rw [List.append_nil, hmanager] at hsame
  refine ⟨op, l, e, hsame, hstop, ?_, fun m hmem => ?_⟩
  · rw [calls_append, hcalls, calls_library]
    rfl
  · rw [hstop, stop2WayCommunication_apply hin.isCommunicating, Option.mem_some_iff] at hmem
    subst hmem
    refine ⟨rfl, fun peer hpeer => ?_⟩
    obtain ⟨pc, hpc⟩ := List.mem_iff_getElem?.mp hpeer
    have hstored := hlinked.cleared.stored pc peer hpc
    by_contra hopen
    have hlookup := hstored.mp (by simpa using hopen)
    simp [Manager.cleared] at hlookup

theorem Standing.mainTurn (h : Standing p s o) (e : Env) :
    Standing p (Main.mainTurn p e s).1 (o ++ (Main.mainTurn p e s).2) := by
  cases hm : s.main with
  | configuring rest =>
    have hconfiguring := h.configuring rest hm
    cases rest with
    | nil =>
      simp only [Main.mainTurn, hm, startTurn]
      cases hv : (WebRTC_Start2WayCommunication p.isPlayer e s.manager).value with
      | none => exact ⟨by simp, by simp, by simp⟩
      | some started =>
        cases started with
        | false => exact ⟨by simp, by simp, by simp⟩
        | true => exact ⟨by simp, fun _ => hconfiguring.start e hv rfl, by simp⟩
    | cons c rest =>
      simp only [Main.mainTurn, hm]
      refine ⟨fun rest' hr => ?_, by simp, by simp⟩
      cases hr
      exact hconfiguring.set e
  | serving =>
    have hrunning := h.running (.inl hm)
    simp only [Main.mainTurn, hm]
    refine ⟨fun rest hr => ?_, fun _ => hrunning.quiet rfl rfl rfl, fun hr => ?_⟩ <;> split_ifs at hr
  | joining =>
    have hrunning := h.running (.inr hm)
    have hsame : Standing p s (o ++ []) := by rwa [List.append_nil]
    cases hc : s.console with
    | ended =>
      simp only [Main.mainTurn, hm, hc]
      exact ⟨by simp, by simp, fun _ => hrunning.stop e rfl⟩
    | _ => simpa only [Main.mainTurn, hm, hc] using hsame
  | exited code => simpa only [Main.mainTurn, hm, List.append_nil] using h
  | aborted => simpa only [Main.mainTurn, hm, List.append_nil] using h

theorem consoleTurn_main (input : Option Chunk) (date : String) (e : Env) (s : Process) :
    (consoleTurn input date e s).1.main = s.main ∨
      (consoleTurn input date e s).1.main = .aborted := by
  cases hc : s.console with
  | absent | ended | checking => exact .inl (by simp [consoleTurn, hc])
  | polling => cases input <;> exact .inl (by simp [consoleTurn, hc])
  | passing =>
    simp only [consoleTurn, hc, passLine]
    cases s.lineBuffer.idxOf? newline with
    | none => exact .inl rfl
    | some pos =>
      dsimp only
      split_ifs
      · exact .inl rfl
      · rw [onLine]
        split_ifs
        · exact .inl rfl
        · exact Process.after_main _ _

theorem Standing.consoleTurn (h : Standing p s o) (hp : Passing s o) (hover : s.main.over = false)
    (input : Option Chunk) (date : String) (e : Env) :
    Standing p (Main.consoleTurn input date e s).1
      (o ++ (Main.consoleTurn input date e s).2) := by
  have hmain := consoleTurn_main input date e s
  refine ⟨fun rest hr => ?_, fun hr => ?_, fun hr => ?_⟩
  · have hm : s.main = .configuring rest := by
      rcases hmain with hmain | hmain <;> rw [hmain] at hr
      · exact hr
      · cases hr
    have habsent := hp.absent rest hm
    simp only [Main.consoleTurn, habsent, List.append_nil]
    exact h.configuring rest hm
  · have hm : s.main = .serving ∨ s.main = .joining := by
      rcases hmain with hmain | hmain <;> rw [hmain] at hr
      · exact hr
      · exact absurd hr (by simp)
    exact (h.running hm).console input date e
  · rcases hmain with hmain | hmain <;> rw [hmain] at hr
    · rw [hr] at hover
      cases hover
    · cases hr

/-- Every step keeps the standing. -/
theorem Standing.step (h : Standing p s o) (hp : Passing s o) (i : Timed Happening) :
    Standing p (processStep p i s).1 (o ++ (processStep p i s).2) := by
  cases hover : s.main.over with
  | true =>
    rw [processStep_over hover, List.append_nil]
    exact h
  | false =>
    have hexited : s.main ≠ .exited 0 := fun hm => by simp [hm, MainThread.over] at hover
    obtain ⟨what, e⟩ := i
    rw [processStep_running hover]
    cases what with
    | main => exact h.mainTurn e
    | console input date => exact h.consoleTurn hp hover input date e
    | signal =>
      refine ⟨fun rest hr => ?_, fun hr => (h.running hr).quiet rfl rfl rfl,
        fun hr => absurd hr hexited⟩
      obtain ⟨hm, hc, hchats, hcalls⟩ := h.configuring rest hr
      exact ⟨hm, hc, by rwa [turn, List.append_nil], by rwa [turn, List.append_nil]⟩
    | callback cb =>
      have hmain : (callbackTurn cb e s).1.main = s.main := by
        unfold callbackTurn
        cases s.manager <;> rfl
      refine ⟨fun rest hr => ?_, fun hr => ?_, fun hr => absurd (hmain ▸ hr) hexited⟩
      · have hconfiguring := h.configuring rest (hmain ▸ hr)
        rw [turn, hconfiguring.callback cb e, List.append_nil]
        exact hconfiguring
      · exact (h.running (hmain ▸ hr)).callback cb e

end Parts

/-- The process from the start to any moment, whatever the threads, the signals and the callbacks do
in which order: while it serves, its manager is in one session, with the address of the environment,
in the room `room1` and under its own id, and has seen nothing but callbacks and, in their order, the
lines that were passed on; when it has ended properly, this session was stopped once and every
connection is closed. -/
theorem one_session (p : Launch) (l : List (Timed Happening)) :
    let r := (processStep p).run l (boot p)
    (r.1.main = .serving ∨ r.1.main = .joining → Running p r.1 r.2) ∧
      (r.1.main = .exited 0 → Stopped p r.1 r.2) := by
  intro r
  have hboot : Standing p (boot p) [] := by
    rw [boot]
    split_ifs
    · exact ⟨by simp, by simp, by simp⟩
    · refine ⟨fun rest hr => ?_, by simp, by simp⟩
      cases hr
      exact ⟨.inl rfl, fun _ => rfl, rfl, rfl⟩
  have hrun : Passing r.1 ([] ++ r.2) ∧ Standing p r.1 ([] ++ r.2) :=
    Step.run_records (R := fun s o => Passing s o ∧ Standing p s o)
      (fun i s o h (_ : True) => ⟨h.1.step i, h.2.step h.1 i⟩) l _ [] ⟨passing_boot p, hboot⟩
      fun _ _ _ _ => trivial
  rw [List.nil_append] at hrun
  exact ⟨hrun.2.running, hrun.2.stopped⟩

/-- The session that the console ends. -/
theorem one_session_quitting :
    Stopped ⟨some "ws", [], true, 7⟩
      ((processStep ⟨some "ws", [], true, 7⟩).run quitting (boot ⟨some "ws", [], true, 7⟩)).1
      ((processStep ⟨some "ws", [], true, 7⟩).run quitting (boot ⟨some "ws", [], true, 7⟩)).2 :=
  (one_session ⟨some "ws", [], true, 7⟩ quitting).2 (by decide +kernel)

end ConferenceCall.Main

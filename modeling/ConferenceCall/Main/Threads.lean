import ConferenceCall.Console
import ConferenceCall.Session.Chat
import ConferenceCall.Session.Configuration

/-! The process. The main thread configures the manager, starts a session, waits for the flag and
stops; a second thread reads the console; a signal or the console clears the flag. The callbacks of
the libraries come in between. A call that hangs is no step here, nor is a signal whose handler
waits for the lock of the log. -/

namespace ConferenceCall.Main

open Library Console

/-- What the process is started with. -/
structure Launch where
  /-- `AMS_WS_URL`. -/
  url : Option String
  /-- The arguments behind the name of the program. -/
  args : List String
  /-- `PLATFORM_NUM == 0x86`. -/
  x86 : Bool
  /-- `rand()`. -/
  rand : ℕ

namespace Launch

def amsUrl (p : Launch) : String := p.url.getD "AMS_WEBSOCKET_URL"

def isPlayer (p : Launch) : Bool := p.args.head? == some "--player"

def streamId (p : Launch) : String :=
  (if p.x86 then "Ubuntu_" else "Device_") ++ (if p.isPlayer then "player_" else "publisher_") ++
    toString p.rand

/-- The calls before the start. -/
def settings (p : Launch) : List Setting :=
  [.init, .setSignalingServerURL p.amsUrl, .setRoomId "room1", .setStreamId p.streamId]

end Launch

/-- Where the main thread is. -/
inductive MainThread where
  | configuring (rest : List Setting)
  | serving
  | joining
  | exited (code : ℤ)
  /-- An exception has left a thread. -/
  | aborted
  deriving DecidableEq

/-- Where the thread of the console is. -/
inductive ConsoleThread where
  | absent
  | checking
  | polling
  | passing
  | ended
  deriving DecidableEq

/-- The process is over. -/
def MainThread.over : MainThread → Bool
  | .exited _ | .aborted => true
  | _ => false

structure Process where
  /-- `g_appRunning`. -/
  appRunning : Bool := true
  /-- `g_webrtcManager`. -/
  manager : Option Manager := none
  main : MainThread
  console : ConsoleThread := .absent
  lineBuffer : Bytes := []

/-- What the process does. -/
inductive Doing where
  | read (chunk : Chunk)
  | quit
  | chat (text : Bytes)
  | library (c : Invocation)

/-- What happens: a turn of one of the two threads, a handler of a signal that gets through, or a
callback. A turn of the console thread has what the poll and the read give, if it comes to them, and
the date. -/
inductive Happening where
  | main
  | console (input : Option Chunk) (date : String)
  | signal
  | callback (cb : Callback)

/-- The process after a call of the API that was made by the console thread. -/
def Process.after (s : Process) (o : Outcome (Option Manager) Invocation Unit) : Process :=
  { s with manager := o.state, main := if o.value.isSome then s.main else .aborted }

theorem Process.after_main (s : Process) (o : Outcome (Option Manager) Invocation Unit) :
    (s.after o).main = s.main ∨ (s.after o).main = .aborted := by
  unfold Process.after
  split_ifs
  · exact .inl rfl
  · exact .inr rfl

def quitText : Bytes := utf8 "quit"

/-- The callback of the console thread. -/
def onLine (line : Bytes) (date : String) (e : Env) (s : Process) : Process × List Doing :=
  if line = quitText then ({ s with appRunning := false }, [.quit])
  else
    let o := ifInstance (sendChatBytes line date) e s.manager
    (s.after o, .chat line :: o.calls.map .library)

/-- A round of the inner loop. -/
def passLine (date : String) (e : Env) (s : Process) : Process × List Doing :=
  match s.lineBuffer.idxOf? newline with
  | none => ({ s with console := .checking }, [])
  | some pos =>
    let line := s.lineBuffer.take pos
    let s' := { s with lineBuffer := s.lineBuffer.drop (pos + 1) }
    if line.isEmpty then (s', []) else onLine line date e s'

/-- The next step of the console thread. Nothing is read when the poll finds nothing. -/
def consoleTurn (input : Option Chunk) (date : String) (e : Env) (s : Process) :
    Process × List Doing :=
  match s.console with
  | .absent | .ended => (s, [])
  | .checking => ({ s with console := if s.appRunning then .polling else .ended }, [])
  | .polling => match input with
    | none => ({ s with console := .checking }, [])
    | some chunk =>
      ({ s with lineBuffer := s.lineBuffer ++ cString (chunk.bytes ++ [0]), console := .passing },
        [.read chunk])
  | .passing => passLine date e s

/-- The end of the configuration: the start, and the thread of the console. -/
def startTurn (isPlayer : Bool) (e : Env) (s : Process) : Process × List Doing :=
  let o := WebRTC_Start2WayCommunication isPlayer e s.manager
  ({ s with
      manager := o.state
      main := match o.value with
        | some true => .serving
        | some false => .exited (-1)
        | none => .aborted
      console := if o.value = some true then .checking else .absent },
    o.calls.map .library)

/-- The next step of the main thread. -/
def mainTurn (p : Launch) (e : Env) (s : Process) : Process × List Doing :=
  match s.main with
  | .configuring (c :: rest) =>
    let o := c.apply e s.manager
    ({ s with manager := o.state, main := .configuring rest }, o.calls.map .library)
  | .configuring [] => startTurn p.isPlayer e s
  | .serving => ({ s with main := if s.appRunning then .serving else .joining }, [])
  | .joining => match s.console with
    | .ended =>
      let o := WebRTC_Stop2WayCommunication e s.manager
      ({ s with manager := o.state, main := .exited 0 }, o.calls.map .library)
    | _ => (s, [])
  | .exited _ | .aborted => (s, [])

/-- A callback reaches the manager, if there is one. -/
def callbackTurn (cb : Callback) (e : Env) (s : Process) : Process × List Doing :=
  match s.manager with
  | none => (s, [])
  | some m =>
    let o := deliver cb e m
    ({ s with manager := some o.state }, o.calls.map .library)

def turn (p : Launch) : Happening → Env → Process → Process × List Doing
  | .main => mainTurn p
  | .console input date => consoleTurn input date
  | .signal => fun _ s => ({ s with appRunning := false }, [])
  | .callback cb => callbackTurn cb

/-- Nothing happens any more when the process is over. -/
def processStep (p : Launch) : Step (Timed Happening) Process Doing := fun i s =>
  if s.main.over then (s, []) else turn p i.what i.env s

/-- The process when the handlers of the signals are set. Without an address it is over. -/
def boot (p : Launch) : Process :=
  if p.amsUrl = "AMS_WEBSOCKET_URL" then { main := .exited (-1) }
  else { main := .configuring p.settings }

section
variable {p : Launch} {i : Timed Happening} {s : Process}

theorem processStep_over (h : s.main.over) : processStep p i s = (s, []) := if_pos h

theorem processStep_running (h : s.main.over = false) :
    processStep p i s = turn p i.what i.env s := if_neg (by simp [h])

end

/-! ### What the console passes on -/

/-- The chunks that were read. -/
def reads (l : List Doing) : List Chunk :=
  l.filterMap fun d => match d with | .read chunk => some chunk | _ => none

/-- The texts of the chat messages. -/
def chats (l : List Doing) : List Bytes :=
  l.filterMap fun d => match d with | .chat text => some text | _ => none

/-- The calls of the libraries. -/
def calls (l : List Doing) : List Invocation :=
  l.filterMap fun d => match d with | .library c => some c | _ => none

/-- The lines that are not the one that quits. -/
def texts (l : List Bytes) : List Bytes := l.filter (· ≠ quitText)

end ConferenceCall.Main

import ConferenceCall.Library.Mutex
import ConferenceCall.Manager.Session

/-! The locks of a session's end. `Stop2WayCommunication` runs on the application thread,
callbacks run on any number of library threads. A slot of the libraries is a
`synchronized_callback`: invoking it and assigning it take the same mutex, and the
invocation holds it while the handler runs. The destructors of the channels and tracks
that go when the maps are cleared under `m_stateMutex` are taken to lock no slot. -/

namespace ConferenceCall

open Library

/-- The callback slots the manager sets. -/
inductive Slot where
  | wsMessage | wsOpen | wsClosed
  | track (pc : ℕ) | localCandidate (pc : ℕ) | localDescription (pc : ℕ) | dataChannel (pc : ℕ)
  | trackMessage (track : ℕ)
  | channelMessage (ch : Channel)
  deriving DecidableEq

inductive Mutex where
  | apiMutex
  | stateMutex
  | slot (s : Slot)
  deriving DecidableEq

/-- The application thread, or one of the threads of the libraries. -/
inductive ThreadId where
  | application
  | library (n : ℕ)
  deriving DecidableEq

/-- The slot a callback is invoked through. -/
def Callback.slot : Callback → Option Slot
  | .wsOpened => some .wsOpen
  | .wsClosed => some .wsClosed
  | .wsMessage _ => some .wsMessage
  | .track pc _ => some (.track pc)
  | .trackData id _ => some (.trackMessage id)
  | .localCandidate pc _ _ => some (.localCandidate pc)
  | .localDescription pc _ _ => some (.localDescription pc)
  | .dataChannel pc _ _ => some (.dataChannel pc)
  | .channelText ch _ => some (.channelMessage ch)
  | .peerClosed _ => none

/-- The handler of a signal takes `m_stateMutex`. -/
def Signal.locks (publishStreamId : String) : Signal → Bool
  | .onStartOfferer _ => true
  | .onRemoteSDP _ _ _ => true
  | .onRemoteCandidate _ cand _ => !cand.isEmpty
  | .onJoinedRoomNotification => false
  | .onPublishStartedNotification => false
  | .onPlayStartedNotification _ => false
  | .onPlayFinishedNotification streamId => !streamId.isEmpty
  | .onSubtrackAddedNotification trackId => !trackId.isEmpty && trackId != publishStreamId
  | .onSubtrackRemovedNotification _ => false

/-- The handler of a callback takes `m_stateMutex`. -/
def Callback.locks (m : Manager) : Callback → Bool
  | .wsOpened => true
  | .wsClosed => false
  | .wsMessage text => (receive text).join.any (Signal.locks m.publishStreamId)
  | .track _ _ => true
  | .trackData id _ => (m.trackHandlers.lookup id).any fun handler => handler.kind == "audio"
  | .localCandidate _ _ _ => false
  | .localDescription _ _ _ => false
  | .dataChannel _ _ _ => true
  | .channelText _ text => text.any fun j => (chatText j).join.isSome
  | .peerClosed _ => false

/-- The slot has a handler. -/
def Manager.sets (m : Manager) : Slot → Bool
  | .wsMessage | .wsOpen | .wsClosed => m.connected
  | .track pc | .localCandidate pc | .localDescription pc => (m.captured pc).isSome
  | .dataChannel pc => m.announces pc
  | .trackMessage track => (m.trackHandlers.lookup track).isSome
  | .channelMessage ch => (m.channelHandlers.lookup ch).isSome

/-- `cleanupResources` assigns `nullptr` to the slot. -/
def Manager.sweeps (m : Manager) : Slot → Prop
  | .wsMessage | .wsOpen | .wsClosed => m.signalingContext.isSome
  | .track pc | .localCandidate pc | .localDescription pc => pc ∈ m.pcs.values
  | _ => False

/-! ### The threads -/

/-- What `cleanupResources` does once it holds `m_stateMutex`, piece by piece. -/
inductive Task where
  | clear (s : Slot)
  | close (pc : ℕ)
  | clearMaps
  | closeSocket
  | shutdown
  | reset

/-- The actions of the threads between their lock operations. -/
inductive Action where
  | stop | leave | cleanup | finish
  | perform (task : Task)
  | invoke (ev : Event)
  | handle (ev : Event)

abbrev Code := List (Instr Mutex Action)

/-- The manager, and the slots that have been assigned `nullptr`. -/
structure Memory where
  manager : Manager
  cleared : List Slot := []

namespace Memory

/-- The slot still has its handler. -/
def installed (mem : Memory) (s : Slot) : Bool := !decide (s ∈ mem.cleared) && mem.manager.sets s

/-- An invocation reaches a handler that takes `m_stateMutex`. -/
def enters (mem : Memory) (ev : Event) : Bool :=
  ev.what.slot.any mem.installed && ev.what.locks mem.manager

def change (mem : Memory) (f : Manager → Manager) : Memory := { mem with manager := f mem.manager }

end Memory

/-- An assignment takes the mutex of the slot. -/
def Task.code : Task → Code
  | .clear s => [.lock (.slot s), .act (.perform (.clear s)), .unlock (.slot s)]
  | task => [.act (.perform task)]

def Task.perform : Task → Memory → Memory
  | .clear s, mem => { mem with cleared := s :: mem.cleared }
  | .close pc, mem => mem.change fun m => m.updatePeer pc Peer.close
  | .clearMaps, mem => mem.change fun m =>
      { m.cleared with signalingContext := m.signalingContext, peers := m.peers }
  | .closeSocket, mem => mem.change fun m => m.setWsOpen false
  | .shutdown, mem => mem.change fun m => { m with
      signalingContext := m.signalingContext.map fun ctx => { ctx with signaling := none } }
  | .reset, mem => mem.change fun m => { m with signalingContext := none }

/-- The loop body for one connection. -/
def closingTasks (pc : ℕ) : List Task :=
  [.clear (.track pc), .clear (.localCandidate pc), .clear (.localDescription pc), .close pc]

/-- `Disconnect`. -/
def disconnectTasks : List Task :=
  [.clear .wsMessage, .clear .wsOpen, .clear .wsClosed, .closeSocket]

/-- The connections in the order of the map, the maps, then the signaling context, whose
destructor disconnects again. -/
def cleanupTasks (order : List ℕ) (context : Bool) : List Task :=
  order.flatMap closingTasks ++ .clearMaps ::
    if context then disconnectTasks ++ .shutdown :: disconnectTasks ++ [.reset] else []

/-- `Stop2WayCommunication`. -/
def stopCode : Code := [.lock .apiMutex, .act .stop, .unlock .apiMutex]

/-- `cleanupResources` up to its lock, its body and the reset of the flag. -/
def cleanupCode : Code :=
  [.act .leave, .lock .stateMutex, .act .cleanup, .unlock .stateMutex, .act .finish]

/-- The handler of a callback. -/
def handlerCode (m : Manager) (ev : Event) : Code :=
  if ev.what.locks m then [.lock .stateMutex, .act (.handle ev), .unlock .stateMutex]
  else [.act (.handle ev)]

/-- A library thread invokes a slot. -/
def invokeCode (ev : Event) : Code :=
  match ev.what.slot with
  | some s => [.lock (.slot s), .act (.invoke ev), .unlock (.slot s)]
  | none => [.act (.handle ev)]

/-- What the actions do. The iteration order of the map is not specified. -/
inductive Acts : Thread.Effect Mutex Action Memory
  | stop {mem : Memory} :
    Acts .stop mem mem (if mem.manager.isCommunicating then cleanupCode else [])
  | leave {mem : Memory} :
    Acts .leave mem (mem.change fun m => { m with gstManager := false }) []
  | cleanup {mem : Memory} (order : List ℕ) (h : ↑order = mem.manager.pcs.values) :
    Acts .cleanup mem mem
      ((cleanupTasks order mem.manager.signalingContext.isSome).flatMap Task.code)
  | finish {mem : Memory} :
    Acts .finish mem (mem.change fun m => { m with isCommunicating := false }) []
  | perform {mem : Memory} {task : Task} : Acts (.perform task) mem (task.perform mem) []
  | invoke {mem : Memory} {ev : Event} :
    Acts (.invoke ev) mem mem
      (if ev.what.slot.any mem.installed then handlerCode mem.manager ev else [])
  | handle {mem : Memory} {ev : Event} :
    Acts (.handle ev) mem (mem.change fun m => (step ev m).1) []

abbrev System := Threads ThreadId Mutex Action Memory

/-- Stop is about to be called; library thread `n` is about to invoke `work n`. -/
def System.initial (m : Manager) (work : ℕ → List Event) : System where
  thread
    | .application => ⟨stopCode, []⟩
    | .library n => ⟨(work n).flatMap invokeCode, []⟩
  memory := { manager := m }

end ConferenceCall

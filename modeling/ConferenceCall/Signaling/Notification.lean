import ConferenceCall.Signaling.Command

/-! `AMS_SFU_ConferenceSignaling`: the wrapper around the WebSocket. It turns a
received message into one callback of the manager. All its callbacks are set
before `Connect`, so a message reaches exactly the handler its kind names. -/

namespace ConferenceCall

/-- The state of an `AMS_SFU_ConferenceSignaling`. `signaling` is set by `Connect`. -/
structure SignalingContext where
  roomId : String
  wsOpen : Bool := false
  signaling : Option SignalingCommand := none
  deriving DecidableEq

inductive AMSEvent where
  | unknown | joinedTheRoom | publishStarted | playStarted | playFinished | subtrackAdded
  | subtrackRemoved
  deriving DecidableEq

def stringToEvent (definition : String) : AMSEvent :=
  if definition == "joinedTheRoom" then .joinedTheRoom
  else if definition == "publish_started" then .publishStarted
  else if definition == "play_started" then .playStarted
  else if definition == "play_finished" then .playFinished
  else if definition == "subtrackAdded" then .subtrackAdded
  else if definition == "subtrackRemoved" then .subtrackRemoved
  else .unknown

/-- A callback of the manager. -/
inductive Signal where
  | onStartOfferer (streamId : String)
  | onRemoteSDP (streamId type sdp : String)
  | onRemoteCandidate (streamId cand mid : String)
  | onJoinedRoomNotification
  | onPublishStartedNotification
  | onPlayStartedNotification (streamId : String)
  | onPlayFinishedNotification (streamId : String)
  | onSubtrackAddedNotification (trackId : String)
  | onSubtrackRemovedNotification (trackId : String)
  deriving DecidableEq

/-- A string field that may be absent but not of another type. -/
def optionalString (msg : Json) (key : String) : Option String :=
  match msg.find? key with
  | some v => v.asString
  | none => some ""

def dispatchNotification (msg : Json) : Option (Option Signal) := do
  let definition ← msg.value "definition" Json.asString ""
  let streamId ← optionalString msg "streamId"
  let trackId ← optionalString msg "trackId"
  return match stringToEvent definition with
    | .joinedTheRoom => some .onJoinedRoomNotification
    | .publishStarted => some .onPublishStartedNotification
    | .playStarted => some (.onPlayStartedNotification streamId)
    | .playFinished => some (.onPlayFinishedNotification streamId)
    | .subtrackAdded => some (.onSubtrackAddedNotification trackId)
    | .subtrackRemoved => some (.onSubtrackRemovedNotification trackId)
    | .unknown => none

/-- The callbacks `Connect` binds between the two signaling objects. -/
def forward : Incoming → Option (Option Signal)
  | .onStartOfferer streamId => some (some (.onStartOfferer streamId))
  | .onRemoteSDP streamId type sdp => some (some (.onRemoteSDP streamId type sdp))
  | .onRemoteCandidate streamId cand mid _ => some (some (.onRemoteCandidate streamId cand mid))
  | .onNotification msg => dispatchNotification msg

/-- From a received text to the manager's callback: the text is not JSON or a
field has a wrong type (`none`), nobody is interested (`some none`), or one
callback is invoked. -/
def receive (text : Option Json) : Option (Option Signal) := do
  match ← handleMessage (← text) with
  | some incoming => forward incoming
  | none => return none

/-- A message of the server that leads to a callback. -/
def Signal.text : Signal → Json
  | .onStartOfferer streamId => .object [("command", .string "start"), ("streamId", .string streamId)]
  | .onRemoteSDP streamId type sdp => .object
      [("command", .string "takeConfiguration"), ("streamId", .string streamId),
        ("type", .string type), ("sdp", .string sdp)]
  | .onRemoteCandidate streamId cand mid => .object
      [("command", .string "takeCandidate"), ("streamId", .string streamId),
        ("candidate", .string cand), ("id", .string mid), ("label", .number 0)]
  | .onJoinedRoomNotification => .object
      [("command", .string "notification"), ("definition", .string "joinedTheRoom")]
  | .onPublishStartedNotification => .object
      [("command", .string "notification"), ("definition", .string "publish_started")]
  | .onPlayStartedNotification streamId => .object
      [("command", .string "notification"), ("definition", .string "play_started"),
        ("streamId", .string streamId)]
  | .onPlayFinishedNotification streamId => .object
      [("command", .string "notification"), ("definition", .string "play_finished"),
        ("streamId", .string streamId)]
  | .onSubtrackAddedNotification trackId => .object
      [("command", .string "notification"), ("definition", .string "subtrackAdded"),
        ("trackId", .string trackId)]
  | .onSubtrackRemovedNotification trackId => .object
      [("command", .string "notification"), ("definition", .string "subtrackRemoved"),
        ("trackId", .string trackId)]

/-- The server can raise every callback with any arguments. -/
theorem receive_text (sig : Signal) : receive (some sig.text) = some (some sig) := by
  cases sig <;> rfl

end ConferenceCall

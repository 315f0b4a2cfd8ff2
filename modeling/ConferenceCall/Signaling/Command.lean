import ConferenceCall.Json

/-! `AMS_SFU_ConferenceSignalingCommand`: the commands sent to the server, with
the JSON text of each, and the decoding of a received message. `handleMessage`
invokes at most one callback and does nothing after it, so its result is that
callback with its arguments. -/

namespace ConferenceCall

/-- The state of an `AMS_SFU_ConferenceSignalingCommand`. -/
structure SignalingCommand where
  selfStreamId : String
  roomId : String
  candLabel : ℤ := 0
  deriving DecidableEq

/-- An outgoing command. -/
inductive Command where
  | publish (streamId roomId : String) (video audio : Bool)
  | joinRoom (streamId room : String)
  | play (room streamId : String)
  | getRoomInfo (room streamId : String)
  | takeConfiguration (streamId type sdp : String)
  | takeCandidate (streamId candidate : String) (label : ℤ) (mid : String)
  | stop (streamId : String)
  | leaveFromRoom (room : String)
  deriving DecidableEq

namespace Command

/-- The object each builder hands to `sendJson`. -/
def json : Command → Json
  | publish streamId roomId video audio => .object
      [("command", .string "publish"), ("streamId", .string streamId),
        ("streamName", .string streamId), ("mainTrack", .string roomId), ("metaData", .null),
        ("subscriberCode", .string "client1"), ("subscriberId", .string "client1"),
        ("video", .boolean video), ("audio", .boolean audio), ("role", .string "")]
  | joinRoom streamId room => .object
      [("command", .string "joinRoom"), ("streamId", .string streamId), ("room", .string room),
        ("mode", .string "amcu")]
  | play room streamId => .object
      [("command", .string "play"), ("room", .string room), ("streamId", .string streamId)]
  | getRoomInfo room streamId => .object
      [("command", .string "getRoomInfo"), ("room", .string room), ("streamId", .string streamId)]
  | takeConfiguration streamId type sdp => .object
      [("command", .string "takeConfiguration"), ("streamId", .string streamId),
        ("type", .string type), ("sdp", .string sdp)]
  | takeCandidate streamId candidate label mid => .object
      ([("command", .string "takeCandidate"), ("streamId", .string streamId),
        ("candidate", .string candidate), ("label", .number label)] ++
        if mid.isEmpty then [] else [("id", .string mid)])
  | stop streamId => .object [("command", .string "stop"), ("streamId", .string streamId)]
  | leaveFromRoom room => .object [("command", .string "leaveFromRoom"), ("room", .string room)]

end Command

namespace SignalingCommand

variable (c : SignalingCommand)

def sendPublish (video audio : Bool) : Command := .publish c.selfStreamId c.roomId video audio

def sendJoinRoom : Command := .joinRoom c.selfStreamId c.roomId

/-- Play the whole room. -/
def sendPlayRoom : Command := .play c.roomId c.roomId

/-- Play a specific stream. -/
def sendPlayStream (targetStreamId : String) : Command := .play c.roomId targetStreamId

def sendGetRoomInfo : Command := .getRoomInfo c.roomId c.roomId

def sendTakeConfiguration (_c : SignalingCommand) (streamId type sdp : String) : Command :=
  .takeConfiguration streamId type sdp

/-- `candLabel_++` on an `int`. Past the largest one, which the language leaves undefined, the
counter is taken to go on from the smallest. -/
def nextLabel : ℤ := (c.candLabel + 1).bmod (2 ^ 32)

/-- The label is read here; the counter is advanced by the caller's state change. -/
def sendTakeCandidate (streamId cand mid : String) : Command :=
  .takeCandidate streamId cand c.candLabel mid

def sendStopPublish : Command := .stop c.selfStreamId

def sendStopPlayRoom : Command := .stop c.roomId

def sendLeaveRoom : Command := .leaveFromRoom c.roomId

end SignalingCommand

/-- The callback `handleMessage` invokes. -/
inductive Incoming where
  | onStartOfferer (streamId : String)
  | onRemoteSDP (streamId type sdp : String)
  | onRemoteCandidate (streamId cand mid : String) (label : ℤ)
  | onNotification (msg : Json)

/-- The outer `none` is an exception, the inner one a message without a callback. -/
def handleMessage (msg : Json) : Option (Option Incoming) := do
  if !msg.contains "command" then
    return none
  let command ← msg.value "command" Json.asString ""
  if let some definition := msg.find? "definition" then
    if (← definition.asString) == "bitrateMeasurement" then
      return none
  let streamId ← if msg.contains "streamId" then msg.value "streamId" Json.asString "" else some ""
  if command == "start" then
    return some (.onStartOfferer streamId)
  else if command == "takeConfiguration" then
    let type ← msg.value "type" Json.asString ""
    let sdp ← msg.value "sdp" Json.asString ""
    return some (.onRemoteSDP streamId type sdp)
  else if command == "takeCandidate" then
    let cand ← msg.value "candidate" Json.asString ""
    let mid ← msg.value "id" Json.asString ""
    let label ← msg.value "label" Json.asInt 0
    return some (.onRemoteCandidate streamId cand mid label)
  else if command == "notification" then
    return some (.onNotification msg)
  else
    return none

end ConferenceCall

import ConferenceCall.Manager.Peers

/-! Media of a session: the receive tracks prepared from a remote offer, the
tracks and data channels the remote side opens, the chat text that switches the
audio of a stream on and off, and the audio packets. -/

namespace ConferenceCall

open Library

/-- The inner loop of `prepareRecvTracksFromSDP`: the payload of the first codec
the program supports, or `-1`. -/
def recvPayload (type : String) : List Json → Option ℤ
  | [] => some (-1)
  | rtp :: rest => do
    let codec ← rtp.value "codec" Json.asString ""
    let pt ← rtp.value "payload" Json.asInt (-1)
    if type == "video" && codec == "H264" then return pt
    else if type == "audio" && codec == "opus" then return pt
    else recvPayload type rest

/-- One round of the outer loop: the mid and type of the track to add, `some none`
for a skipped section, `none` for an exception. -/
def recvTrack (media : Json) : Option (Option (String × String)) := do
  let type ← media.value "type" Json.asString ""
  let dir ← media.value "direction" Json.asString "sendrecv"
  if (dir != "sendrecv" && dir != "sendonly") || (type != "audio" && type != "video") then
    return none
  let payloadType ← match media.find? "rtp" with
    | some rtp => recvPayload type rtp.items
    | none => some (-1)
  if payloadType < 0 then return none
  return some ("remote-" ++ type ++ "-" ++ toString payloadType, type)

/-- `addTrack` returns a track with the mid of its description. -/
def addRecvTrack (pc i : ℕ) (media : Json) : Act Unit := do
  match ← Act.ofOption (recvTrack media) with
  | some (mid, type) =>
    call (.addTrack i) (.addTrack pc mid type)
    Act.modify fun m => { m with midTypeMap := m.midTypeMap.insert mid type }
  | none => pure ()

def prepareRecvTracksFromSDP (pc : ℕ) : Act Unit := do
  check .sdpParse
  let sdpJson ← Act.ask Env.parsed
  match sdpJson.find? "media" with
  | some media => Act.each (addRecvTrack pc) 0 media.items
  | none => pure ()

def addRemoteTrack (track : Track) (streamId : String) : Act Unit := do
  Act.modify fun m => { m with
    remoteTracks := m.remoteTracks.insert streamId
      ((m.remoteTracks.lookup streamId).getD [] ++ [track]) }
  let kind ← Act.gets fun m => (m.midTypeMap.lookup track.mid).getD track.type
  Act.modify fun m => { m with
    trackHandlers := m.trackHandlers.insert track.id ⟨kind, streamId⟩ }

/-- The `onMessage` handler of a track. Only the assignment of `playStream` depends
on the talk state; the push is not under the condition. -/
def onTrackMessage (handler : TrackHandler) (data : List UInt8) : Act Unit := do
  if handler.kind == "audio" then
    let _playStream ← Act.gets fun m =>
      (m.isStreamTalking.lookup handler.streamId).getD false
    if ← Act.gets Manager.gstManager then
      callNoexcept (.pushAudioFrame data)

/-- The handler `setupDataChannel` registers for announced channels. -/
def onDataChannel (id : ℕ) (label : String) : Act Unit := do
  match ← Act.gets fun m => m.remoteDataChannels.lookup label with
  | some _ => pure ()
  | none =>
    Act.modify fun m => { m with
      remoteDataChannels := m.remoteDataChannels.insert label (.remote id) }
    Act.modify fun m => { m with
      channelHandlers := m.channelHandlers.insert (.remote id) label }

/-- The sender and the text a data-channel message carries: `none` for an
exception, `some none` for a message the handler drops. -/
def chatText (j : Json) : Option (Option (String × String)) := do
  match j.find? "eventType" with
  | none => return none
  | some eventType =>
    if (← eventType.asString) == "AUDIO_TRACK_ASSIGNMENT" then return none
    match j.find? "senderId", j.find? "message" with
    | some senderId, some message => return some (← senderId.asString, ← message.asString)
    | _, _ => return none

/-- The text is given by what it parses to, `none` where parsing fails. -/
def handleDataChannelText (text : Option Json) : Act Unit := do
  match text with
  | none => pure ()
  | some j =>
    match ← Act.ofOption (chatText j) with
    | none => pure ()
    | some (senderId, msgText) =>
      if msgText == "iamtalking" then
        Act.modify fun m => { m with isStreamTalking := m.isStreamTalking.insert senderId true }
      else if msgText == "iammute" then
        Act.modify fun m => { m with isStreamTalking := m.isStreamTalking.insert senderId false }

end ConferenceCall

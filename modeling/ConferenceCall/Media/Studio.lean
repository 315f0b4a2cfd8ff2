import ConferenceCall.Gst.References
import ConferenceCall.Manager.Inputs

/-! The media of the sessions. A start makes a `GstManager` and starts its pipelines; a local track
that opens takes the frames of its capture; the packets of remote audio tracks go to the player.
The application, the libraries and the streaming threads take turns in any order. -/

namespace ConferenceCall.Media

open Library
open Gst (Owner SampleCallback Medium Answers Build Request ownerStep)

/-- What the local tracks of `setupLocalTracks` are for. -/
inductive Kind where
  | video | audio
  deriving DecidableEq

namespace Kind

/-- The capture of the frames. -/
def medium : Kind → Medium
  | .video => .video
  | .audio => .audio

/-- The handler of the samples that are sent. -/
def callback : Kind → SampleCallback
  | .video => .onVideoRTPSample
  | .audio => .onAudioRTPSample

/-- The mid of the track. -/
def mid : Kind → String
  | .video => "video-stream"
  | .audio => "audio-stream"

def start : Kind → Request
  | .video => .startVideo
  | .audio => .startAudio

end Kind

structure LocalTrack where
  pc : ℕ
  kind : Kind
  deriving DecidableEq

/-- The track a call has added for the local media. -/
def localTrack (c : Invocation) : Option LocalTrack :=
  match c.call with
  | .addTrack pc mid _ =>
    if !c.returned then none
    else if mid = Kind.video.mid then some ⟨pc, .video⟩
    else if mid = Kind.audio.mid then some ⟨pc, .audio⟩
    else none
  | _ => none

/-- The packet a call hands over. -/
def packet (c : Invocation) : Option (List UInt8) :=
  match c.call with
  | .pushAudioFrame data => some data
  | _ => none

/-- What happens. -/
inductive Occasion where
  | input (i : Input)
  /-- `onOpen` of a local track. -/
  | opened (t : LocalTrack)
  /-- A streaming thread calls a handler of samples. -/
  | sample (callback : SampleCallback)

/-- What happens and what the libraries answer to it. -/
structure Moment where
  what : Occasion
  env : Env
  /-- The answers to the calls for a medium. -/
  gst : Medium → Answers
  /-- `isOpen()` of a local track. -/
  isOpen : LocalTrack → Bool

/-- What goes out: a frame on a local track, or a packet to the player. -/
inductive Delivery where
  | frame (t : LocalTrack) (data : List UInt8)
  | push (data : List UInt8)
  deriving DecidableEq

/-- A manager with its `m_gstManager`, whose handlers know the connection of their track. -/
structure Studio where
  manager : Manager := {}
  gst : Option Owner := none
  /-- The tracks whose `onOpen` slot is set. -/
  localTracks : List LocalTrack := []

/-- The input makes a `GstManager`, for a player or not. -/
def makesGst : Input → Manager → Option Bool
  | .api (.start isPlayer), m => if m.isCommunicating || m.lacksUrl then none else some isPlayer
  | _, _ => none

/-- The pipelines that `Start2WayCommunication` starts. -/
def starts (isPlayer : Bool) : List (Medium × Request) :=
  (if isPlayer then [] else [(.video, .startVideo), (.audio, .startAudio)]) ++
    [(.audioPlayer, .startAudioPlayer)]

/-- The constructor, as it is called. -/
def newGst : Owner := { world := .fresh 720 480 30 1000000 42 43 }

/-- The constructor and the starts. -/
def makeGst (b : Build) (isPlayer : Bool) (answers : Medium → Answers) : Owner :=
  ((ownerStep b).run ((starts isPlayer).map fun c => (c.2, answers c.1)) newGst).1

/-- What the player gets. -/
def playedOf : Gst.Doing → Option Delivery
  | .push data => some (.push data)
  | _ => none

/-- What goes out on the tracks of a kind. -/
def sentOf (isOpen : LocalTrack → Bool) (kind : Kind) : Gst.Doing → Option Delivery
  | .frame pc data => if isOpen ⟨pc, kind⟩ then some (.frame ⟨pc, kind⟩ data) else none
  | _ => none

/-- The packets go to the player one after the other. -/
def play (b : Build) (answers : Answers) (packets : List (List UInt8)) (o : Owner) :
    Owner × List Delivery :=
  let r := (ownerStep b).run (packets.map fun data => (.pushAudioFrame data, answers)) o
  (r.1, r.2.filterMap playedOf)

/-- The `GstManager` that an input is about. -/
def gstOf (b : Build) (i : Input) (m : Moment) (s : Studio) : Option Owner :=
  match makesGst i s.manager with
  | some isPlayer => some (makeGst b isPlayer m.gst)
  | none => s.gst

/-- An input of the manager. Where `m_gstManager` is not set after it, it is destroyed. -/
def inputTurn (b : Build) (i : Input) (m : Moment) (s : Studio) : Studio × List Delivery :=
  let r := inputStep ⟨i, m.env⟩ s.manager
  let played := (gstOf b i m s).map (play b (m.gst .audioPlayer) (r.2.filterMap packet))
  ({ manager := r.1
     gst := if r.1.gstManager then played.map Prod.fst else none
     localTracks := s.localTracks ++ r.2.filterMap localTrack },
    (played.map Prod.snd).getD [])

/-- The `onOpen` handlers of `setupLocalTracks`. -/
def openTurn (b : Build) (t : LocalTrack) (m : Moment) (s : Studio) : Studio :=
  if t ∈ s.localTracks then
    { s with gst := s.gst.map fun o =>
        ((ownerStep b).run [(.setOnFrame t.kind.callback t.pc, m.gst t.kind.medium),
          (t.kind.start, m.gst t.kind.medium)] o).1 }
  else s

/-- The kind of the frames of a handler of samples; the other two have no frame handler. -/
def kindOf : SampleCallback → Option Kind
  | .onVideoRTPSample => some .video
  | .onAudioRTPSample => some .audio
  | .onVideoAnnexBSample | .onAudioAACSample => none

/-- The pipeline whose sink calls a handler of samples. -/
def captureOf : SampleCallback → Medium
  | .onVideoRTPSample | .onVideoAnnexBSample => .video
  | .onAudioRTPSample | .onAudioAACSample => .audio

/-- The pipeline plays and its sink calls the handler. -/
def supplies (callback : SampleCallback) (o : Owner) : Bool :=
  (o.pointer (captureOf callback)).any fun h => (o.world.pipelines h).any fun p =>
    p.state = .playing && p.connected.any fun sink => sink.2 = callback

/-- A sample, with what the lambda of the local track does with its frame. -/
def sampleTurn (callback : SampleCallback) (m : Moment) (s : Studio) : Studio × List Delivery :=
  match s.gst with
  | none => (s, [])
  | some o =>
    if supplies callback o then
      let r := Owner.onSample callback (m.gst (captureOf callback)) o
      ({ s with gst := some r.state },
        (kindOf callback).toList.flatMap fun kind => r.calls.filterMap (sentOf m.isOpen kind))
    else (s, [])

def studioStep (b : Build) : Step Moment Studio Delivery := fun m s =>
  match m.what with
  | .input i => inputTurn b i m s
  | .opened t => (openTurn b t m s, [])
  | .sample callback => sampleTurn callback m s

end ConferenceCall.Media

import Mathlib.Data.Int.Notation
import Mathlib.Logic.Function.Basic
import ConferenceCall.Library.Machine

/-! The pipelines of `GstManager` over those that GStreamer holds. A start launches a pipeline,
connects its sinks and sets it to playing; a stop sets it back and gives it up. -/

namespace ConferenceCall.Gst

open Library

/-- The identity of a pipeline in GStreamer. -/
abbrev Handle := ℕ

inductive Medium where
  | video | audio | audioPlayer
  deriving DecidableEq

/-- The handlers of `new-sample`. -/
inductive SampleCallback where
  | onVideoRTPSample | onVideoAnnexBSample | onAudioRTPSample | onAudioAACSample
  deriving DecidableEq

inductive ElementState where
  | null | playing
  deriving DecidableEq

/-- What `gst_parse_launch` gives: nothing, the described pipeline, or an error together with a
pipeline that lacks some of the named elements. -/
inductive Launch where
  | null
  | pipeline
  | recoverable (missing : List String)
  deriving DecidableEq

/-- A pipeline in GStreamer. -/
structure Pipeline where
  medium : Medium
  desc : String
  missing : List String := []
  connected : List (String × SampleCallback) := []
  /-- The overlay draws the time. -/
  probed : Bool := false
  state : ElementState := .null

structure GstManager where
  width : ℤ
  height : ℤ
  fps : ℤ
  videoBitrate : ℤ
  videoSSRC : ℕ
  audioSSRC : ℕ
  /-- `videoPipeline_`, `audioPipeline_` and `audioPlayerPipeline_`. -/
  pipeline : Medium → Option Handle := fun _ => none
  /-- The element `audio_src` of a pipeline. -/
  audioAppSrc : Option (Handle × String) := none
  /-- `mainLoop_` is there, and its thread with it. -/
  mainLoop : Bool := false

structure World where
  manager : GstManager
  pipelines : Handle → Option Pipeline := fun _ => none
  next : Handle := 0

namespace World

def setPointer (medium : Medium) (pipeline : Option Handle) (w : World) : World :=
  { w with manager :=
    { w.manager with pipeline := Function.update w.manager.pipeline medium pipeline } }

def setAudioAppSrc (audioAppSrc : Option (Handle × String)) (w : World) : World :=
  { w with manager := { w.manager with audioAppSrc } }

/-- `g_main_loop_new`, and the thread that runs the loop. -/
def setMainLoop (w : World) : World := { w with manager := { w.manager with mainLoop := true } }

/-! ### GStreamer -/

/-- `gst_parse_launch`, with the pipeline put into the pointer of the medium. -/
def parseLaunch (medium : Medium) (desc : String) (launch : Launch) (w : World) : World :=
  let built (missing : List String) : World :=
    { w.setPointer medium (some w.next) with
      pipelines := Function.update w.pipelines w.next (some { medium, desc, missing })
      next := w.next + 1 }
  match launch with
  | .null => w.setPointer medium none
  | .pipeline => built []
  | .recoverable missing => built missing

/-- A call on a pipeline; GStreamer only warns of a null pointer. -/
def onPipeline (pipeline : Option Handle) (f : Pipeline → Pipeline) (w : World) : World :=
  match pipeline with
  | none => w
  | some h => { w with pipelines := Function.update w.pipelines h ((w.pipelines h).map f) }

/-- `gst_bin_get_by_name`, for a name of the description. -/
def getByName (pipeline : Option Handle) (name : String) (w : World) : Option (Handle × String) := do
  let h ← pipeline
  let p ← w.pipelines h
  if name ∈ p.missing then none else some (h, name)

def setState (pipeline : Option Handle) (state : ElementState) : World → World :=
  onPipeline pipeline fun p => { p with state }

/-- `gst_object_unref` of the last reference. -/
def unref (h : Handle) (w : World) : World :=
  { w with pipelines := Function.update w.pipelines h none }

end World

/-! ### `GstManager` -/

/-- A manager after its constructor. -/
def World.fresh (width height fps videoBitrate : ℤ) (videoSSRC audioSSRC : ℕ) : World :=
  { manager := { width, height, fps, videoBitrate, videoSSRC, audioSSRC } }

def setupSink (pipeline : Option Handle) (name : String) (callback : SampleCallback) (w : World) :
    World :=
  match w.getByName pipeline name with
  | none => w
  | some _ => w.onPipeline pipeline fun p => { p with connected := (name, callback) :: p.connected }

/-- The sinks that are set up for a medium, and what they are connected to. -/
def Medium.sinks : Medium → List (String × SampleCallback)
  | .video => [("rtpsink", .onVideoRTPSample), ("h264sink", .onVideoAnnexBSample)]
  | .audio => [("rtpsink", .onAudioRTPSample), ("aacsink", .onAudioAACSample)]
  | .audioPlayer => []

/-- `PLATFORM_NUM` is a constant of the build. -/
def videoPipelineDesc (qcs610 : Bool) (m : GstManager) : String :=
  if qcs610 then
    "qtiqmmfsrc ! video/x-raw,format=NV12,width=" ++ toString m.width ++ ",height=" ++
    toString m.height ++ ",framerate=" ++ toString m.fps ++ "/1 ! " ++
    "omxh264enc periodicity-idr=1 interval-intraframes=29 control-rate=2 target-bitrate=" ++
    toString m.videoBitrate ++ " b-frames=0 entropy-mode=0 ! " ++
    "video/x-h264,profile=baseline ! " ++ "h264parse config-interval=1 ! " ++
    "video/x-h264,stream-format=byte-stream,alignment=au ! tee name=t_video " ++
    "t_video. ! queue ! appsink name=h264sink emit-signals=true sync=true " ++
    "t_video. ! queue ! rtph264pay config-interval=1 pt=96 ssrc=" ++ toString m.videoSSRC ++
    " mtu=1200 ! appsink name=rtpsink emit-signals=true sync=false"
  else
    "videotestsrc is-live=true pattern=ball do-timestamp=true ! " ++
    "video/x-raw,width=" ++ toString m.width ++ ",height=" ++ toString m.height ++
    ",framerate=" ++ toString m.fps ++ "/1 ! " ++ "videoconvert ! " ++
    "textoverlay name=time_overlay halignment=right valignment=bottom font-desc=\"Sans, 24\" ! " ++
    "videoconvert ! queue ! video/x-raw,format=I420 ! " ++
    "x264enc tune=zerolatency key-int-max=30 speed-preset=ultrafast bitrate=" ++
    toString (m.videoBitrate.tdiv 1000) ++ " ! " ++
    "h264parse config-interval=1 ! video/x-h264,stream-format=byte-stream,alignment=au ! tee name=t_video " ++
    "t_video. ! queue ! appsink name=h264sink emit-signals=true sync=false " ++
    "t_video. ! queue ! rtph264pay config-interval=1 pt=96 ssrc=" ++ toString m.videoSSRC ++
    " mtu=1200 ! appsink name=rtpsink emit-signals=true sync=false"

def audioPipelineDesc (qcs610 : Bool) (m : GstManager) : String :=
  if qcs610 then
    "pulsesrc provide-clock=false ! audio/x-raw,format=S16LE,rate=48000,channels=1 ! tee name=t_audio " ++
    "t_audio. ! queue ! opusenc ! rtpopuspay pt=111 ssrc=" ++ toString m.audioSSRC ++
    " ! appsink name=rtpsink emit-signals=true sync=false " ++
    "t_audio. ! queue ! audioconvert ! audioresample ! audio/x-raw,format=F32LE,rate=44100,channels=1 ! avenc_aac ! aacparse ! appsink name=aacsink emit-signals=true sync=false"
  else
    "pulsesrc ! queue ! audio/x-raw,format=S16LE,rate=48000,channels=1 ! " ++
    "audioconvert ! audioresample ! tee name=t_audio " ++
    "t_audio. ! queue ! opusenc ! rtpopuspay pt=111 ssrc=" ++ toString m.audioSSRC ++
    " ! appsink name=rtpsink emit-signals=true sync=false " ++
    "t_audio. ! queue ! audioconvert ! audioresample ! audio/x-raw,rate=44100,channels=1 ! " ++
    "voaacenc ! aacparse ! appsink name=aacsink emit-signals=true sync=false"

def audioPlayDesc : String :=
  "appsrc name=audio_src is-live=true format=time ! " ++
  "application/x-rtp,media=audio,clock-rate=48000,encoding-name=OPUS,payload=111 ! " ++
  "rtpjitterbuffer latency=200 ! rtpopusdepay ! opusdec ! audioconvert ! audioresample ! autoaudiosink"

/-- A start of a capture. It ends at an error, and `prepare` comes before the sinks. -/
def startCapture (medium : Medium) (desc : GstManager → String)
    (prepare : Option Handle → World → World) (launch : Launch) (w : World) : World :=
  if (w.manager.pipeline medium).isSome then w
  else
    let w := w.parseLaunch medium (desc w.manager) launch
    if (w.manager.pipeline medium).isNone ∨ launch ≠ .pipeline then w
    else
      let w := prepare (w.manager.pipeline medium) w
      let w := medium.sinks.foldl
        (fun w s => setupSink (w.manager.pipeline medium) s.1 s.2 w) w
      w.setState (w.manager.pipeline medium) .playing

/-- The time is drawn on the x86 platform only. -/
def addOverlayProbe (qcs610 : Bool) (pipeline : Option Handle) (w : World) : World :=
  if qcs610 then w
  else
    match w.getByName pipeline "time_overlay" with
    | none => w
    | some _ => w.onPipeline pipeline fun p => { p with probed := true }

def startVideo (qcs610 : Bool) : Launch → World → World :=
  startCapture .video (videoPipelineDesc qcs610) (addOverlayProbe qcs610)

def startAudio (qcs610 : Bool) : Launch → World → World :=
  startCapture .audio (audioPipelineDesc qcs610) fun _ w => w

def stopCapture (medium : Medium) (w : World) : World :=
  match w.manager.pipeline medium with
  | none => w
  | some h => ((w.setState (some h) .null).unref h).setPointer medium none

def stopVideo : World → World := stopCapture .video

def stopAudio : World → World := stopCapture .audio

/-- The launch is asked for no error, and its pipeline is not looked at. -/
def startAudioPlayer (launch : Launch) (w : World) : World :=
  if (w.manager.pipeline .audioPlayer).isSome then w
  else
    let w := w.parseLaunch .audioPlayer audioPlayDesc launch
    let w := w.setAudioAppSrc (w.getByName (w.manager.pipeline .audioPlayer) "audio_src")
    let w := w.setState (w.manager.pipeline .audioPlayer) .playing
    if w.manager.mainLoop then w else w.setMainLoop

def stopAudioPlayer (w : World) : World :=
  match w.manager.pipeline .audioPlayer with
  | none => w
  | some h =>
    let w := w.setAudioAppSrc none
    ((w.setState (some h) .null).unref h).setPointer .audioPlayer none

/-! ### Sequences of calls -/

inductive Call where
  | startVideo (launch : Launch)
  | stopVideo
  | startAudio (launch : Launch)
  | stopAudio
  | startAudioPlayer (launch : Launch)
  | stopAudioPlayer

def Call.run (qcs610 : Bool) : Call → World → World
  | .startVideo launch => Gst.startVideo qcs610 launch
  | .stopVideo => Gst.stopVideo
  | .startAudio launch => Gst.startAudio qcs610 launch
  | .stopAudio => Gst.stopAudio
  | .startAudioPlayer launch => Gst.startAudioPlayer launch
  | .stopAudioPlayer => Gst.stopAudioPlayer

end ConferenceCall.Gst

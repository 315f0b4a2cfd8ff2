import ConferenceCall.Manager.Run

/-! Audio activity control. Chat messages switch the talk state of a stream, and the
map always holds the state last announced. The handler of a track reads the map but
pushes whatever it says: only the assignment of `playStream` is under the condition.
It takes a track for an audio track by what the last offer with its mid said, and by the
type of the track only where no offer did. -/

namespace ConferenceCall

open Library

/-- The talk messages accepted along a run, in order. -/
def talks : List Event → Manager → List (String × Bool)
  | [], _ => []
  | ev :: evs, m => (m.accepts ev.what).toList ++ talks evs (step ev m).1

/-- The talk state a stream announced last. -/
def lastTalk (streamId : String) (accepted : List (String × Bool)) : Option Bool :=
  accepted.reverse.lookup streamId

/-- The callback hands over a track with this number. -/
def Callback.adds (cb : Callback) (track : ℕ) : Prop := ∃ pc t, cb = .track pc t ∧ t.id = track

/-- An audio packet of a session: an audio track is added for a stream, and later data
arrive on it. -/
structure AudioPacket (o : Opening) (evs : List Event) where
  /-- What happens before the track is added. -/
  before : List Event
  pc : ℕ
  track : Track
  env : Env
  /-- What happens between the two. -/
  between : List Event
  data : List UInt8
  packetEnv : Env
  after : List Event
  streamId : String
  audio : track.type = "audio"
  /-- The connection is one of the stream. -/
  captured : (o.after before).captured pc = some streamId
  /-- The library gives each track its own number. -/
  once : ∀ ev ∈ between, ¬ev.what.adds track.id
  split : evs = (before ++ ⟨.track pc track, env⟩ :: between) ++
    ⟨.trackData track.id data, packetEnv⟩ :: after

namespace AudioPacket

variable {o : Opening} {evs : List Event} (p : AudioPacket o evs)

/-- What happens before the packet arrives. -/
def earlier : List Event := p.before ++ ⟨.track p.pc p.track, p.env⟩ :: p.between

/-- The packet is handed to the player. -/
def pushed : Prop :=
  ⟨.pushAudioFrame p.data, true⟩ ∈
    (step ⟨.trackData p.track.id p.data, p.packetEnv⟩ (o.after p.earlier)).2

/-- The stream announced last to be talking. -/
def talking : Prop := lastTalk p.streamId (talks p.earlier o.state) = some true

/-- No offer had filed the mid of the track under another type when it was added. -/
def filedAudio : Prop :=
  ∀ type, (o.after p.before).midTypeMap.lookup p.track.mid = some type → type = "audio"

end AudioPacket

variable {own room : String} {m : Manager} {streamId : String}

theorem lastTalk_append (l l' : List (String × Bool)) :
    lastTalk streamId (l ++ l') = (lastTalk streamId l').or (lastTalk streamId l) := by
  rw [lastTalk, List.reverse_append, List.lookup_append]
  rfl

/-- A step changes the talk state by the message it accepts and by nothing else. -/
theorem step_talking (ev : Event) (h : m.connected) (streamId : String) :
    (step ev m).1.isStreamTalking.lookup streamId =
      (lastTalk streamId (m.accepts ev.what).toList).or (m.isStreamTalking.lookup streamId) := by
  have hchange := step_change ev h
  obtain ⟨cb, e⟩ := ev
  generalize (step ⟨cb, e⟩ m).1 = m' at hchange ⊢
  cases hchange with
  | signal hsig =>
    rename_i sig
    obtain ⟨_, _, _, _, _, _, _, _, _, _, hs⟩ := onSignal_frame sig e m
    rw [hs]
    rfl
  | context ctx hign _ =>
    have hacc : m.accepts cb = none := by
      cases cb with
      | channelText ch text => exact hign
      | _ => rfl
    simp [hacc, lastTalk]
  | publisher _ _ => rfl
  | publisherWithChannel _ _ _ => rfl
  | track _ => rfl
  | channel _ _ => rfl
  | talk hacc =>
    rename_i sender talking
    rw [hacc, Dict.lookup_insert_eq]
    by_cases hs : streamId = sender
    · simp [lastTalk, hs]
    · have hb : (streamId == sender) = false := by simpa using hs
      simp [lastTalk, List.lookup_cons, hs, hb]
  | closed pc => rfl

theorem run_talking (h : InSession own room m) (evs : List Event) (streamId : String) :
    (step.run evs m).1.isStreamTalking.lookup streamId =
      (lastTalk streamId (talks evs m)).or (m.isStreamTalking.lookup streamId) := by
  induction evs generalizing m with
  | nil => rfl
  | cons ev evs ih =>
    rw [Step.run_cons, ih (h.after_step ev), step_talking ev h.connected, talks, lastTalk_append,
      Option.or_assoc]

/-- The map holds the talk state a stream announced last. -/
theorem isStreamTalking_eq_lastTalk (o : Opening) (evs : List Event) (streamId : String) :
    (o.after evs).isStreamTalking.lookup streamId = lastTalk streamId (talks evs o.state) := by
  have hstart : o.state.isStreamTalking = ∅ := by
    rw [o.outcome_eq.1]
    exact o.idle.isStreamTalking
  rw [Opening.after, run_talking o.inSession evs streamId, hstart]
  simp

/-! ### Audio packets -/

/-- The handler of a track stays until a track with its number is added. -/
theorem trackHandlers_step (ev : Event) (h : m.connected) {track : ℕ}
    (hnew : ¬ev.what.adds track) :
    (step ev m).1.trackHandlers.lookup track = m.trackHandlers.lookup track := by
  have hchange := step_change ev h
  obtain ⟨cb, e⟩ := ev
  generalize (step ⟨cb, e⟩ m).1 = m' at hchange ⊢
  cases hchange with
  | signal hsig =>
    rename_i sig
    obtain ⟨_, _, _, _, _, _, _, _, _, _, hs⟩ := onSignal_frame sig e m
    rw [hs]
  | track _ =>
    rename_i pc t streamId hc
    have hne : track ≠ t.id := fun hk => hnew ⟨pc, t, rfl, hk.symm⟩
    rw [Dict.lookup_insert_eq, if_neg hne]
  | _ => rfl

theorem trackHandlers_run (h : InSession own room m) (evs : List Event) {track : ℕ}
    (hnew : ∀ ev ∈ evs, ¬ev.what.adds track) :
    (step.run evs m).1.trackHandlers.lookup track = m.trackHandlers.lookup track := by
  induction evs generalizing m with
  | nil => rfl
  | cons ev evs ih =>
    rw [Step.run_cons, ih (h.after_step ev) fun ev' hev => hnew ev' (by simp [hev]),
      trackHandlers_step ev h.connected (hnew ev (by simp))]

namespace AudioPacket

variable {o : Opening} {evs : List Event} (p : AudioPacket o evs)

/-- The handler of the track knows the stream and the type the mid was filed under. -/
theorem handler : (o.after p.earlier).trackHandlers.lookup p.track.id =
    some ⟨((o.after p.before).midTypeMap.lookup p.track.mid).getD "audio", p.streamId⟩ := by
  have hm := o.inSession_after p.before
  rw [earlier, o.after_append, Step.run_cons,
    trackHandlers_run (hm.after_step _) p.between p.once]
  simp [step, stepOf, deliver, p.captured, addRemoteTrack, p.audio]

/-- A packet is pushed as soon as its track passes for an audio track, whatever was announced. -/
theorem pushed_iff : p.pushed ↔ p.filedAudio := by
  have hg := (o.inSession_after p.earlier).gstManager
  simp only [pushed, filedAudio, step, stepOf, deliver_trackData_of_some p.handler,
    onTrackMessage_apply, hg, and_true]
  cases (o.after p.before).midTypeMap.lookup p.track.mid <;> simp

end AudioPacket

/-- In a session, pushing the audio packets of the streams that announced last to be talking, and
of no others, is the same as this: such a packet arrives on a track whose mid no offer filed
under another type, and every other one on a track whose mid one did. -/
theorem audio_follows_talk_iff (o : Opening) (evs : List Event) :
    (∀ p : AudioPacket o evs, p.pushed ↔ p.talking) ↔
      ∀ p : AudioPacket o evs, p.filedAudio ↔ p.talking :=
  forall_congr' fun p => by rw [p.pushed_iff]

/-- Bob's offer, his audio track, his word that he is muted and a packet. -/
def mutedPacket : AudioPacket .plain
    [(Signal.onRemoteSDP "bob" "offer" "").event .calm,
      ⟨.track 1 ⟨0, "remote-audio-111", "audio"⟩, .calm⟩,
      ⟨.channelText (.local 0) (some (.object [("eventType", .string "MESSAGE_RECEIVED"),
        ("senderId", .string "bob"), ("message", .string "iammute")])), .calm⟩,
      ⟨.trackData 0 [1, 2, 3], .calm⟩] where
  before := [(Signal.onRemoteSDP "bob" "offer" "").event .calm]
  pc := 1
  track := ⟨0, "remote-audio-111", "audio"⟩
  env := .calm
  between := [⟨.channelText (.local 0) (some (.object [("eventType", .string "MESSAGE_RECEIVED"),
    ("senderId", .string "bob"), ("message", .string "iammute")])), .calm⟩]
  data := [1, 2, 3]
  packetEnv := .calm
  after := []
  streamId := "bob"
  audio := rfl
  captured := by decide
  once := by
    intro ev hev
    rw [List.mem_singleton.mp hev]
    rintro ⟨_, _, h, -⟩
    cases h
  split := rfl

/-- Bob is muted and heard. -/
theorem muted_stream_heard : ¬ ∀ (o : Opening) (evs : List Event) (p : AudioPacket o evs),
    p.pushed ↔ p.talking := by
  intro h
  have hb := h _ _ mutedPacket
  exact absurd (hb.mp (by unfold AudioPacket.pushed; decide)) (by unfold AudioPacket.talking; decide)

end ConferenceCall

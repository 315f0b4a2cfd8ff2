import ConferenceCall.Session.Ownership

/-! The two senders. A chat message looks its channel up under the publish stream id, binary data
under a label that is the name of a room by default. No two ids of the map share a channel, so the
two reach the same one exactly when the stream is called like that room. -/

namespace ConferenceCall

open Library

/-- The default label of `SendBinaryMessage`. -/
def ROOM_ID_STR : String := "room1"

/-- The data channel a text is transmitted on. -/
def Call.texts : Call → Option Channel
  | .sendText ch _ => some ch
  | _ => none

/-- The data channel binary data is transmitted on. -/
def Call.carries : Call → Option Channel
  | .sendBinary ch _ => some ch
  | _ => none

/-- The channels on which something is transmitted. -/
def channels (on : Call → Option Channel) (calls : List Invocation) : List Channel :=
  calls.filterMap fun i => on i.call

variable {e e' : Env} {m : Manager} {ch : Channel}

theorem sendBinaryMessage_apply (data : List UInt8) (label : String) (e : Env) (m : Manager) :
    (sendBinaryMessage data label e m).calls =
      ((m.localDataChannels.lookup label).filter e.isOpen).toList.map fun dc =>
        ⟨.sendBinary dc data, !e.throws .binarySend⟩ := by
  rw [sendBinaryMessage, Act.gets_bind]
  cases m.localDataChannels.lookup label with
  | none => rfl
  | some dc => cases hopen : e.isOpen dc <;> simp [hopen, call_apply, Option.filter]

/-- The text goes out on the channel of the sender when the channel is open. -/
theorem sendChat_apply (text senderId date : String) (e : Env) (m : Manager)
    (hdump : e.throws .chatDump = false) : (sendChat text senderId date e m).calls =
      ((m.localDataChannels.lookup senderId).filter e.isOpen).toList.map fun dc =>
        ⟨.sendText dc ⟨text, senderId, date⟩, !e.throws .chatSend⟩ := by
  rw [sendChat, Act.bind_apply, check_apply, hdump, if_neg Bool.false_ne_true,
    Outcome.andThen_some, Act.gets_bind]
  cases m.localDataChannels.lookup senderId with
  | none => rfl
  | some dc => cases hopen : e.isOpen dc <;> simp [hopen, call_apply, Option.filter]

theorem mem_channels_binary {data : List UInt8} {label : String} :
    ch ∈ channels Call.carries (sendBinaryMessage data label e m).calls ↔
      m.localDataChannels.lookup label = some ch ∧ e.isOpen ch = true := by
  rw [sendBinaryMessage_apply]
  simp [channels, Call.carries, Option.filter_eq_some_iff]

/-- A chat message that is transmitted was found under the publish stream id. -/
theorem mem_channels_chat {text date : String}
    (h : ch ∈ channels Call.texts (sendChatMessage text date e m).calls) :
    m.localDataChannels.lookup m.publishStreamId = some ch ∧ e.isOpen ch = true := by
  rw [sendChatMessage, Act.gets_bind] at h
  split_ifs at h with hready
  · rw [Act.gets_bind] at h
    cases hdump : e.throws .chatDump with
    | true => simp [sendChat, check_apply, hdump, channels] at h
    | false =>
      rw [sendChat_apply _ _ _ _ _ hdump] at h
      simpa [channels, Call.texts, Option.filter_eq_some_iff] using h
  · simp [channels] at h

/-- A channel is stored under one id only. -/
theorem Manager.Linked.channel_inj (h : m.Linked) {s t : String}
    (hs : m.localDataChannels.lookup s = some ch) (ht : m.localDataChannels.lookup t = some ch) :
    s = t := by
  obtain ⟨pc, hpc, rfl⟩ := h.channel s ch hs
  obtain ⟨pc', hpc', hsame⟩ := h.channel t _ ht
  cases hsame
  exact h.owned.inj hpc hpc'

/-- Whatever has happened to a manager: when a chat message is transmitted on a channel, binary
data with the default label is transmitted on it as well exactly when the publish stream has the
name of the default room. -/
theorem default_label_reaches_iff (inputs : List (Timed Input)) (hopen : e'.isOpen = e.isOpen)
    {text date : String} (data : List UInt8)
    (hsent : ch ∈ channels Call.texts
      (sendChatMessage text date e (inputStep.run inputs {}).1).calls) :
    ch ∈ channels Call.carries
        (sendBinaryMessage data ROOM_ID_STR e' (inputStep.run inputs {}).1).calls ↔
      (inputStep.run inputs {}).1.publishStreamId = ROOM_ID_STR := by
  have hlinked : (inputStep.run inputs {}).1.Linked :=
    run_effects (fun _ _ he hm => hm.effect he) inputs .new
  obtain ⟨hown, hready⟩ := mem_channels_chat hsent
  rw [mem_channels_binary, hopen]
  constructor
  · rintro ⟨hlabel, -⟩
    exact hlinked.channel_inj hown hlabel
  · intro hname
    rw [← hname]
    exact ⟨hown, hready⟩

/-- A session whose stream is called like the room, up to the open socket. -/
def namesake (streamId : String) : List (Timed Input) :=
  [⟨.api (.setSignalingServerURL "ws"), .calm⟩, ⟨.api (.setStreamId streamId), .calm⟩,
    ⟨.api (.start false), .calm⟩, ⟨.callback .wsOpened, .calm⟩]

theorem namesake_sent : Channel.local 0 ∈ channels Call.texts
    (sendChatMessage "hello" "now" .calm (inputStep.run (namesake "room1") {}).1).calls := by
  decide

theorem namesake_reaches : Channel.local 0 ∈ channels Call.carries
    (sendBinaryMessage [1] ROOM_ID_STR .calm (inputStep.run (namesake "room1") {}).1).calls ↔
      (inputStep.run (namesake "room1") {}).1.publishStreamId = ROOM_ID_STR :=
  default_label_reaches_iff (e := .calm) (namesake "room1") rfl [1] namesake_sent

/-- The stream of another name has an open channel, and binary data is not transmitted. -/
theorem default_label_misses : ¬ ∀ (inputs : List (Timed Input)) (e : Env) (text date : String)
    (data : List UInt8) (ch : Channel),
    ch ∈ channels Call.texts (sendChatMessage text date e (inputStep.run inputs {}).1).calls →
      ch ∈ channels Call.carries
        (sendBinaryMessage data ROOM_ID_STR e (inputStep.run inputs {}).1).calls := by
  intro h
  have hsent := h (namesake "me") .calm "hello" "now" [1] (.local 0) (by decide)
  revert hsent
  decide

end ConferenceCall

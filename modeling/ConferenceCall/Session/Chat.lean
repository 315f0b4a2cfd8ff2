import ConferenceCall.Codec
import ConferenceCall.Manager.Run

/-! Chat texts on their way from the console of one client to the talk state of another. Both
ends leave an exception to whoever called them: the receiver when a field has the wrong type, the
sender when the text is not UTF-8. -/

namespace ConferenceCall

open Library

/-! ### The receiver -/

/-- A field of an object that is a string. -/
def Json.stringAt (j : Json) (key : String) : Option String := (j.find? key).bind Json.asString

/-- The talk state a text announces: a message that is no assignment, with its sender. -/
def announcement (text : Option Json) : Option (String × Bool) :=
  match text.bind (·.stringAt "eventType"), text.bind (·.stringAt "senderId"),
      text.bind (·.stringAt "message") with
  | some eventType, some senderId, some message =>
    if eventType = "AUDIO_TRACK_ASSIGNMENT" then none
    else if message = "iamtalking" then some (senderId, true)
    else if message = "iammute" then some (senderId, false)
    else none
  | _, _, _ => none

/-- The manager once it has heard a text. -/
def Manager.told (m : Manager) (text : Option Json) : Manager :=
  match announcement text with
  | some (senderId, talking) =>
    { m with isStreamTalking := m.isStreamTalking.insert senderId talking }
  | none => m

/-- A JSON string. -/
def Json.isString : Json → Bool
  | .string _ => true
  | _ => false

/-- The fields the handler comes to are strings: the type of the event and, unless it is an
assignment or one of them is missing, the sender and the message. -/
def Json.ChatTyped (j : Json) : Prop :=
  ∀ eventType, j.find? "eventType" = some eventType → eventType.isString ∧
    (eventType.asString = some "AUDIO_TRACK_ASSIGNMENT" ∨
      ∀ senderId message, j.find? "senderId" = some senderId → j.find? "message" = some message →
        senderId.isString ∧ message.isString)

/-- The text is no JSON, or its fields have their types. -/
def WellTyped (text : Option Json) : Prop := ∀ j ∈ text, j.ChatTyped

theorem Json.isString_iff (j : Json) : j.isString ↔ ∃ s, j.asString = some s := by
  cases j <;> simp [Json.isString, Json.asString]

/-- The extraction gets through, field by field. -/
theorem chatText_isSome_iff (j : Json) : (chatText j).isSome ↔ j.ChatTyped := by
  unfold chatText Json.ChatTyped
  rcases he : j.find? "eventType" with _ | eventType
  · simp
  rcases hev : eventType.asString with _ | name
  · simp [hev, Json.isString_iff]
  by_cases hname : name = "AUDIO_TRACK_ASSIGNMENT"
  · simp [hev, hname, Json.isString_iff]
  rcases hs : j.find? "senderId" with _ | senderId
  · simp [hev, Json.isString_iff]
  rcases hm : j.find? "message" with _ | message
  · simp [hev, Json.isString_iff]
  cases hsender : senderId.asString <;> cases hmessage : message.asString <;>
    simp [hev, hname, Json.isString_iff, hsender, hmessage]

/-- What the extraction finds is what the text announces. -/
theorem announcement_eq (j : Json) : announcement (some j) = announcedTalk j := by
  unfold announcement announcedTalk chatText Json.stringAt
  simp only [Option.bind_some]
  rcases j.find? "eventType" with _ | eventType
  · rfl
  rcases hev : eventType.asString with _ | name
  · simp [hev]
  rcases j.find? "senderId" with _ | senderId
  · by_cases hname : name = "AUDIO_TRACK_ASSIGNMENT" <;> simp [hev, hname]
  rcases j.find? "message" with _ | message
  · cases senderId.asString <;> by_cases hname : name = "AUDIO_TRACK_ASSIGNMENT" <;> simp [hev, hname]
  cases hsender : senderId.asString <;> cases hmessage : message.asString <;>
    by_cases hname : name = "AUDIO_TRACK_ASSIGNMENT" <;> simp [hev, hname, hsender, hmessage]

/-- The handler does what a text announces. -/
theorem handleDataChannelText_state (text : Option Json) (e : Env) (m : Manager) :
    (handleDataChannelText text e m).state = m.told text := by
  cases text with
  | none => rfl
  | some j =>
    rw [Manager.told, announcement_eq, announcedTalk]
    rcases hc : chatText j with _ | _ | ⟨senderId, msgText⟩
    · simp [handleDataChannelText, hc]
    · simp [handleDataChannelText, hc]
    · simp only [handleDataChannelText, Act.bind_apply, Act.ofOption_apply, hc,
        Outcome.andThen_some, Outcome.after_nil, Act.ite_apply, Act.modify_apply, Act.pure_apply]
      split_ifs <;> rfl

/-- The handler gets through a text exactly when its fields are well typed. -/
theorem handleDataChannelText_value (text : Option Json) (e : Env) (m : Manager) :
    (handleDataChannelText text e m).value = some () ↔ WellTyped text := by
  cases text with
  | none => simp [handleDataChannelText, WellTyped]
  | some j =>
    have htyped : WellTyped (some j) ↔ (chatText j).isSome := by
      simp [WellTyped, chatText_isSome_iff]
    rw [htyped]
    rcases hc : chatText j with _ | _ | ⟨senderId, msgText⟩
    · simp [handleDataChannelText, hc]
    · simp [handleDataChannelText, hc]
    · simp only [handleDataChannelText, Act.bind_apply, Act.ofOption_apply, hc,
        Outcome.andThen_some, Outcome.after_nil, Act.ite_apply, Act.modify_apply, Act.pure_apply]
      split_ifs <;> simp

/-- A well typed text is handled as it announces. -/
theorem handleDataChannelText_of_wellTyped {text : Option Json} (h : WellTyped text) (e : Env)
    (m : Manager) : handleDataChannelText text e m = ⟨some (), m.told text, []⟩ := by
  have hvalue := (handleDataChannelText_value text e m).mpr h
  have hstate := handleDataChannelText_state text e m
  have hcalls := handleDataChannelText_calls text e m
  rw [← hvalue, ← hstate, ← hcalls]

/-- A received text is handled as it announces, without an exception, exactly when its fields are
well typed. -/
theorem channel_text_handled_iff (parse : Bytes → Option Json) (text : Bytes) (e : Env)
    (m : Manager) : handleDataChannelText (parse text) e m = ⟨some (), m.told (parse text), []⟩ ↔
      WellTyped (parse text) := by
  refine ⟨fun h => ?_, fun h => handleDataChannelText_of_wellTyped h e m⟩
  rw [← handleDataChannelText_value (parse text) e m, h]

/-- The text of an event whose type is a number. -/
def numberedEvent : Bytes := utf8 "\x7b\"eventType\":1\x7d"

/-- A number is no type of an event. -/
theorem numbered_event_raises : ¬ ∀ (parse : Bytes → Option Json) (text : Bytes) (e : Env)
    (m : Manager), handleDataChannelText (parse text) e m =
      ⟨some (), m.told (parse text), []⟩ := by
  intro h
  let parse (b : Bytes) : Option Json :=
    if b = numberedEvent then some (.object [("eventType", .number 1)]) else none
  have hparse : parse numberedEvent = some (.object [("eventType", .number 1)]) := if_pos rfl
  have hnone := congrArg Outcome.value (h parse numberedEvent .calm {})
  rw [hparse] at hnone
  exact absurd hnone (by decide)

/-! ### The sender -/

/-- `SendChatMessage` on the bytes of a text: `dump` throws on bytes that are not UTF-8. -/
def sendChatBytes (text : Bytes) (date : String) : Act Unit := do
  if ← Act.gets fun m => m.isCommunicating && m.wsOpen then
    let senderId ← Act.gets Manager.publishStreamId
    let message ← Act.ofOption (ofUtf8 text)
    match ← Act.gets fun m => m.localDataChannels.lookup senderId with
    | some dc =>
      if ← Act.ask fun e => e.isOpen dc then call .chatSend (.sendText dc ⟨message, senderId, date⟩)
    | none => pure ()

section
variable {e : Env} {m : Manager} {dc : Channel} {codec : Codec}

/-- The bytes decide whether the dump throws. -/
theorem sendChatBytes_eq (text : Bytes) (date : String)
    (h : e.throws .chatDump = (ofUtf8 text).isNone) :
    sendChatBytes text date e m = sendChatMessage ((ofUtf8 text).getD "") date e m := by
  cases hrunning : m.isCommunicating && m.wsOpen with
  | false => simp [sendChatBytes, sendChatMessage, hrunning]
  | true =>
    rcases htext : ofUtf8 text with _ | message <;> rw [htext] at h
    · simp [sendChatBytes, sendChatMessage, sendChat, check_apply, hrunning, htext, h]
    · cases hdc : m.localDataChannels.lookup m.publishStreamId <;>
        simp [sendChatBytes, sendChatMessage, sendChat, check_apply, hrunning, htext, hdc, h]

/-- A talk message changes the state of its sender and of nobody else. -/
def Manager.hears (m : Manager) (senderId : String) (text : Bytes) : Manager :=
  if text = utf8 "iamtalking" then
    { m with isStreamTalking := m.isStreamTalking.insert senderId true }
  else if text = utf8 "iammute" then
    { m with isStreamTalking := m.isStreamTalking.insert senderId false }
  else m

/-- One payload is sent, and every receiver decodes it to the sender and the text. -/
def ChatArrives (codec : Codec) (text : Bytes) (date : String) (e : Env) (m : Manager) : Prop :=
  ∃ dc msg, sendChatBytes text date e m = ⟨some (), m, [⟨.sendText dc msg, true⟩]⟩ ∧
    (∃ j message, codec.parse (codec.dump msg.json) = some j ∧
      chatText j = some (some (m.publishStreamId, message)) ∧ utf8 message = text) ∧
    ∀ (e' : Env) (receiver : Manager),
      handleDataChannelText (codec.parse (codec.dump msg.json)) e' receiver =
        ⟨some (), receiver.hears m.publishStreamId text, []⟩

/-- A sent message is decoded by its fields. -/
theorem chatText_json {msg : ChatMessage} {j : Json} (h : msg.json.Agrees j) :
    chatText j = some (some (msg.senderId, msg.message)) := by
  unfold chatText
  simp only [← h.find?]
  rfl

/-- Bytes that are no UTF-8 raise an exception. -/
theorem sendChatBytes_of_invalid {text : Bytes} (date : String) (hrunning : m.isCommunicating)
    (hopen : m.wsOpen) (h : ofUtf8 text = none) : sendChatBytes text date e m = ⟨none, m, []⟩ := by
  simp [sendChatBytes, hrunning, hopen, h]

/-- The bytes of a message are sent on an open channel. -/
theorem sendChatBytes_of_valid {text : Bytes} {message : String} (date : String)
    (hrunning : m.isCommunicating) (hopen : m.wsOpen)
    (hdc : m.localDataChannels.lookup m.publishStreamId = some dc) (hisOpen : e.isOpen dc)
    (h : ofUtf8 text = some message) : sendChatBytes text date e m =
      call .chatSend (.sendText dc ⟨message, m.publishStreamId, date⟩) e m := by
  simp [sendChatBytes, hrunning, hopen, h, hdc, hisOpen]

/-- What a receiver hears of a sent message. -/
theorem told_json {msg : ChatMessage} {j : Json} (h : msg.json.Agrees j) (receiver : Manager) :
    receiver.told (some j) = receiver.hears msg.senderId (utf8 msg.message) := by
  rw [Manager.told, announcement_eq, announcedTalk, chatText_json h]
  simp only [Manager.hears, utf8_inj, beq_iff_eq]
  split_ifs <;> rfl

/-- A chat text arrives at every receiver exactly when it is UTF-8 and the channel takes it. -/
theorem chat_arrives_iff (text : Bytes) (date : String) (hrunning : m.isCommunicating)
    (hopen : m.wsOpen) (hdc : m.localDataChannels.lookup m.publishStreamId = some dc)
    (hisOpen : e.isOpen dc) (hcodec : ∀ message, utf8 message = text →
      codec.Recovers (ChatMessage.json ⟨message, m.publishStreamId, date⟩)) :
    ChatArrives codec text date e m ↔
      (ofUtf8 text).isSome ∧ e.throws .chatSend = false := by
  cases htext : ofUtf8 text with
  | none =>
    refine iff_of_false ?_ (by simp)
    rintro ⟨_, _, hsend, -⟩
    rw [sendChatBytes_of_invalid date hrunning hopen htext] at hsend
    cases hsend
  | some message =>
    obtain ⟨j, hparse, hj⟩ := hcodec message (ofUtf8_eq_some.mp htext)
    have hsent := sendChatBytes_of_valid (e := e) date hrunning hopen hdc hisOpen htext
    rw [call_apply] at hsent
    constructor
    · rintro ⟨_, _, hsend, -⟩
      rw [hsent] at hsend
      have hvalue := congrArg Outcome.value hsend
      refine ⟨rfl, ?_⟩
      by_contra hthrows
      simp [hthrows] at hvalue
    · rintro ⟨-, hthrows⟩
      refine ⟨dc, ⟨message, m.publishStreamId, date⟩, ?_, ⟨j, message, hparse, chatText_json hj,
        ofUtf8_eq_some.mp htext⟩, fun e' receiver => ?_⟩
      · rw [hsent, hthrows]
        rfl
      · have htyped : WellTyped (some j) := by
          simp [WellTyped, ← chatText_isSome_iff, chatText_json hj]
        rw [hparse, handleDataChannelText_of_wellTyped htyped, told_json hj,
          ofUtf8_eq_some.mp htext]

/-- The text of one chat message, and what is read back from it. -/
def chatCodec (msg : ChatMessage) (text : String) : Codec where
  dump _ := utf8 text
  parse b := if b = utf8 text then some msg.json else none

theorem chatCodec_recovers (msg : ChatMessage) (text : String) :
    (chatCodec msg text).Recovers msg.json :=
  ⟨msg.json, if_pos rfl, _, _, rfl, rfl, fun _ => rfl⟩

/-- A session whose socket is open. -/
def talkative : Manager := Opening.plain.after [⟨.wsOpened, .calm⟩]

/-- The switch of one's own audio. -/
theorem iamtalking_arrives : ChatArrives (chatCodec ⟨"iamtalking", "me", "now"⟩
      ("\x7b\"date\":\"now\",\"eventType\":\"MESSAGE_RECEIVED\",\"message\":\"iamtalking\"," ++
        "\"name\":\"me\",\"senderId\":\"me\"\x7d"))
    (utf8 "iamtalking") "now" .calm talkative := by
  have hdc : talkative.localDataChannels.lookup talkative.publishStreamId = some (.local 0) := by
    decide
  refine (chat_arrives_iff (utf8 "iamtalking") "now" (by decide) (by decide) hdc rfl
    fun message hmessage => ?_).mpr ⟨?_, rfl⟩
  · rw [utf8_inj.mp hmessage]
    exact chatCodec_recovers _ _
  · rw [ofUtf8_eq_some.mpr rfl]
    rfl

/-- A byte that no UTF-8 text holds raises an exception in the thread of the console. -/
theorem invalid_text_raises : ¬ ∀ (codec : Codec) (text : Bytes) (date : String) (e : Env)
    (m : Manager) (dc : Channel), m.isCommunicating → m.wsOpen →
    m.localDataChannels.lookup m.publishStreamId = some dc → e.isOpen dc →
    (∀ message, utf8 message = text →
      codec.Recovers (ChatMessage.json ⟨message, m.publishStreamId, date⟩)) →
    e.throws .chatSend = false → ChatArrives codec text date e m := by
  intro h
  have htext : ofUtf8 [255] = none := by decide +kernel
  have harrives := h ⟨fun _ => none, fun _ => []⟩ [255] "now" .calm talkative (.local 0) (by decide)
    (by decide) (by decide) rfl (fun message hm => ?_) rfl
  · obtain ⟨_, _, hsend, -⟩ := harrives
    rw [sendChatBytes_of_invalid "now" (by decide) (by decide) htext] at hsend
    cases hsend
  · rw [ofUtf8_eq_some.mpr hm] at htext
    cases htext

end

end ConferenceCall

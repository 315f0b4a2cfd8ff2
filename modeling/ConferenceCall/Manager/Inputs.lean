import ConferenceCall.Manager.Run

/-! Inputs: library callbacks and calls of the API, in any order. During a session a call of
the API changes at most the URL and the two ids and negotiates nothing. -/

namespace ConferenceCall

open Library

/-- Something that happens to a manager: a callback or a call of the API. -/
inductive Input where
  | callback (cb : Callback)
  | api (call : Api)

def act : Input → Act Unit
  | .callback cb => deliver cb
  | .api call => invoke call

def inputStep : Step (Timed Input) Manager Invocation := stepOf act

namespace Input

/-- Neither the start nor the end of a session. -/
def during : Input → Prop
  | .api (.start _) | .api .stop => False
  | _ => True

end Input

variable {e : Env} {m : Manager}

@[simp] theorem inputStep_callback (cb : Callback) (e : Env) (m : Manager) :
    inputStep ⟨.callback cb, e⟩ m = step ⟨cb, e⟩ m := rfl

theorem check_routine (site : Site) : Act.Within Eq Routine (check site) :=
  check_within (fun _ => rfl) site

theorem sendChatMessage_within (text date : String) :
    Act.Within Eq Routine (sendChatMessage text date) := by
  have hT (m₁ m₂ m₃ : Manager) (h : m₁ = m₂) (h' : m₂ = m₃) : m₁ = m₃ := h.trans h'
  have hR (m : Manager) : m = m := rfl
  refine .bind hT (.gets hR _) fun open? => ?_
  cases open? with
  | false => exact .pure hR ()
  | true =>
    refine .bind hT (.gets hR _) fun senderId => .bind hT (check_routine _) fun _ =>
      .bind hT (.gets hR _) fun found => ?_
    cases found with
    | none => exact .pure hR ()
    | some dc =>
      refine .bind hT (.ask hR _) fun ready => ?_
      cases ready with
      | false => exact .pure hR ()
      | true => exact call_within hR _ _ fun _ => ⟨rfl, rfl⟩

theorem sendBinaryMessage_within (data : List UInt8) (label : String) :
    Act.Within Eq Routine (sendBinaryMessage data label) := by
  have hT (m₁ m₂ m₃ : Manager) (h : m₁ = m₂) (h' : m₂ = m₃) : m₁ = m₃ := h.trans h'
  have hR (m : Manager) : m = m := rfl
  refine .bind hT (.gets hR _) fun found => ?_
  cases found with
  | none => exact .pure hR ()
  | some dc =>
    refine .bind hT (.ask hR _) fun ready => ?_
    cases ready with
    | false => exact .pure hR ()
    | true => exact call_within hR _ _ fun _ => ⟨rfl, rfl⟩

/-- The result of a start is dropped. -/
theorem invoke_start (isPlayer : Bool) (e : Env) (m : Manager) :
    (invoke (.start isPlayer) e m).state = (start2WayCommunication isPlayer e m).state ∧
      (invoke (.start isPlayer) e m).calls = (start2WayCommunication isPlayer e m).calls := by
  change ((do let _ ← start2WayCommunication isPlayer : Act Unit) e m).state = _ ∧
    ((do let _ ← start2WayCommunication isPlayer : Act Unit) e m).calls = _
  rcases Act.bind_cases (start2WayCommunication isPlayer) (fun _ => pure ()) e m with
    ⟨-, hb⟩ | ⟨_, -, hb⟩ <;> rw [hb]
  · exact ⟨rfl, rfl⟩
  · exact ⟨rfl, List.append_nil _⟩

/-- A call of the API during a session. -/
theorem invoke_during {call : Api} (h : (Input.api call).during) (e : Env) (m : Manager) :
    (∃ url roomId streamId, (invoke call e m).state =
      { m with signalingServerUrl := url, roomId := roomId, publishStreamId := streamId }) ∧
    ∀ c ∈ (invoke call e m).calls, Routine c := by
  cases call with
  | setSignalingServerURL url =>
    exact ⟨⟨url, m.roomId, m.publishStreamId, rfl⟩, by simp [invoke, setSignalingServerURL]⟩
  | setRoomId roomId => exact ⟨⟨_, roomId, _, rfl⟩, by simp [invoke, ConferenceCall.setRoomId]⟩
  | setStreamId streamId =>
    exact ⟨⟨_, _, streamId, rfl⟩, by simp [invoke, ConferenceCall.setStreamId]⟩
  | start isPlayer => exact h.elim
  | stop => exact h.elim
  | sendChatMessage text date =>
    obtain ⟨hs, hc⟩ := sendChatMessage_within text date e m
    exact ⟨⟨_, _, _, hs.symm⟩, hc⟩
  | sendBinaryMessage data label =>
    obtain ⟨hs, hc⟩ := sendBinaryMessage_within data label e m
    exact ⟨⟨_, _, _, hs.symm⟩, hc⟩

end ConferenceCall

import ConferenceCall.Manager.Adjust
import ConferenceCall.Manager.Inputs

/-! Setters during a session. The signaling objects keep the ids of the start; the
manager reads the live ones. A session in which every id that is read is still the
one of the start says the same as the session without the setter calls. -/

namespace ConferenceCall

open Library

namespace Input

def isSetter : Input → Bool
  | .api (.setRoomId _) | .api (.setStreamId _) => true
  | _ => false

end Input

/-- The ids the handler of a signal reads are those of the start; where the handler only
compares an id, the comparison comes out the same. -/
def Signal.undisturbed (own room : String) (m : Manager) : Signal → Prop
  | .onRemoteSDP streamId _ _ =>
    (m.pcs.lookup streamId).isSome ∨ (streamId = room ↔ streamId = m.roomId)
  | .onPublishStartedNotification => m.roomId = room
  | .onPlayFinishedNotification streamId => streamId = room ↔ streamId = m.roomId
  | .onSubtrackAddedNotification trackId => trackId = own ↔ trackId = m.publishStreamId
  | _ => True

/-- The same for an input. -/
def Input.undisturbed (own room : String) (m : Manager) : Input → Prop
  | .callback .wsOpened => m.publishStreamId = own
  | .callback cb => ∀ sig, cb.signal = some sig → sig.undisturbed own room m
  | .api (.sendChatMessage _ _) =>
    (m.isCommunicating && m.wsOpen) = true → m.publishStreamId = own
  | .api .stop => m.publishStreamId = own
  | _ => True

/-- Both ids as they were at the start. -/
def Adjust.ids (own room : String) : Adjust where
  roomId := fun _ => room
  publishStreamId := fun _ => own
  sendPlay := id
  played := id

variable {own room : String} {e : Env} {m : Manager}

theorem Adjust.ids_at (own room key : String) : (Adjust.ids own room).At key := by
  constructor <;> intros <;> rfl

theorem Signal.undisturbed.agrees {sig : Signal} (h : sig.undisturbed own room m) :
    (Adjust.ids own room).agreesOn m sig := by
  cases sig with
  | onRemoteSDP streamId type sdp => exact h
  | onPublishStartedNotification => exact ⟨Eq.symm h, Adjust.ids_at _ _ _⟩
  | onPlayStartedNotification streamId => exact Adjust.ids_at _ _ _
  | onPlayFinishedNotification streamId => exact ⟨Adjust.ids_at _ _ _, h⟩
  | onSubtrackAddedNotification trackId => exact ⟨Adjust.ids_at _ _ _, h⟩
  | onSubtrackRemovedNotification trackId => exact Adjust.ids_at _ _ _
  | _ => trivial

theorem Input.undisturbed.agrees {cb : Callback}
    (h : (Input.callback cb).undisturbed own room m) : (Adjust.ids own room).agrees m cb := by
  cases cb with
  | wsOpened => exact Eq.symm h
  | _ => exact fun sig hs => Signal.undisturbed.agrees (h sig hs)

theorem sendChatMessage_carries (text date : String)
    (h : (m.isCommunicating && m.wsOpen) = true → m.publishStreamId = own) :
    (Adjust.ids own room).Carries (sendChatMessage text date) e m := by
  have hread : ((Adjust.ids own room).apply m).isCommunicating = m.isCommunicating ∧
      ((Adjust.ids own room).apply m).wsOpen = m.wsOpen := ⟨rfl, rfl⟩
  have hrest (senderId : String) : (Adjust.ids own room).Ignored (sendChat text senderId date) := by
    refine .bind (Adjust.check_ignored _ _) fun _ => .bind (.gets fun _ => rfl) fun found => ?_
    cases found with
    | some dc => exact .bind (.ask _) fun _ => .ite (Adjust.call_ignored _ _ _) (.pure ())
    | none => exact .pure ()
  rw [Adjust.Carries, sendChatMessage, Act.gets_bind, Act.gets_bind, hread.1, hread.2]
  cases hc : m.isCommunicating && m.wsOpen with
  | false => rfl
  | true =>
    simp only [if_true, Act.gets_bind]
    have hown : ((Adjust.ids own room).apply m).publishStreamId = m.publishStreamId :=
      (h hc).symm
    rw [hown]
    exact hrest m.publishStreamId e m

theorem sendBinaryMessage_ignored (f : Adjust) (data : List UInt8) (label : String) :
    f.Ignored (sendBinaryMessage data label) := by
  refine .bind (.gets fun _ => rfl) fun found => ?_
  cases found with
  | some dc => exact .bind (.ask _) fun _ => .ite (f.call_ignored _ _) (.pure ())
  | none => exact .pure ()

/-- An input that is no setter says the same with the ids of the start. -/
theorem inputStep_ids {i : Timed Input} (hd : i.what.during) (hk : i.what.isSetter = false)
    (h : i.what.undisturbed own room m) :
    inputStep i ((Adjust.ids own room).apply m) =
      ((Adjust.ids own room).apply (inputStep i m).1, (inputStep i m).2) := by
  obtain ⟨inp, e⟩ := i
  have hcarries (hc : (Adjust.ids own room).Carries (act inp) e m) :
      inputStep ⟨inp, e⟩ ((Adjust.ids own room).apply m) =
        ((Adjust.ids own room).apply (inputStep ⟨inp, e⟩ m).1, (inputStep ⟨inp, e⟩ m).2) := by
    simp only [inputStep, stepOf]
    rw [hc]
  cases inp with
  | callback cb => exact hcarries (Adjust.deliver_carries (Input.undisturbed.agrees h))
  | api call =>
    cases call with
    | setSignalingServerURL url => rfl
    | setRoomId roomId => cases hk
    | setStreamId streamId => cases hk
    | start isPlayer => exact hd.elim
    | stop => exact hd.elim
    | sendChatMessage text date => exact hcarries (sendChatMessage_carries text date h)
    | sendBinaryMessage data label => exact hcarries (sendBinaryMessage_ignored _ data label e m)

/-- A setter changes only what the start has fixed. -/
theorem inputStep_setter {i : Timed Input} (hk : i.what.isSetter = true) :
    (Adjust.ids own room).apply (inputStep i m).1 = (Adjust.ids own room).apply m ∧
      (inputStep i m).2 = [] := by
  obtain ⟨inp, e⟩ := i
  cases inp with
  | callback cb => cases hk
  | api call =>
    cases call with
    | setRoomId roomId => exact ⟨rfl, rfl⟩
    | setStreamId streamId => exact ⟨rfl, rfl⟩
    | _ => cases hk

theorem stop_ids (h : m.publishStreamId = own) :
    (stop2WayCommunication e ((Adjust.ids own room).apply m)).calls =
      (stop2WayCommunication e m).calls := by
  have hleaves : ((Adjust.ids own room).apply m).leaves = m.leaves := by
    rw [← h]
    rfl
  have hcomm : ((Adjust.ids own room).apply m).isCommunicating = m.isCommunicating := rfl
  have hopen : ((Adjust.ids own room).apply m).wsOpen = m.wsOpen := rfl
  have hsend : (sendLeave e ((Adjust.ids own room).apply m)).calls = (sendLeave e m).calls := by
    have hbody : (Adjust.ids own room).Ignored sendStopAndLeave :=
      .bind (Adjust.send_ignored _ _ _) fun _ => .bind (Adjust.send_ignored _ _ _) fun _ =>
        Adjust.send_ignored _ _ _
    rw [sendLeave, Act.gets_bind, Act.gets_bind, hleaves]
    cases m.leaves with
    | false => rfl
    | true =>
      simp only [if_true, Act.attempt_apply]
      rw [hbody]
  cases hc : m.isCommunicating with
  | false => simp [stop2WayCommunication, hcomm, hc]
  | true =>
    rw [stop2WayCommunication_calls hc, stop2WayCommunication_calls (hcomm.trans hc), hsend, hopen]

/-- The setter calls of a session, up to its Stop, make no difference to anything it says
when every id is read while it is still that of the start. -/
theorem setters_silent (o : Opening) (l : List (Timed Input)) (e : Env)
    (hl : ∀ i ∈ l, i.what.during)
    (hread : inputStep.Along (fun i m => i.what.undisturbed o.own o.room m)
      (l ++ [⟨.api .stop, e⟩]) o.state) :
    (inputStep.run (l ++ [⟨.api .stop, e⟩]) o.state).2 =
      (inputStep.run (l.filter (fun i => !i.what.isSetter) ++ [⟨.api .stop, e⟩]) o.state).2 := by
  have hstart : (Adjust.ids o.own o.room).apply o.state = o.state := by
    have hm := o.inSession
    have hids : (Adjust.ids o.own o.room).apply o.state =
        { o.state with roomId := o.room, publishStreamId := o.own } := rfl
    rw [hids, ← hm.roomId, ← hm.publishStreamId]
  obtain ⟨hrun, hstop⟩ := Step.along_append.mp hread
  have hduring : inputStep.Along (fun i m => i.what.during ∧ i.what.undisturbed o.own o.room m) l
      o.state := by
    rintro l₁ i l₂ rfl
    exact ⟨hl i (by simp), hrun l₁ i l₂ rfl⟩
  obtain ⟨hstate, hout⟩ := Step.run_filter inputStep
    (R := fun m out m' out' => m' = (Adjust.ids o.own o.room).apply m ∧ out = out')
    (fun i => !i.what.isSetter)
    (fun i m out m' out' h hok hk => by
      obtain ⟨rfl, rfl⟩ := h
      rw [inputStep_ids hok.1 (by simpa using hk) hok.2]
      exact ⟨rfl, rfl⟩)
    (fun i m out m' out' h hok hk => by
      obtain ⟨rfl, rfl⟩ := h
      have hset : (Adjust.ids o.own o.room).apply (inputStep i m).1 =
          (Adjust.ids o.own o.room).apply m ∧ (inputStep i m).2 = [] :=
        inputStep_setter (by simpa using hk)
      obtain ⟨hs, ho⟩ := hset
      exact ⟨hs.symm, by rw [ho, List.append_nil]⟩)
    l o.state [] o.state [] ⟨hstart.symm, rfl⟩ hduring
  have hlast : (inputStep.run l o.state).1.publishStreamId = o.own := hstop [] _ [] rfl
  simp only [List.nil_append] at hstate hout
  rw [Step.run_append, Step.run_append, hout, hstate]
  simp only [Step.run_cons, Step.run_nil, List.append_nil]
  exact congrArg _ (stop_ids hlast).symm

/-- The room id is changed behind a session that does not look at it. -/
theorem room_setter_silent :
    (inputStep.run [⟨.api (.setRoomId "elsewhere"), .calm⟩,
        ⟨.callback (.wsMessage (some Signal.onJoinedRoomNotification.text)), .calm⟩,
        ⟨.api .stop, .calm⟩] Opening.plain.state).2 =
      (inputStep.run [⟨.callback (.wsMessage (some Signal.onJoinedRoomNotification.text)), .calm⟩,
        ⟨.api .stop, .calm⟩] Opening.plain.state).2 := by
  refine setters_silent .plain [⟨.api (.setRoomId "elsewhere"), .calm⟩,
    ⟨.callback (.wsMessage (some Signal.onJoinedRoomNotification.text)), .calm⟩] .calm ?_ ?_
  · intro i hi
    rcases List.mem_pair.mp hi with rfl | rfl <;> trivial
  · refine Step.along_cons.mpr ⟨trivial, Step.along_cons.mpr ⟨fun sig hs => ?_,
      Step.along_cons.mpr ⟨rfl, Step.along_nil _ _⟩⟩⟩
    cases (Signal.event_signal .onJoinedRoomNotification .calm).symm.trans hs
    trivial

/-- With another stream id, Stop does not leave. -/
theorem stream_setter_heard : ¬ ∀ (o : Opening) (l : List (Timed Input)) (e : Env),
    (∀ i ∈ l, i.what.during) →
      (inputStep.run (l ++ [⟨.api .stop, e⟩]) o.state).2 =
        (inputStep.run (l.filter (fun i => !i.what.isSetter) ++ [⟨.api .stop, e⟩]) o.state).2 := by
  intro h
  have hsame := h .plain [⟨.api (.setStreamId "other"), .calm⟩] .calm fun i hi => by
    rw [List.mem_singleton.mp hi]
    trivial
  exact absurd hsame (by decide)

end ConferenceCall

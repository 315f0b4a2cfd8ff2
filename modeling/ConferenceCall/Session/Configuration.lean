import ConferenceCall.Manager.Run

/-! The C API with its one global manager. Some functions make the manager when there is none, the
others do nothing without it, so that what is configured before the manager is made gets lost. -/

namespace ConferenceCall

open Library

/-- Computations on `g_webrtcManager`. -/
abbrev Global (α : Type) := Library.Act Env (Option Manager) Invocation α

/-- `GetInstance()->`: the manager is made when there is none. -/
def onInstance {α : Type} (x : Act α) : Global α := fun e g =>
  let o := x e (g.getD {})
  ⟨o.value, some o.state, o.calls⟩

/-- `if (g_webrtcManager)`. -/
def ifInstance (x : Act Unit) : Global Unit := fun e g =>
  match g with
  | none => ⟨some (), none, []⟩
  | some m =>
    let o := x e m
    ⟨o.value, some o.state, o.calls⟩

def WebRTC_Init : Global Unit := onInstance (pure ())

def WebRTC_SetSignalingServerURL (url : String) : Global Unit := onInstance (setSignalingServerURL url)

def WebRTC_Start2WayCommunication (isPlayer : Bool) : Global Bool :=
  onInstance (start2WayCommunication isPlayer)

def WebRTC_Stop2WayCommunication : Global Unit := ifInstance stop2WayCommunication

def WebRTC_SendChatMessage (text date : String) : Global Unit := ifInstance (sendChatMessage text date)

def WebRTC_SetRoomId (roomId : String) : Global Unit := ifInstance (setRoomId roomId)

def WebRTC_SetStreamId (streamId : String) : Global Unit := ifInstance (setStreamId streamId)

/-- A call that configures. -/
inductive Setting where
  | init
  | setSignalingServerURL (url : String)
  | setRoomId (roomId : String)
  | setStreamId (streamId : String)
  deriving DecidableEq

namespace Setting

def apply : Setting → Global Unit
  | .init => WebRTC_Init
  | .setSignalingServerURL url => WebRTC_SetSignalingServerURL url
  | .setRoomId roomId => WebRTC_SetRoomId roomId
  | .setStreamId streamId => WebRTC_SetStreamId streamId

def applyAll : List Setting → Global Unit
  | [] => pure ()
  | c :: l => do c.apply; applyAll l

def url : Setting → Option String
  | .setSignalingServerURL url => some url
  | _ => none

def room : Setting → Option String
  | .setRoomId roomId => some roomId
  | _ => none

def stream : Setting → Option String
  | .setStreamId streamId => some streamId
  | _ => none

/-- The manager is made here. -/
def makes : Setting → Bool
  | .init | .setSignalingServerURL _ => true
  | .setRoomId _ | .setStreamId _ => false

/-- The last argument of a setter, or the default. -/
def last (arg : Setting → Option String) (d : String) (l : List Setting) : String :=
  l.foldl (fun d c => (arg c).getD d) d

/-- The calls from the first on that makes the manager. -/
def made (l : List Setting) : List Setting := l.dropWhile fun c => !c.makes

variable {arg : Setting → Option String} {d : String} {l l' : List Setting}

theorem last_append : last arg d (l ++ l') = last arg (last arg d l) l' := List.foldl_append ..

theorem last_cons (c : Setting) (l : List Setting) :
    last arg d (c :: l) = last arg ((arg c).getD d) l := rfl

/-- Without a call of the setter there is the default. -/
theorem last_of_none (h : ∀ c ∈ l, arg c = none) : last arg d l = d := by
  induction l with
  | nil => rfl
  | cons c l ih =>
    rw [last_cons, h c List.mem_cons_self]
    exact ih fun c' hc' => h c' (List.mem_cons_of_mem c hc')

/-- After a call of the setter the default does not matter. -/
theorem last_of_some (h : ∃ c ∈ l, (arg c).isSome) (d d' : String) :
    last arg d l = last arg d' l := by
  obtain ⟨c, hc, hsome⟩ := h
  obtain ⟨a, ha⟩ := Option.isSome_iff_exists.mp hsome
  obtain ⟨s, t, rfl⟩ := List.append_of_mem hc
  rw [last_append, last_append, last_cons, last_cons, ha, Option.getD_some, Option.getD_some]

theorem append_made (l : List Setting) :
    ∃ s, l = s ++ made l ∧ ∀ c ∈ s, c.makes = false :=
  ⟨l.takeWhile fun c => !c.makes, List.takeWhile_append_dropWhile.symm, fun c hc => by
    simpa using List.all_eq_true.mp List.all_takeWhile c hc⟩

/-- What was set last was set when the manager was there, or is the default. -/
def Kept (arg : Setting → Option String) (d : String) (l : List Setting) : Prop :=
  (∃ c ∈ made l, (arg c).isSome) ∨ last arg d l = d

instance (arg : Setting → Option String) (d : String) (l : List Setting) :
    Decidable (Kept arg d l) := inferInstanceAs (Decidable (_ ∨ _))

theorem last_made_iff : last arg d (made l) = last arg d l ↔ Kept arg d l := by
  obtain ⟨s, hs, -⟩ := append_made l
  by_cases h : ∃ c ∈ made l, (arg c).isSome
  · refine iff_of_true ?_ (.inl h)
    nth_rewrite 2 [hs]
    rw [last_append]
    exact last_of_some h _ _
  · have hnone : ∀ c ∈ made l, arg c = none := fun c hc =>
      Option.not_isSome_iff_eq_none.mp fun hsome => h ⟨c, hc, hsome⟩
    rw [last_of_none hnone, Kept, or_iff_right h, eq_comm]

/-- The address is never lost. -/
theorem last_url_made : last url d (made l) = last url d l := by
  obtain ⟨s, hs, hmakes⟩ := append_made l
  nth_rewrite 2 [hs]
  have hnone : ∀ c ∈ s, url c = none := by
    intro c hc
    have h := hmakes c hc
    cases c with
    | setSignalingServerURL url => cases h
    | _ => rfl
  rw [last_append, last_of_none hnone]

end Setting

open Setting

/-- A manager on which nothing but setters was called. -/
def Manager.configured (url room stream : String) : Manager :=
  { signalingServerUrl := url, roomId := room, publishStreamId := stream }

theorem applyAll_some (l : List Setting) (url room stream : String) (e : Env) :
    applyAll l e (some (.configured url room stream)) =
      ⟨some (), some (.configured (last Setting.url url l) (last Setting.room room l)
        (last Setting.stream stream l)), []⟩ := by
  induction l generalizing url room stream with
  | nil => rfl
  | cons c l ih =>
    rw [applyAll, Act.bind_apply]
    cases c with
    | _ => exact congrArg (Outcome.after []) (ih ..)

theorem applyAll_none (l : List Setting) (e : Env) : ∃ g, applyAll l e none = ⟨some (), g, []⟩ ∧
    g.getD {} = .configured (last Setting.url "" (made l)) (last Setting.room "room1" (made l))
      (last Setting.stream "" (made l)) := by
  induction l with
  | nil => exact ⟨none, rfl, rfl⟩
  | cons c l ih =>
    rw [applyAll, Act.bind_apply]
    cases c with
    | init => exact ⟨_, congrArg (Outcome.after []) (applyAll_some l "" "room1" "" e), rfl⟩
    | setSignalingServerURL url =>
      exact ⟨_, congrArg (Outcome.after []) (applyAll_some l url "room1" "" e), rfl⟩
    | setRoomId roomId => exact ih
    | setStreamId streamId => exact ih

/-- The address a call opens the socket at. -/
def Call.opens : Call → Option String
  | .openSocket url => some url
  | _ => none

/-- If the start gets through, the session is in this room under this id, and its socket was
opened at this address and nowhere else. -/
def StartsAs (url room own : String) (o : Outcome (Option Manager) Invocation Bool) : Prop :=
  o.value = some true →
    (∃ m, o.state = some m ∧ InSession own room m) ∧ (o.calls.filterMap fun i => i.call.opens) = [url]

/-- A start after what was configured. -/
def startAfter (l : List Setting) (isPlayer : Bool) : Global Bool := do
  applyAll l
  WebRTC_Start2WayCommunication isPlayer

theorem Call.opens_of_builds {c : Call} (h : c.builds) : c.opens = none := by
  cases c <;> simp_all [Call.builds, Call.opens]

/-- Setting up the publish peer opens no socket. -/
theorem setupPublishPeer_opens {streamId : String} {e : Env} {m : Manager}
    (h : m.pcs.lookup streamId = none) :
    ((setupPublishPeer streamId e m).calls.filterMap fun i => i.call.opens) = [] := by
  rw [List.filterMap_eq_nil_iff]
  intro i hi
  cases ht : e.throws .createPeer with
  | true =>
    rw [setupPublishPeer_of_throws h ht, List.mem_singleton] at hi
    rw [hi]
    rfl
  | false => exact Call.opens_of_builds ((setupPublishPeer_spec h ht).2 i hi)

/-- A start that gets through opened its socket at the configured address. -/
theorem Opening.opens (o : Opening) :
    (o.calls.filterMap fun i => i.call.opens) = [o.before.signalingServerUrl] := by
  have hv := o.opened
  rw [Opening.calls]
  rw [start2WayCommunication_apply _ _ o.idle.isCommunicating] at hv ⊢
  split_ifs at hv ⊢ with hurl
  · cases hv
  have hnone : (o.before.starting o.isPlayer).pcs.lookup o.before.publishStreamId = none := by
    rw [Manager.starting, o.idle.pcs]
    rfl
  have hsetup := setupPublishPeer_opens (e := o.env) hnone
  rcases Act.bind_cases (setupPublishPeer o.before.publishStreamId) (fun _ => do
      if ← connect o.before.signalingServerUrl o.before.publishStreamId then return true
      else abandon) o.env (o.before.starting o.isPlayer) with ⟨-, hb⟩ | ⟨_, -, hb⟩
  · rw [hb] at hv
    cases hv
  · rw [hb] at hv ⊢
    rw [Outcome.after_calls, List.filterMap_append, hsetup, List.nil_append]
    cases hopen : o.env.throws .openSocket with
    | true => simp [Opening.connect_apply, hopen, Opening.abandon_value] at hv
    | false =>
      simp [Opening.connect_apply, hopen, Call.opens]

/-- Where nothing fails a start with an address gets through. -/
theorem start_calm {url : String} (room stream : String)
    (hurl : (Manager.configured url room stream).lacksUrl = false) :
    (start2WayCommunication false .calm (.configured url room stream)).value = some true := by
  rw [start2WayCommunication_apply _ _ rfl, hurl, if_neg Bool.false_ne_true]
  rfl

theorem startAfter_apply (l : List Setting) (isPlayer : Bool) (e : Env) :
    startAfter l isPlayer e none = WebRTC_Start2WayCommunication isPlayer e
      (some (.configured (last Setting.url "" l) (last Setting.room "room1" (made l))
        (last Setting.stream "" (made l)))) := by
  obtain ⟨g, happly, hg⟩ := applyAll_none l e
  rw [startAfter, Act.bind_apply, happly, Outcome.andThen_some, Outcome.after_nil,
    WebRTC_Start2WayCommunication, onInstance, hg, last_url_made]
  rfl

/-- A start that gets through uses exactly what the manager was configured with. -/
theorem startsAs_iff {url room stream url' room' stream' : String} {isPlayer : Bool} {e : Env}
    (h : (start2WayCommunication isPlayer e (.configured url room stream)).value = some true) :
    StartsAs url' room' stream' (WebRTC_Start2WayCommunication isPlayer e
      (some (.configured url room stream))) ↔ url = url' ∧ room = room' ∧ stream = stream' := by
  let o : Opening := ⟨.configured url room stream, isPlayer, e, idle_new url room stream, h⟩
  have hsession : InSession stream room o.state := o.inSession
  have hopens : (o.calls.filterMap fun i => i.call.opens) = [url] := o.opens
  constructor
  · intro hstarts
    obtain ⟨⟨m, hm, hin⟩, hcalls⟩ := hstarts h
    obtain rfl : o.state = m := Option.some.inj hm
    refine ⟨List.singleton_injective (hopens.symm.trans hcalls), ?_, ?_⟩
    · exact hsession.roomId.symm.trans hin.roomId
    · exact hsession.publishStreamId.symm.trans hin.publishStreamId
  · rintro ⟨rfl, rfl, rfl⟩ -
    exact ⟨⟨o.state, rfl, hsession⟩, hopens⟩

theorem lacksUrl_configured {url : String} (room stream : String) :
    (Manager.configured url room stream).lacksUrl = true ↔ url = "" ∨ url = "AMS_WEBSOCKET_URL" := by
  simp [Manager.lacksUrl, Manager.configured]

theorem start_lacks {url room stream : String} (isPlayer : Bool) (e : Env)
    (h : (Manager.configured url room stream).lacksUrl = true) :
    (start2WayCommunication isPlayer e (.configured url room stream)).value = some false := by
  rw [start2WayCommunication_apply _ _ rfl, if_pos h]

/-- Whatever is configured in whatever order before the first start: every session a start makes
uses the last arguments exactly when the address starts none, or the room and the stream were set
when the manager was there, or last to their defaults. Then the same last arguments start the same
session. -/
theorem configuration_kept_iff (l : List Setting) :
    ((∀ isPlayer e, StartsAs (last Setting.url "" l) (last Setting.room "room1" l)
        (last Setting.stream "" l) (startAfter l isPlayer e none)) ↔
      (last Setting.url "" l = "" ∨ last Setting.url "" l = "AMS_WEBSOCKET_URL") ∨
        Kept Setting.room "room1" l ∧ Kept Setting.stream "" l) ∧
    ∀ l', Kept Setting.room "room1" l ∧ Kept Setting.stream "" l →
      Kept Setting.room "room1" l' ∧ Kept Setting.stream "" l' →
      last Setting.url "" l = last Setting.url "" l' →
      last Setting.room "room1" l = last Setting.room "room1" l' →
      last Setting.stream "" l = last Setting.stream "" l' →
      ∀ isPlayer e, startAfter l isPlayer e none = startAfter l' isPlayer e none := by
  constructor
  · constructor
    · intro h
      by_cases hurl : (Manager.configured (last Setting.url "" l)
        (last Setting.room "room1" (made l)) (last Setting.stream "" (made l))).lacksUrl = true
      · exact .inl ((lacksUrl_configured _ _).mp hurl)
      · have hstarts := h false .calm
        rw [startAfter_apply, startsAs_iff (start_calm _ _ (Bool.not_eq_true _ ▸ hurl))] at hstarts
        exact .inr ⟨last_made_iff.mp hstarts.2.1, last_made_iff.mp hstarts.2.2⟩
    · rintro (hurl | ⟨hroom, hstream⟩) isPlayer e hvalue
      · rw [startAfter_apply] at hvalue
        have hlacks := start_lacks isPlayer e ((lacksUrl_configured
          (last Setting.room "room1" (made l)) (last Setting.stream "" (made l))).mpr hurl)
        cases hlacks.symm.trans hvalue
      · rw [startAfter_apply] at hvalue ⊢
        refine (startsAs_iff hvalue).mpr ⟨rfl, ?_, ?_⟩ hvalue
        · exact last_made_iff.mpr hroom
        · exact last_made_iff.mpr hstream
  · rintro l' ⟨hroom, hstream⟩ ⟨hroom', hstream'⟩ hurls hrooms hstreams isPlayer e
    rw [startAfter_apply, startAfter_apply, last_made_iff.mpr hroom, last_made_iff.mpr hstream,
      last_made_iff.mpr hroom', last_made_iff.mpr hstream', hurls, hrooms, hstreams]

/-- A room that is set first is lost; the same calls in the usual order set it. -/
example : ¬Kept Setting.room "room1" [.setRoomId "x", .setSignalingServerURL "ws"] ∧
    Kept Setting.room "room1" [.setSignalingServerURL "ws", .setRoomId "x"] := by decide

/-- The session is in the default room. -/
theorem room_lost : ¬ ∀ (l : List Setting) (isPlayer : Bool) (e : Env),
    StartsAs (last Setting.url "" l) (last Setting.room "room1" l) (last Setting.stream "" l)
      (startAfter l isPlayer e none) := by
  intro h
  obtain ⟨⟨m, hm, hin⟩, -⟩ := h [.setRoomId "x", .setSignalingServerURL "ws"] false .calm rfl
  cases hm
  exact absurd hin.roomId (by decide)

end ConferenceCall

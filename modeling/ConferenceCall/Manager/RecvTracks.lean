import ConferenceCall.Manager.Description

/-! The receive tracks of an offer against the sections of its SDP. A track is named after the type
and the payload of its section, not after the section, so that sections with one payload share a
track and the type of a section is filed under the name of its track. -/

namespace ConferenceCall

open Library

/-- An entry of the `rtp` list of a section. -/
structure Rtp where
  codec : String
  payload : ℤ

/-- A media section of an SDP. -/
structure MediaSection where
  type : String
  mid : String
  direction : Option String
  rtp : List Rtp

/-- The description a receive track is added with. -/
structure RecvDescription where
  mid : String
  type : String
  payloadType : ℤ

/-- The name of a receive track. -/
def trackName (type : String) (payloadType : ℤ) : String :=
  "remote-" ++ type ++ "-" ++ toString payloadType

/-- `recvTrack` with the payload type that is added to the description. -/
def recvDescription (media : Json) : Option (Option RecvDescription) := do
  let type ← media.value "type" Json.asString ""
  let dir ← media.value "direction" Json.asString "sendrecv"
  if (dir != "sendrecv" && dir != "sendonly") || (type != "audio" && type != "video") then
    return none
  let payloadType ← match media.find? "rtp" with
    | some rtp => recvPayload type rtp.items
    | none => some (-1)
  if payloadType < 0 then return none
  return some ⟨trackName type payloadType, type, payloadType⟩

/-- The descriptions for the sections of a parsed SDP. -/
def recvDescriptions (items : List Json) : List RecvDescription :=
  items.filterMap fun media => (recvDescription media).join

theorem recvTrack_eq (media : Json) :
    recvTrack media = (recvDescription media).map (Option.map fun d => (d.mid, d.type)) := by
  unfold recvTrack recvDescription
  rcases media.value "type" Json.asString "" with _ | type
  · rfl
  rcases media.value "direction" Json.asString "sendrecv" with _ | dir
  · rfl
  simp only [Option.bind_eq_bind, Option.bind_some]
  split_ifs with hskip hneg
  · rfl
  · rcases media.find? "rtp" with _ | rtp
    · rfl
    simp only
    rcases recvPayload type rtp.items with _ | payloadType
    · rfl
    simp only [Option.bind_some]
    split_ifs <;> rfl
  · exact absurd (by decide) hneg

namespace Rtp

/-- How `sdptransform` represents an entry. -/
def Reads (r : Rtp) (j : Json) : Prop :=
  ∃ fields, j = .object fields ∧ fields.lookup "codec" = some (.string r.codec) ∧
    fields.lookup "payload" = some (.number r.payload)

/-- The codec the program receives for a type. -/
def supported (type : String) (r : Rtp) : Bool :=
  (type == "video" && r.codec == "H264") || (type == "audio" && r.codec == "opus")

end Rtp

namespace MediaSection

variable (s : MediaSection)

/-- How `sdptransform` represents a section. -/
def Reads (j : Json) : Prop :=
  ∃ fields items, j = .object fields ∧ fields.lookup "type" = some (.string s.type) ∧
    fields.lookup "mid" = some (.string s.mid) ∧
    fields.lookup "direction" = s.direction.map .string ∧
    fields.lookup "rtp" = some (.array items) ∧ List.Forall₂ Rtp.Reads s.rtp items

/-- The payload type of the first supported codec. -/
def payload : Option ℤ := (s.rtp.find? (Rtp.supported s.type)).map Rtp.payload

/-- The section offers to send a medium the program receives. -/
def accepted : Bool :=
  (s.type == "audio" || s.type == "video") &&
    (s.direction.getD "sendrecv" == "sendrecv" || s.direction.getD "sendrecv" == "sendonly") &&
    s.payload.isSome

/-- The description the program makes for a section: the payload is cast to an `int`. -/
def described : Option RecvDescription :=
  if s.accepted then
    (s.payload.map fun n => n.bmod (2 ^ 32)).bind fun n =>
      if n < 0 then none else some ⟨trackName s.type n, s.type, n⟩
  else none

end MediaSection

variable {s : MediaSection} {j : Json}

/-- One round of the loop over the `rtp` list. -/
theorem recvPayload_cons (type : String) {r : Rtp} (h : r.Reads j) (rest : List Json) :
    recvPayload type (j :: rest) =
      if r.supported type then some (r.payload.bmod (2 ^ 32)) else recvPayload type rest := by
  obtain ⟨fields, rfl, hcodec, hpayload⟩ := h
  simp only [recvPayload, Json.value, hcodec, hpayload, Json.asString, Json.asInt,
    Option.bind_eq_bind, Option.bind_some]
  by_cases hvideo : (type == "video" && r.codec == "H264") = true
  · have hsupported : r.supported type = true := by rw [Rtp.supported, hvideo, Bool.true_or]
    rw [if_pos hvideo, if_pos hsupported]
    rfl
  · have hsupported : r.supported type = (type == "audio" && r.codec == "opus") := by
      rw [Rtp.supported, Bool.eq_false_of_not_eq_true hvideo, Bool.false_or]
    rw [if_neg hvideo]
    simp only [hsupported]
    rfl

theorem recvPayload_of_reads (type : String) {rtp : List Rtp} {items : List Json}
    (h : List.Forall₂ Rtp.Reads rtp items) : recvPayload type items =
      some (((rtp.find? (Rtp.supported type)).map fun r => r.payload.bmod (2 ^ 32)).getD (-1)) := by
  induction h with
  | nil => rfl
  | @cons r _ _ _ hr _ ih =>
    rw [recvPayload_cons type hr, List.find?_cons, ih]
    cases r.supported type <;> rfl

@[simp] theorem Json.asString_string (t : String) : (Json.string t).asString = some t := rfl

/-- The condition under which the loop goes on to the payload. -/
theorem MediaSection.accepted_eq (s : MediaSection) : s.accepted =
    (!((s.direction.getD "sendrecv" != "sendrecv" && s.direction.getD "sendrecv" != "sendonly") ||
      (s.type != "audio" && s.type != "video")) && s.payload.isSome) := by
  simp only [accepted, bne]
  cases s.type == "audio" <;> cases s.type == "video" <;>
    cases s.direction.getD "sendrecv" == "sendrecv" <;>
    cases s.direction.getD "sendrecv" == "sendonly" <;> rfl

/-- One round of the loop over the sections. -/
theorem recvDescription_of_reads (h : s.Reads j) : recvDescription j = some s.described := by
  obtain ⟨fields, items, rfl, htype, -, hdir, hrtp, hitems⟩ := h
  have hpayload : recvPayload s.type items =
      some ((s.payload.map fun n => n.bmod (2 ^ 32)).getD (-1)) := by
    rw [recvPayload_of_reads s.type hitems, MediaSection.payload, Option.map_map]
    rfl
  have htype' : (Json.object fields).value "type" Json.asString "" = some s.type := by
    simp only [Json.value, htype, Json.asString_string]
  have hdir' : (Json.object fields).value "direction" Json.asString "sendrecv" =
      some (s.direction.getD "sendrecv") := by
    cases hd : s.direction <;> simp [Json.value, hdir, hd]
  have hrtp' : (Json.object fields).find? "rtp" = some (.array items) := hrtp
  simp only [recvDescription, htype', hdir', hrtp', Json.items, hpayload, Option.bind_eq_bind,
    Option.bind_some, MediaSection.described, s.accepted_eq]
  by_cases hskip : ((s.direction.getD "sendrecv" != "sendrecv" &&
      s.direction.getD "sendrecv" != "sendonly") || (s.type != "audio" && s.type != "video")) = true
  · simp only [hskip, if_true, Bool.not_true, Bool.false_and, Bool.false_eq_true, if_false]
    rfl
  · simp only [hskip, Bool.not_false, Bool.true_and]
    cases hp : s.payload with
    | none => rfl
    | some n =>
      simp only [Option.map_some, Option.getD_some, Option.isSome_some, if_true, Option.bind_some,
        Bool.false_eq_true, if_false]
      by_cases hneg : n.bmod (2 ^ 32) < 0
      · rw [if_pos hneg, if_pos hneg]
        rfl
      · rw [if_neg hneg, if_neg hneg]
        rfl

theorem recvDescriptions_of_reads {sections : List MediaSection} {items : List Json}
    (h : List.Forall₂ MediaSection.Reads sections items) :
    recvDescriptions items = sections.filterMap MediaSection.described := by
  induction h with
  | nil => rfl
  | cons hs _ ih =>
    rw [recvDescriptions, List.filterMap_cons, List.filterMap_cons, recvDescription_of_reads hs,
      Option.join_some, ← ih]
    rfl

variable {e : Env} {m : Manager}

/-- A loop over sections of which none is rejected adds the tracks of their descriptions. -/
theorem each_addRecvTrack (pc : ℕ) (hadd : ∀ i, e.throws (.addTrack i) = false)
    {items : List Json} (h : ∀ j ∈ items, (recvDescription j).isSome) (i : ℕ) (m : Manager) :
    Act.each (addRecvTrack pc) i items e m =
      ⟨some (), m.withTracks ((recvDescriptions items).map fun d => (d.mid, d.type)),
        (recvDescriptions items).map fun d => ⟨.addTrack pc d.mid d.type, true⟩⟩ := by
  induction items generalizing i m with
  | nil => rfl
  | cons j items ih =>
    have hitems := ih fun j' hj' => h j' (by simp [hj'])
    rw [Act.each_cons, recvDescriptions, List.filterMap_cons]
    rcases hj : recvDescription j with _ | _ | d
    · exact absurd (h j (by simp)) (by simp [hj])
    · have hround : addRecvTrack pc i j e m = ⟨some (), m, []⟩ := by
        simp [addRecvTrack, recvTrack_eq, hj]
      simp only [Act.bind_apply, hround, Outcome.andThen_some, Outcome.after_nil, hitems,
        Option.join_some]
      rfl
    · have hround : addRecvTrack pc i j e m =
          ⟨some (), m.withTracks [(d.mid, d.type)], [⟨.addTrack pc d.mid d.type, true⟩]⟩ := by
        simp [addRecvTrack, recvTrack_eq, hj, call_apply, hadd, Manager.withTracks, Dict.insertAll,
          Outcome.after]
      simp only [Act.bind_apply, hround, Outcome.andThen_some, hitems, Option.join_some]
      rfl

/-- The tracks of an offer. -/
theorem prepareRecvTracksFromSDP_apply (pc : ℕ) (m : Manager) {items : List Json}
    (hparse : e.throws .sdpParse = false) (hadd : ∀ i, e.throws (.addTrack i) = false)
    (hmedia : e.parsed.find? "media" = some (.array items))
    (h : ∀ j ∈ items, (recvDescription j).isSome) : prepareRecvTracksFromSDP pc e m =
      ⟨some (), m.withTracks ((recvDescriptions items).map fun d => (d.mid, d.type)),
        (recvDescriptions items).map fun d => ⟨.addTrack pc d.mid d.type, true⟩⟩ := by
  simp [prepareRecvTracksFromSDP, check_apply, hparse, hmedia, Json.items,
    each_addRecvTrack pc hadd h]

/-! ### When the tracks tell the sections apart -/

/-- The accepted sections and the added tracks correspond one to one: each track has the type and
the payload of its section and a mid of its own, and the type of each accepted section is filed
under the mid of the section. -/
structure Corresponds (pc : ℕ) (sections : List MediaSection) (items : List Json) (e : Env)
    (m : Manager) : Prop where
  returns : (prepareRecvTracksFromSDP pc e m).value = some ()
  added : (prepareRecvTracksFromSDP pc e m).calls =
    (recvDescriptions items).map fun d => ⟨.addTrack pc d.mid d.type, true⟩
  matched : List.Forall₂ (fun s d => d.type = s.type ∧ s.payload = some d.payloadType)
    (sections.filter MediaSection.accepted) (recvDescriptions items)
  distinct : ((recvDescriptions items).map RecvDescription.mid).Nodup
  filed : ∀ s ∈ sections, s.accepted →
    (prepareRecvTracksFromSDP pc e m).state.midTypeMap.lookup s.mid = some s.type

/-- A section whose track has a name. -/
def MediaSection.Named (s : MediaSection) (name : String) : Prop :=
  s.accepted ∧ ∃ n, s.payload = some n ∧ name = trackName s.type n

/-- Every payload is an `int` and no number below zero, no two accepted sections share type and
payload, and the mid of each accepted section is the name of a track of its type, or no track has
this name and the mid has been filed under the type before. -/
structure ToldApart (sections : List MediaSection) (m : Manager) : Prop where
  payload : ∀ s ∈ sections, s.accepted → ∃ n, s.payload = some n ∧ 0 ≤ n ∧ n < 2 ^ 31
  distinct : ((sections.filter MediaSection.accepted).map fun s => (s.type, s.payload)).Nodup
  filed : ∀ s ∈ sections, s.accepted →
    (∃ s' ∈ sections, s'.Named s.mid ∧ s'.type = s.type) ∨
      (∀ s' ∈ sections, ¬s'.Named s.mid) ∧ m.midTypeMap.lookup s.mid = some s.type

/-- A list is matched with what a partial function makes of it when the function is defined on
all of it. -/
theorem forall₂_filterMap_iff {α β : Type} {R : α → β → Prop} {f : α → Option β} (l : List α) :
    List.Forall₂ R l (l.filterMap f) ↔ ∀ a ∈ l, ∃ b, f a = some b ∧ R a b := by
  induction l with
  | nil => simp
  | cons a l ih =>
    rcases hf : f a with _ | b
    · rw [List.filterMap_cons_none hf]
      refine iff_of_false (fun h => ?_) fun h => by simpa [hf] using h a
      have hlength := h.length_eq
      have hle := List.length_filterMap_le f l
      rw [List.length_cons] at hlength
      omega
    · rw [List.filterMap_cons_some hf, List.forall₂_cons, ih, List.forall_mem_cons, hf]
      simp

theorem repr_injective : Function.Injective Nat.repr := by
  intro n n' h
  have hdigits := congrArg (fun s => Nat.ofDigitChars 10 s.toList 0) h
  simpa [Nat.repr] using hdigits

/-- The name of a track tells its type and its payload. -/
theorem trackName_inj {type type' : String} {n n' : ℤ} (ht : type = "audio" ∨ type = "video")
    (ht' : type' = "audio" ∨ type' = "video") (hn : 0 ≤ n) (hn' : 0 ≤ n')
    (h : trackName type n = trackName type' n') : type = type' ∧ n = n' := by
  lift n to ℕ using hn
  lift n' to ℕ using hn'
  have hlist := congrArg String.toList h
  have hsame (hlist : (n : ℤ).repr.toList = (n' : ℤ).repr.toList) : (n : ℤ) = n' :=
    congrArg Nat.cast (repr_injective (String.toList_inj.mp hlist))
  rcases ht with rfl | rfl <;> rcases ht' with rfl | rfl
  · exact ⟨rfl, hsame (by simpa [trackName] using hlist)⟩
  · simp [trackName] at hlist
  · simp [trackName] at hlist
  · exact ⟨rfl, hsame (by simpa [trackName] using hlist)⟩

theorem MediaSection.accepted_type (h : s.accepted) : s.type = "audio" ∨ s.type = "video" := by
  simp only [accepted, Bool.and_eq_true, Bool.or_eq_true, beq_iff_eq] at h
  exact h.1.1

/-- The description of an accepted section whose payload fits. -/
theorem MediaSection.described_of_payload (h : s.accepted) {n : ℤ} (hn : s.payload = some n)
    (hle : 0 ≤ n) (hlt : n < 2 ^ 31) : s.described = some ⟨trackName s.type n, s.type, n⟩ := by
  have hcast : n.bmod (2 ^ 32) = n := by rw [Int.bmod_eq_of_le] <;> omega
  rw [described, if_pos h, hn, Option.map_some, hcast, Option.bind_some, if_neg (by omega)]

theorem MediaSection.payload_of_described {d : RecvDescription} (h : s.described = some d)
    (hpayload : s.payload = some d.payloadType) :
    0 ≤ d.payloadType ∧ d.payloadType < 2 ^ 31 := by
  rw [described] at h
  split_ifs at h
  rw [hpayload, Option.map_some, Option.bind_some] at h
  split_ifs at h with hneg
  have hd : d.payloadType.bmod (2 ^ 32) = d.payloadType :=
    congrArg RecvDescription.payloadType (Option.some.inj h)
  have hlt := Int.bmod_lt (x := d.payloadType) (m := 2 ^ 32) (by decide)
  rw [hd] at hlt hneg
  omega

/-- What is not accepted is not described. -/
theorem filterMap_described (sections : List MediaSection) :
    sections.filterMap MediaSection.described =
      (sections.filter MediaSection.accepted).filterMap MediaSection.described := by
  rw [List.filterMap_filter]
  refine List.filterMap_congr fun s _ => ?_
  cases h : s.accepted <;> simp [MediaSection.described, h]

variable {sections : List MediaSection} {items : List Json}

/-- Matching the accepted sections is having fitting payloads. -/
theorem matched_iff (h : List.Forall₂ MediaSection.Reads sections items) :
    List.Forall₂ (fun s d => d.type = s.type ∧ s.payload = some d.payloadType)
      (sections.filter MediaSection.accepted) (recvDescriptions items) ↔
    ∀ s ∈ sections, s.accepted → ∃ n, s.payload = some n ∧ 0 ≤ n ∧ n < 2 ^ 31 := by
  rw [recvDescriptions_of_reads h, filterMap_described, forall₂_filterMap_iff]
  constructor
  · intro hall s hs haccepted
    obtain ⟨d, hd, -, hpayload⟩ := hall s (List.mem_filter.mpr ⟨hs, haccepted⟩)
    exact ⟨_, hpayload, MediaSection.payload_of_described hd hpayload⟩
  · intro hall s hs
    obtain ⟨hs, haccepted⟩ := List.mem_filter.mp hs
    obtain ⟨n, hn, hle, hlt⟩ := hall s hs haccepted
    exact ⟨_, MediaSection.described_of_payload haccepted hn hle hlt, rfl, hn⟩

/-- The descriptions of sections with fitting payloads. -/
theorem recvDescriptions_eq (h : List.Forall₂ MediaSection.Reads sections items)
    (hp : ∀ s ∈ sections, s.accepted → ∃ n, s.payload = some n ∧ 0 ≤ n ∧ n < 2 ^ 31) :
    recvDescriptions items = (sections.filter MediaSection.accepted).map fun s =>
      ⟨trackName s.type (s.payload.getD 0), s.type, s.payload.getD 0⟩ := by
  rw [recvDescriptions_of_reads h, filterMap_described, ← List.filterMap_eq_map']
  refine List.filterMap_congr fun s hs => ?_
  obtain ⟨hs, haccepted⟩ := List.mem_filter.mp hs
  obtain ⟨n, hn, hle, hlt⟩ := hp s hs haccepted
  rw [MediaSection.described_of_payload haccepted hn hle hlt, hn]
  rfl

/-- The names of the tracks differ when type and payload do. -/
theorem distinct_iff (h : List.Forall₂ MediaSection.Reads sections items)
    (hp : ∀ s ∈ sections, s.accepted → ∃ n, s.payload = some n ∧ 0 ≤ n ∧ n < 2 ^ 31) :
    ((recvDescriptions items).map RecvDescription.mid).Nodup ↔
      ((sections.filter MediaSection.accepted).map fun s => (s.type, s.payload)).Nodup := by
  have hmids : (recvDescriptions items).map RecvDescription.mid =
      ((sections.filter MediaSection.accepted).map fun s => (s.type, s.payload)).map
        fun key => trackName key.1 (key.2.getD 0) := by
    rw [recvDescriptions_eq h hp, List.map_map, List.map_map]
    rfl
  rw [hmids]
  refine ⟨List.Nodup.of_map _, fun hnodup => hnodup.map_on ?_⟩
  rintro _ hkey _ hkey' hname
  obtain ⟨s, hs, rfl⟩ := List.mem_map.mp hkey
  obtain ⟨s', hs', rfl⟩ := List.mem_map.mp hkey'
  obtain ⟨hs, haccepted⟩ := List.mem_filter.mp hs
  obtain ⟨hs', haccepted'⟩ := List.mem_filter.mp hs'
  obtain ⟨n, hn, hle, -⟩ := hp s hs haccepted
  obtain ⟨n', hn', hle', -⟩ := hp s' hs' haccepted'
  simp only [hn, hn', Option.getD_some] at hname ⊢
  obtain ⟨htype, rfl⟩ := trackName_inj (MediaSection.accepted_type haccepted)
    (MediaSection.accepted_type haccepted') hle hle' hname
  rw [htype]

/-- The tracks, by the sections they are named after. -/
theorem mem_tracks_iff (h : List.Forall₂ MediaSection.Reads sections items)
    (hp : ∀ s ∈ sections, s.accepted → ∃ n, s.payload = some n ∧ 0 ≤ n ∧ n < 2 ^ 31)
    (name type : String) : (name, type) ∈ (recvDescriptions items).map (fun d => (d.mid, d.type)) ↔
      ∃ s ∈ sections, s.Named name ∧ s.type = type := by
  rw [recvDescriptions_eq h hp, List.map_map, List.mem_map]
  constructor
  · rintro ⟨s, hs, heq⟩
    obtain ⟨hs, haccepted⟩ := List.mem_filter.mp hs
    obtain ⟨n, hn, -⟩ := hp s hs haccepted
    simp only [Function.comp_apply, hn, Option.getD_some, Prod.mk.injEq] at heq
    exact ⟨s, hs, ⟨haccepted, n, hn, heq.1.symm⟩, heq.2⟩
  · rintro ⟨s, hs, ⟨haccepted, n, hn, rfl⟩, rfl⟩
    exact ⟨s, List.mem_filter.mpr ⟨hs, haccepted⟩, by simp [hn]⟩

theorem tracks_consistent (h : List.Forall₂ MediaSection.Reads sections items)
    (hp : ∀ s ∈ sections, s.accepted → ∃ n, s.payload = some n ∧ 0 ≤ n ∧ n < 2 ^ 31) :
    ∀ p ∈ (recvDescriptions items).map (fun d => (d.mid, d.type)),
      ∀ q ∈ (recvDescriptions items).map (fun d => (d.mid, d.type)), p.1 = q.1 → p.2 = q.2 := by
  rintro ⟨name, type⟩ hname ⟨name', type'⟩ hname' (rfl : name = name')
  obtain ⟨s, hs, ⟨haccepted, n, hn, hsname⟩, rfl⟩ := (mem_tracks_iff h hp _ _).mp hname
  obtain ⟨s', hs', ⟨haccepted', n', hn', hsname'⟩, rfl⟩ := (mem_tracks_iff h hp _ _).mp hname'
  obtain ⟨m, hm, hle, -⟩ := hp s hs haccepted
  obtain ⟨m', hm', hle', -⟩ := hp s' hs' haccepted'
  obtain rfl : m = n := Option.some.inj (hm.symm.trans hn)
  obtain rfl : m' = n' := Option.some.inj (hm'.symm.trans hn')
  exact (trackName_inj (MediaSection.accepted_type haccepted) (MediaSection.accepted_type haccepted')
    hle hle' (hsname.symm.trans hsname')).1

/-- The tracks of an offer correspond to its sections exactly when type and payload tell these apart
and their mids are the names of the tracks or known before. -/
theorem tracks_correspond_iff (pc : ℕ) (hparse : e.throws .sdpParse = false)
    (hadd : ∀ i, e.throws (.addTrack i) = false)
    (hmedia : e.parsed.find? "media" = some (.array items))
    (h : List.Forall₂ MediaSection.Reads sections items) :
    Corresponds pc sections items e m ↔ ToldApart sections m := by
  have hgood : ∀ j ∈ items, (recvDescription j).isSome := by
    clear hmedia
    induction h with
    | nil => simp
    | cons hs _ ih => simpa [recvDescription_of_reads hs] using ih
  have hprepare := prepareRecvTracksFromSDP_apply pc m hparse hadd hmedia hgood
  have hfiled (hp : ∀ s ∈ sections, s.accepted → ∃ n, s.payload = some n ∧ 0 ≤ n ∧ n < 2 ^ 31)
      (s : MediaSection) :
      (prepareRecvTracksFromSDP pc e m).state.midTypeMap.lookup s.mid = some s.type ↔
        (∃ s' ∈ sections, s'.Named s.mid ∧ s'.type = s.type) ∨
          (∀ s' ∈ sections, ¬s'.Named s.mid) ∧ m.midTypeMap.lookup s.mid = some s.type := by
    rw [hprepare]
    refine (Dict.lookup_insertAll_eq_some _ _ (tracks_consistent h hp)).trans
      (or_congr (mem_tracks_iff h hp _ _) (and_congr_left fun _ => ?_))
    constructor
    · intro hne s' hs' hnamed
      exact hne _ ((mem_tracks_iff h hp _ _).mpr ⟨s', hs', hnamed, rfl⟩) rfl
    · rintro hne ⟨name, type⟩ hmem (rfl : s.mid = name)
      obtain ⟨s', hs', hnamed, -⟩ := (mem_tracks_iff h hp _ _).mp hmem
      exact hne s' hs' hnamed
  constructor
  · rintro ⟨-, -, hmatched, hdistinct, hmids⟩
    have hp := (matched_iff h).mp hmatched
    exact ⟨hp, (distinct_iff h hp).mp hdistinct, fun s hs ha => (hfiled hp s).mp (hmids s hs ha)⟩
  · rintro ⟨hp, hdistinct, hmids⟩
    exact ⟨by rw [hprepare], by rw [hprepare], (matched_iff h).mpr hp,
      (distinct_iff h hp).mpr hdistinct, fun s hs ha => (hfiled hp s).mpr (hmids s hs ha)⟩

/-- A section with one codec. -/
def plainSection (type codec : String) (payload : ℤ) (mid : String) : MediaSection :=
  ⟨type, mid, some "sendrecv", [⟨codec, payload⟩]⟩

/-- What `sdptransform` makes of it. -/
def plainMedia (type codec : String) (payload : ℤ) (mid : String) : Json := .object
  [("type", .string type), ("mid", .string mid), ("direction", .string "sendrecv"),
    ("rtp", .array [.object [("payload", .number payload), ("codec", .string codec)]])]

theorem plainSection_reads (type codec : String) (payload : ℤ) (mid : String) :
    (plainSection type codec payload mid).Reads (plainMedia type codec payload mid) :=
  ⟨_, _, rfl, rfl, rfl, rfl, rfl, .cons ⟨_, rfl, rfl, rfl⟩ .nil⟩

/-- The libraries while an offer of these sections is read. -/
def offering (items : List Json) : Env := { Env.calm with parsed := .object [("media", .array items)] }

/-- An audio section named as its track will be, and a video section whose mid is filed already. -/
theorem two_sections_correspond :
    Corresponds 0 [plainSection "audio" "opus" 111 "remote-audio-111",
        plainSection "video" "H264" 96 "1"]
      [plainMedia "audio" "opus" 111 "remote-audio-111", plainMedia "video" "H264" 96 "1"]
      (offering [plainMedia "audio" "opus" 111 "remote-audio-111", plainMedia "video" "H264" 96 "1"])
      { midTypeMap := Finmap.insert "1" "video" ∅ } := by
  refine (tracks_correspond_iff 0 rfl (fun _ => rfl) rfl
    (.cons (plainSection_reads ..) (.cons (plainSection_reads ..) .nil))).mpr ⟨?_, by decide, ?_⟩
  · simp only [List.forall_mem_cons]
    refine ⟨fun _ => ⟨111, by decide, by decide, by decide⟩,
      fun _ => ⟨96, by decide, by decide, by decide⟩, by simp⟩
  · simp only [List.forall_mem_cons]
    refine ⟨fun haccepted => .inl ⟨_, List.mem_cons_self, ⟨haccepted, 111, by decide, by decide⟩, rfl⟩,
      fun _ => .inr ⟨?_, Finmap.lookup_insert _⟩, by simp⟩
    refine ⟨?_, ?_, by simp⟩
    · rintro ⟨-, n, hn, hname⟩
      obtain rfl : 111 = n := Option.some.inj hn
      exact absurd hname (by decide)
    · rintro ⟨-, n, hn, hname⟩
      obtain rfl : 96 = n := Option.some.inj hn
      exact absurd hname (by decide)

/-- Two sections of a room with the same payload share a track. -/
theorem sections_share_track : ¬ ∀ (pc : ℕ) (sections : List MediaSection) (items : List Json)
    (e : Env) (m : Manager), e.throws .sdpParse = false → (∀ i, e.throws (.addTrack i) = false) →
    e.parsed.find? "media" = some (.array items) →
    List.Forall₂ MediaSection.Reads sections items → Corresponds pc sections items e m := by
  intro h
  let sections := [plainSection "audio" "opus" 111 "0", plainSection "audio" "opus" 111 "1"]
  let items := [plainMedia "audio" "opus" 111 "0", plainMedia "audio" "opus" 111 "1"]
  have hreads : List.Forall₂ MediaSection.Reads sections items :=
    .cons (plainSection_reads ..) (.cons (plainSection_reads ..) .nil)
  have hc := h 0 sections items (offering items) {} rfl (fun _ => rfl) rfl hreads
  have hnodup := (distinct_iff hreads ((matched_iff hreads).mp hc.matched)).mp hc.distinct
  exact absurd hnodup (by decide)

end ConferenceCall

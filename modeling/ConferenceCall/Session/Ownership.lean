import ConferenceCall.Manager.Effects

/-! Ownership of the connections, over all inputs. A connection is open exactly while it is
stored under the stream it was made for, and a stored channel belongs to the stored connection
of its stream. -/

namespace ConferenceCall

open Library

/-- The maps know every open connection, and every channel its connection. -/
structure Manager.Linked (m : Manager) : Prop where
  owned : m.Owned
  /-- Open is stored. -/
  stored : ∀ pc p, m.peers[pc]? = some p →
    (p.closeCalled = false ↔ m.pcs.lookup p.streamId = some pc)
  channel : ∀ streamId ch, m.localDataChannels.lookup streamId = some ch →
    ∃ pc, m.pcs.lookup streamId = some pc ∧ ch = .local pc

namespace Manager.Linked

variable {m m' : Manager} {streamId : String}

theorem new : Manager.Linked {} where
  owned := fun _ _ h => by simp at h
  stored := fun _ _ h => by simp at h
  channel := fun _ _ h => by simp at h

/-- Only connections and local channels matter. -/
theorem congr (h : m.Linked) (hpcs : m'.pcs = m.pcs) (hpeers : m'.peers = m.peers)
    (hl : m'.localDataChannels = m.localDataChannels) : m'.Linked where
  owned := by rw [Owned, hpcs, hpeers]; exact h.owned
  stored := by rw [hpcs, hpeers]; exact h.stored
  channel := by rw [hpcs, hl]; exact h.channel

theorem withPeer (h : m.Linked) (hnone : m.pcs.lookup streamId = none) (needDC : Bool) :
    (m.withPeer streamId needDC).Linked where
  owned := h.owned.withPeer streamId needDC
  stored := by
    intro pc p hp
    simp only [Manager.withPeer, Dict.lookup_insert_eq] at hp ⊢
    rcases lt_trichotomy pc m.peers.length with hlt | rfl | hgt
    · rw [List.getElem?_append_left hlt] at hp
      rw [h.stored pc p hp]
      split_ifs with hs
      · -- an old connection of the stream is closed
        rw [hs, hnone]
        simp [Manager.nextPc, hlt.ne']
      · exact Iff.rfl
    · rw [List.getElem?_concat_length, Option.some.injEq] at hp
      subst hp
      simp [Peer.fresh, Manager.nextPc]
    · rw [List.getElem?_eq_none (by rw [List.length_append]; exact hgt)] at hp
      cases hp
  channel := by
    intro s ch hs
    obtain ⟨pc, hpc, rfl⟩ := h.channel s ch hs
    refine ⟨pc, ?_, rfl⟩
    have hne : s ≠ streamId := by
      rintro rfl
      rw [hnone] at hpc
      cases hpc
    rwa [Manager.withPeer, Dict.lookup_insert_eq, if_neg hne]

theorem withLocalChannel (h : m.Linked) {pc : ℕ} (hpc : m.pcs.lookup streamId = some pc) :
    (m.withLocalChannel streamId pc).Linked where
  owned := h.owned
  stored := h.stored
  channel := by
    intro s ch hs
    simp only [Manager.withLocalChannel, Dict.lookup_insert_eq] at hs
    split_ifs at hs with hk
    · cases hs
      exact ⟨pc, by rw [hk]; exact hpc, rfl⟩
    · exact h.channel s ch hs

/-- The registration of a connection may change, not its stream or whether it is open. -/
theorem updatePeer (h : m.Linked) (pc : ℕ) {f : Peer → Peer}
    (hs : ∀ p, (f p).streamId = p.streamId) (hc : ∀ p, (f p).closeCalled = p.closeCalled) :
    (m.updatePeer pc f).Linked where
  owned := h.owned.updatePeer pc hs
  stored := by
    intro pc' p hp
    rw [Manager.updatePeer, List.getElem?_modify] at hp
    obtain ⟨q, hq, hp⟩ := Option.map_eq_some_iff.mp hp
    have hstream : p.streamId = q.streamId := by
      rw [← hp]
      by_cases hpc : pc = pc' <;> simp [hpc, hs]
    have hopen : p.closeCalled = q.closeCalled := by
      rw [← hp]
      by_cases hpc : pc = pc' <;> simp [hpc, hc]
    rw [hstream, hopen]
    exact h.stored pc' q hq
  channel := h.channel

theorem withoutPeer (h : m.Linked) (streamId : String) : (m.withoutPeer streamId).Linked where
  owned := h.owned.withoutPeer streamId
  stored := by
    intro pc p hp
    simp only [Manager.withoutPeer, Dict.lookup_erase_eq] at hp ⊢
    cases hl : m.pcs.lookup streamId with
    | none =>
      simp only [Manager.peersWithout, hl] at hp
      rw [h.stored pc p hp]
      split_ifs with hs
      · rw [hs, hl]
        exact iff_of_false (by simp) (by simp)
      · exact Iff.rfl
    | some pc' =>
      simp only [Manager.peersWithout, hl] at hp
      rw [List.getElem?_modify] at hp
      obtain ⟨q, hq, hp⟩ := Option.map_eq_some_iff.mp hp
      have hq' := h.stored pc q hq
      by_cases hpc : pc' = pc
      · subst hpc
        have hs := h.owned streamId pc' hl
        rw [hq, Option.map_some, Option.some.injEq] at hs
        simp [← hp, Peer.close, hs]
      · simp only [hpc, if_false] at hp
        rw [← hp, hq']
        split_ifs with hs
        · rw [hs, hl]
          exact iff_of_false (fun hk => hpc (Option.some.inj hk)) (by simp)
        · exact Iff.rfl
  channel := by
    intro s ch hs
    simp only [Manager.withoutPeer, Dict.lookup_erase_eq] at hs ⊢
    split_ifs at hs ⊢ with hk
    exact h.channel s ch hs

/-- Clearing closes every stored connection. -/
theorem cleared (h : m.Linked) : m.cleared.Linked where
  owned := fun _ _ hs => by simp [Manager.cleared] at hs
  stored := by
    intro pc p hp
    simp only [Manager.cleared, Manager.closeAll, List.getElem?_mapIdx, Option.map_eq_some_iff] at hp ⊢
    obtain ⟨q, hq, rfl⟩ := hp
    split_ifs with hv
    · simp [Peer.close]
    · have hq' := h.stored pc q hq
      have hopen : q.closeCalled ≠ false := fun hc => hv (Dict.mem_values.mpr ⟨_, hq'.mp hc⟩)
      simpa using hopen
  channel := fun _ _ hs => by simp [Manager.cleared] at hs

theorem effect (h : m.Linked) (heffect : Effect m m') : m'.Linked := by
  cases heffect with
  | peer needDC hnone => exact h.withPeer hnone needDC
  | localChannel hpc => exact h.withLocalChannel hpc
  | removed streamId => exact h.withoutPeer streamId
  | closed pc => exact h.updatePeer pc (fun _ => rfl) fun _ => rfl
  | cleared => exact h.cleared
  | _ => exact h.congr rfl rfl rfl

end Manager.Linked

/-- Whatever happens to a new manager: a connection that was ever created is stored under its
stream or has been closed, one stream has at most one connection that has not, and the channel
of a stream was created on the connection stored for it. -/
theorem connections_owned (inputs : List (Timed Input)) :
    let m := (inputStep.run inputs {}).1
    (∀ pc p, m.peers[pc]? = some p →
      m.pcs.lookup p.streamId = some pc ∨ p.closeCalled = true) ∧
    (∀ streamId pc, m.pcs.lookup streamId = some pc →
      (m.peers[pc]?).map Peer.streamId = some streamId) ∧
    (∀ (pc pc' : ℕ) (p p' : Peer), m.peers[pc]? = some p → m.peers[pc']? = some p' →
      p.streamId = p'.streamId → p.closeCalled = false → p'.closeCalled = false → pc = pc') ∧
    ∀ streamId ch, m.localDataChannels.lookup streamId = some ch →
      ∃ pc, m.pcs.lookup streamId = some pc ∧ ch = .local pc := by
  intro m
  have h : m.Linked := run_effects (fun _ _ he hm => hm.effect he) inputs .new
  refine ⟨fun pc p hp => ?_, h.owned, fun pc pc' p p' hp hp' hs hc hc' => ?_, h.channel⟩
  · cases hc : p.closeCalled with
    | true => exact .inr rfl
    | false => exact .inl ((h.stored pc p hp).mp hc)
  · have hpc := (h.stored pc p hp).mp hc
    rw [hs, (h.stored pc' p' hp').mp hc', Option.some.injEq] at hpc
    exact hpc.symm

/-- After a start the own channel belongs to the own connection. -/
theorem own_channel_linked :
    let m := (inputStep.run [⟨.api (.setSignalingServerURL "ws"), .calm⟩,
      ⟨.api (.setStreamId "me"), .calm⟩, ⟨.api (.start false), .calm⟩] {}).1
    ∃ pc, m.pcs.lookup "me" = some pc ∧ Channel.local 0 = .local pc :=
  (connections_owned _).2.2.2 "me" (.local 0) (by decide)

end ConferenceCall

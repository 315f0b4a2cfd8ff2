import ConferenceCall.Log.Beside

/-! What it means that nothing is lost by calls: the files of a log are followed through renames,
and only the oldest of 63 backups is removed. -/

namespace ConferenceCall.Log

open Library Program

/-- Where a call leaves the file of a path, if it leaves it. -/
def relocate : Event Call Call.Answer State → Path → Option Path
  | ⟨.rename old new, r, s, _⟩, p =>
    if r = true ∧ s.disk.path old = p then some (s.disk.path new)
    else if r = true ∧ s.disk.path new = p then none else some p
  | ⟨.unlink path, r, s, _⟩, p => if r = true ∧ s.disk.path path = p then none else some p
  | _, p => some p

/-- Where calls leave it. -/
def whereabouts (p : Path) (l : Trace) : Option Path :=
  l.foldl (fun q e => q.bind (relocate e)) (some p)

theorem whereabouts_concat (p : Path) (l : Trace) (e : Event Call Call.Answer State) :
    whereabouts p (l ++ [e]) = (whereabouts p l).bind (relocate e) := List.foldl_concat ..

namespace LogFile

variable (log : LogFile) (cwd : Path) (aside : Set Path)

/-- A call removes and overwrites no backup but the oldest of 63, and keeps what the files hold. An
appended message goes to the end of the log, of a backup or of the log of a pass. -/
structure Careful (e : Event Call Call.Answer State) : Prop where
  dropped : ∀ p, log.Keeps cwd p → e.before.disk.node p ≠ none → relocate e p = none →
    ∃ k, p = log.backup cwd k ∧ log.AtLimit e.before.disk k
  kept : ∀ p c q, log.Keeps cwd p → e.before.disk.content p = some c → relocate e p = some q →
    log.Keeps cwd q ∧ ∃ c', e.after.disk.content q = some (c ++ c')
  written : ∀ text, e.call = .write .logFd text → ∃ h c, e.before.target .logFd = some (h, c) ∧
    (log.Keeps cwd h.path ∨ h.path ∈ aside) ∧
      e.after.disk.content h.path = some (c ++ Item.ofText text)

/-- After some calls every message that was appended to the log or a backup is in the one file that
this has become, unless that was dropped as the oldest of 63. -/
structure Lossless (o : Trace) (d : Disk) : Prop where
  careful : ∀ e ∈ o, log.Careful cwd aside e
  found : ∀ l l' e text h c q, o = l ++ e :: l' → e.call = .write .logFd text →
    e.before.target .logFd = some (h, c) → log.Keeps cwd h.path → whereabouts h.path l' = some q →
      log.Keeps cwd q ∧ ∃ c', d.content q = some (c ++ Item.ofText text ++ c')

variable {log cwd aside} {o : Trace} {d : Disk} {e : Event Call Call.Answer State}

theorem Lossless.nil (d : Disk) : log.Lossless cwd aside [] d where
  careful e he := absurd he List.not_mem_nil
  found l l' e text h c q ho := by simp at ho

theorem Lossless.concat (h : log.Lossless cwd aside o d) (he : log.Careful cwd aside e)
    (hd : e.before.disk = d) : log.Lossless cwd aside (o ++ [e]) e.after.disk := by
  refine ⟨fun e' he' => ?_, fun l l' e' text h' c q ho hcall htarget hkeeps hq => ?_⟩
  · rcases List.mem_append.mp he' with he' | he'
    · exact h.careful e' he'
    · rwa [List.mem_singleton.mp he']
  · rcases List.eq_nil_or_concat l' with rfl | ⟨l', e'', rfl⟩
    · obtain ⟨rfl, rfl⟩ : o = l ∧ e = e' := by simpa using ho
      obtain ⟨h'', c', htarget', -, hcontent⟩ := he.written text hcall
      obtain ⟨rfl, rfl⟩ : h' = h'' ∧ c = c' := by simpa [htarget] using htarget'
      have hqeq : q = h'.path := by simpa [whereabouts] using hq.symm
      subst hqeq
      exact ⟨hkeeps, [], by rw [List.append_nil, hcontent]⟩
    · rw [List.concat_eq_append] at ho hq
      rw [← List.cons_append, ← List.append_assoc] at ho
      obtain ⟨rfl, rfl⟩ : o = l ++ e' :: l' ∧ e = e'' := by
        simpa using List.append_inj' ho rfl
      rw [whereabouts_concat, Option.bind_eq_some_iff] at hq
      obtain ⟨p, hp, hq⟩ := hq
      obtain ⟨hkeeps', c', hcontent⟩ := h.found l l' e' text h' c p rfl hcall htarget hkeeps hp
      rw [← hd] at hcontent
      obtain ⟨hkeeps'', c'', hcontent'⟩ := he.kept p _ q hkeeps' hcontent hq
      exact ⟨hkeeps'', c' ++ c'', by rw [hcontent', List.append_assoc]⟩

end LogFile

section Careful

variable {log : LogFile} {cwd : Path} {aside : Set Path} {e : Event Call Call.Answer State}

/-- A call that moves no file. -/
theorem careful_of_stays (hstays : ∀ p, relocate e p = some p)
    (hkept : ∀ p c, log.Keeps cwd p → e.before.disk.content p = some c →
      ∃ c', e.after.disk.content p = some (c ++ c'))
    (hwritten : ∀ text, e.call = .write .logFd text → ∃ h c,
      e.before.target .logFd = some (h, c) ∧ (log.Keeps cwd h.path ∨ h.path ∈ aside) ∧
        e.after.disk.content h.path = some (c ++ Item.ofText text)) :
    log.Careful cwd aside e where
  dropped p hp hnode hnone := by
    rw [hstays p] at hnone
    cases hnone
  kept p c q hp hc hq := by
    rw [hstays p] at hq
    cases hq
    exact ⟨hp, hkept p c hp hc⟩
  written := hwritten

/-- The calls of a rotation lose nothing. -/
theorem LogFile.Fair.careful (hown : logInfoPath log.name ≠ log.name) (h : log.Fair e)
    (hcwd : e.before.disk.cwd = cwd) : log.Careful cwd aside e := by
  subst hcwd
  cases h with
  | @counting c r s t hc hcwd hnode hopened =>
    refine careful_of_stays (fun p => ?_) (fun p c' hp hcontent => ⟨[], ?_⟩) fun text hcall => ?_
    · cases c with
      | rename old new => exact hc.elim
      | unlink path => exact hc.elim
      | _ => rfl
    · rw [List.append_nil, ← hcontent]
      exact Disk.content_congr (hnode p (hp.ne_info hown))
    · cases hcall
      exact absurd hc.1 (by decide)
  | @rename s k c hfile hnew =>
    have hfree := hnew.1
    rw [backup_text] at hfree
    have hpath : s.disk.path log.text = log.path s.disk.cwd log.name :=
      LogFile.path_text log.proper
    have hne : log.path s.disk.cwd log.name ≠ log.backup s.disk.cwd k := path_name_ne_backup
    have hrelocate (p : Path) (t : State) :
        relocate ⟨.rename log.text (backupFilePath log.text k), true, s, t⟩ p =
          if log.path s.disk.cwd log.name = p then some (log.backup s.disk.cwd k)
          else if log.backup s.disk.cwd k = p then none else some p := by
      simp only [relocate, hpath, backup_text, true_and]
    refine ⟨fun p hp hnode hnone => ?_, fun p c' q hp hcontent hq => ?_, fun text hcall => ?_⟩
    · rw [hrelocate] at hnone
      split_ifs at hnone with hname hbackup
      rw [← hbackup] at hnode
      exact absurd hfree hnode
    · rw [hrelocate] at hq
      split_ifs at hq with hname hbackup
      · cases hq
        refine ⟨.inr ⟨k, rfl⟩, [], ?_⟩
        rw [List.append_nil, ← hcontent, ← hname]
        exact Disk.content_congr (Disk.move_node_new hne)
      · cases hq
        refine ⟨hp, [], ?_⟩
        rw [List.append_nil, ← hcontent]
        exact Disk.content_congr (Disk.move_node_of_ne (Ne.symm hname) (Ne.symm hbackup))
    · cases hcall
  | @unlink s k c hlimit hfile =>
    have hrelocate (p : Path) (t : State) :
        relocate ⟨.unlink (backupFilePath log.text k), true, s, t⟩ p =
          if log.backup s.disk.cwd k = p then none else some p := by
      simp only [relocate, backup_text, true_and]
    refine ⟨fun p hp hnode hnone => ?_, fun p c' q hp hcontent hq => ?_, fun text hcall => ?_⟩
    · rw [hrelocate] at hnone
      split_ifs at hnone with hbackup
      exact ⟨k, hbackup.symm, hlimit⟩
    · rw [hrelocate] at hq
      split_ifs at hq with hbackup
      cases hq
      refine ⟨hp, [], ?_⟩
      rw [List.append_nil, ← hcontent]
      exact Disk.content_congr (Disk.put_node_of_ne (Ne.symm hbackup))
    · cases hcall

end Careful

end ConferenceCall.Log

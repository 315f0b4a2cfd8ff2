import ConferenceCall.Log.Held

/-! The files a character can be in. A run of calls that succeed is followed by a list of paths: a
write, a new name or an archive adds to it, a removal takes away. No other file holds the
character, itself or packed. -/

namespace ConferenceCall.Library.Item

variable {ch : Char} {line : List Char} {content more : List Item}

theorem holds_of_byte (h : byte ch ∈ content) : Holds [ch] content := by
  obtain ⟨before, after, rfl⟩ := List.append_of_mem h
  have hline : Holds [ch] (before ++ ofText [ch] ++ after) := .bytes before after
  rwa [List.append_assoc] at hline

/-- Where a character stands. -/
theorem holds_char_cases (h : Holds [ch] content) : byte ch ∈ content ∨ ∃ size members p member,
    archive size members ∈ content ∧ members p = some member ∧ Holds [ch] member := by
  cases h with
  | bytes before after => exact .inl (by simp [ofText])
  | packed harchive hmember hline => exact .inr ⟨_, _, _, _, harchive, hmember, hline⟩

/-- What holds a line holds its characters. -/
theorem Holds.char (h : Holds line content) (hch : ch ∈ line) : Holds [ch] content := by
  induction h with
  | bytes before after => exact holds_of_byte (by simp [ofText, hch])
  | packed harchive hmember _ ih => exact .packed harchive hmember ih

theorem holds_of_mem (h : Holds [ch] content) (hsub : ∀ i ∈ content, i ∈ more) :
    Holds [ch] more := by
  rcases holds_char_cases h with hbyte | ⟨size, members, p, member, harchive, hmember, hline⟩
  · exact holds_of_byte (hsub _ hbyte)
  · exact .packed (hsub _ harchive) hmember hline

theorem holds_append (h : Holds [ch] (content ++ more)) : Holds [ch] content ∨ Holds [ch] more := by
  rcases holds_char_cases h with hbyte | ⟨size, members, p, member, harchive, hmember, hline⟩
  · exact (List.mem_append.mp hbyte).imp holds_of_byte holds_of_byte
  · exact (List.mem_append.mp harchive).imp (fun h => .packed h hmember hline)
      fun h => .packed h hmember hline

theorem holds_ofText (h : Holds [ch] (ofText line)) : ch ∈ line := by
  rcases holds_char_cases h with hbyte | ⟨size, members, p, member, harchive, -⟩
  · simpa [ofText] using hbyte
  · simp [ofText] at harchive

theorem not_holds_nil : ¬Holds [ch] [] := by
  intro h
  have hch : ch ∈ ([] : List Char) := holds_ofText h
  exact List.not_mem_nil hch

end ConferenceCall.Library.Item

namespace ConferenceCall.Log

open Library Program

/-- No other file holds the character. -/
def Marked (ch : Char) (M : List Path) (d : Disk) : Prop :=
  ∀ p c, d.content p = some c → Item.Holds [ch] c → p ∈ M

/-- What a command that succeeds does to the list. -/
def Command.marks (d : Disk) (M : List Path) : Command → List Path
  | .tar target base operands =>
    if ∃ q ∈ tarPaths d base operands, ∃ p ∈ M, q <+: p then d.path target :: M
    else M.filter (· ≠ d.path target)
  | .rm operands => M.filter fun p => ¬rmPaths d operands p
  | _ => M

/-- What a call that succeeds does to the list. -/
def marks (sh : Text → List (List Text)) (ch : Char) (M : List Path) :
    Event Call Call.Answer State → List Path
  | ⟨.write f text, _, s, _⟩ =>
    if ch ∈ text then ((s.opened f).map Handle.path).toList ++ M else M
  | ⟨.rename _ new, _, s, _⟩ => s.disk.path new :: M
  | ⟨.system command, _, s, _⟩ =>
    ((sh command).map Command.ofWords).foldl (Command.marks s.disk) M
  | _ => M

variable {ch : Char} {M : List Path} {d d' : Disk} {p : Path}

namespace Marked

theorem mono {M' : List Path} (h : Marked ch M d) (hsub : ∀ p ∈ M, p ∈ M') : Marked ch M' d :=
  fun p c hc hline => hsub p (h p c hc hline)

/-- A path gets another node; a file that holds the character is in the list. -/
theorem put_node {M' : List Path} {n : Option Node} (h : Marked ch M d)
    (hnew : ∀ c, n = some (.file c) → Item.Holds [ch] c → p ∈ M')
    (hrest : ∀ q ∈ M, q ≠ p → q ∈ M') : Marked ch M' (d.put p n) := by
  intro q c hc hline
  by_cases hqp : q = p
  · subst hqp
    rw [Disk.content_eq_some, Disk.put_node_self] at hc
    exact hnew c hc hline
  · rw [Disk.content_congr (Disk.put_node_of_ne hqp)] at hc
    exact hrest q (h q c hc hline) hqp

theorem put_dir (h : Marked ch M d) : Marked ch M (d.put p (some .dir)) :=
  h.put_node (fun _ hc => by cases hc) fun _ hq _ => hq

theorem put_none (h : Marked ch M d) : Marked ch M (d.put p none) :=
  h.put_node (fun _ hc => by cases hc) fun _ hq _ => hq

theorem put {M' : List Path} {content : List Item} (h : Marked ch M d)
    (hfile : Item.Holds [ch] content → p ∈ M') (hrest : ∀ q ∈ M, q ≠ p → q ∈ M') :
    Marked ch M' (d.put p (some (.file content))) := by
  refine h.put_node (fun c hc hline => ?_) hrest
  cases hc
  exact hfile hline

theorem put_empty (h : Marked ch M d) : Marked ch M (d.put p (some (.file []))) :=
  h.put (fun hline => absurd hline Item.not_holds_nil) fun _ hq _ => hq

theorem touched (h : Marked ch M d) (operand : Text) : Marked ch M (Log.touched d operand) := by
  unfold Log.touched
  split_ifs
  · exact h.put_empty
  · exact h

/-- A command that succeeds. -/
theorem run (h : Marked ch M d') (hcwd : d'.cwd = d.cwd) {command : Command} {tool : Tool}
    (htool : tool.ok = true) (hok : (command.run tool d').2.ok = true) :
    Marked ch (command.marks d M) (command.run tool d').1 := by
  have hpath (str : Text) : d'.path str = d.path str := by rw [Disk.path, Disk.path, hcwd]
  cases command with
  | tar target base operands =>
    have hpaths : tarPaths d' base operands = tarPaths d base operands := by
      rw [tarPaths, tarPaths, hpath]
    rw [run_tar htool hok, hpath, hpaths, Command.marks]
    refine h.put (fun hline => ?_) fun q hq hne => ?_
    · rcases Item.holds_char_cases hline with hbyte | ⟨_, _, p, member, harchive, hmember, hline⟩
      · simp at hbyte
      · cases List.mem_singleton.mp harchive
        rw [Disk.members] at hmember
        split_ifs at hmember with hroot
        obtain ⟨r, hr, hprefix⟩ := hroot
        rw [if_pos ⟨r, hr, p, h p member hmember hline, hprefix⟩]
        exact List.mem_cons_self
    · split_ifs
      · exact List.mem_cons_of_mem _ hq
      · exact List.mem_filter.mpr ⟨hq, by simpa using hne⟩
  | rm operands =>
    intro p c hc hline
    have hrm : rmPaths d' operands p ↔ rmPaths d operands p := by
      simp only [rmPaths, refused, hpath]
    rw [Disk.content_eq_some] at hc
    simp only [Command.run, Disk.cut, htool, true_or, and_true] at hc
    split_ifs at hc with hgone
    refine List.mem_filter.mpr ⟨h p c (Disk.content_eq_some.mpr hc) hline, ?_⟩
    rw [hrm] at hgone
    simpa using hgone
  | touch operands =>
    simp only [Command.run, htool, if_true, Command.marks]
    clear hok hcwd hpath
    induction operands generalizing d' with
    | nil => exact h
    | cons w operands ih => exact ih (h.touched w)
  | other => exact h

theorem runCommands (h : Marked ch M d') (hcwd : d'.cwd = d.cwd) {tools : ℕ → Tool}
    (htools : ∀ k, (tools k).ok = true) (k : ℕ) {l : List Command}
    (hok : ∀ ran ∈ (Log.runCommands tools k l d').2, ran.ok = true) :
    Marked ch (l.foldl (Command.marks d) M) (Log.runCommands tools k l d').1 := by
  induction l generalizing d' M k with
  | nil => exact h
  | cons c l ih =>
    have hfirst := h.run hcwd (htools k) (hok _ List.mem_cons_self)
    refine ih hfirst ((within_run c (tools k) hcwd).cwd.trans hcwd) (k + 1) fun ran hran => ?_
    exact hok ran (List.mem_cons_of_mem _ hran)

variable {sh : Text → List (List Text)} {s : State} {x : Choice}

/-- A call that succeeds. -/
theorem act (h : Marked ch M s.disk) {c : Call} (hx : x.Succeeds)
    (horderly : Orderly (event sh c x s)) :
    Marked ch (marks sh ch M (event sh c x s)) (Log.act sh c x s).2.disk := by
  cases c with
  | openFile f path creates appends =>
    rcases act_openFile_cases sh x s f path creates appends with
      hact | ⟨_, -, hact⟩ | ⟨-, -, hact⟩ <;> rw [hact]
    · exact h
    · exact h
    · exact h.put_empty
  | write f text =>
    simp only [event, marks, Log.act]
    cases ht : s.target f with
    | none => exact h.mono fun p hp => by split_ifs <;> simp [hp]
    | some g =>
      obtain ⟨g, content⟩ := g
      obtain ⟨g', hg, hm⟩ := Option.bind_eq_some_iff.mp ht
      obtain ⟨content', hcontent, hpair⟩ := Option.map_eq_some_iff.mp hm
      cases hpair
      refine h.put (fun hline => ?_) fun q hq _ => by split_ifs <;> simp [hq]
      have hsplit : Item.Holds [ch] content ∨ ch ∈ x.fate.moved text := by
        split_ifs at hline
        · exact (Item.holds_append hline).imp_right Item.holds_ofText
        · refine (Item.holds_append hline).symm.imp (fun hrest => ?_) Item.holds_ofText
          exact Item.holds_of_mem hrest fun i hi => List.mem_of_mem_drop hi
      rcases hsplit with hold | hnew
      · have hp := h _ _ hcontent hold
        split_ifs <;> simp [hp]
      · have hch : ch ∈ text := by
          rwa [hx.1] at hnew
        have hopened : s.opened f = some g := hg
        rw [if_pos hch, hopened]
        exact List.mem_cons_self
  | rename old new =>
    rcases act_rename_cases sh x s old new with hact | ⟨c, hl, -, hact⟩ <;> rw [hact]
    · exact h.mono fun p hp => List.mem_cons_of_mem _ hp
    · change Marked ch (s.disk.path new :: M) (s.disk.move _ _)
      unfold Disk.move
      split_ifs
      · exact h.mono fun p hp => List.mem_cons_of_mem _ hp
      · rw [Disk.node_of_lookup hl]
        exact (h.put (fun _ => List.mem_cons_self) fun q hq _ =>
          List.mem_cons_of_mem _ hq).put_none
  | unlink path =>
    rcases act_unlink_cases sh x s path with hact | ⟨c, -, hact⟩ <;> rw [hact]
    · exact h
    · exact h.put_none
  | mkdir path =>
    simp only [event, marks, Log.act]
    split_ifs
    · exact h
    · exact h.put_dir
  | system command =>
    have hfails : x.fate ≠ .fails := by simp [hx.1]
    have hok : ∀ ran ∈ (Log.act sh (.system command) x s).1, ran.ok = true := horderly
    simp only [event, marks, Log.act, if_neg hfails] at hok ⊢
    exact h.runCommands rfl hx.2 0 hok
  | _ => exact h

/-- A program whose calls succeed. -/
theorem exec {α : Type} (p : Prog α) {x : ℕ → Choice} (h : Marked ch M s.disk)
    (hx : ∀ k, (x k).Succeeds)
    (horderly : ∀ e ∈ (p.exec (perform sh) x s).calls, Orderly e) :
    Marked ch ((p.exec (perform sh) x s).calls.foldl (marks sh ch) M)
      (p.exec (perform sh) x s).state.disk := by
  induction p generalizing x s M with
  | done a => exact h
  | call c next ih =>
    rw [exec_call_of_succeeds hx] at horderly ⊢
    refine ih _ (h.act (hx 0) (horderly _ List.mem_cons_self)) (fun k => hx (k + 1)) fun e he => ?_
    exact horderly e (List.mem_cons_of_mem _ he)

end Marked

end ConferenceCall.Log

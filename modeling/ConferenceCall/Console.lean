import ConferenceCall.Codec
import ConferenceCall.Library.Lines
import ConferenceCall.Library.Machine
import Mathlib.Data.List.TakeWhile

/-! The console thread. It reads standard input in chunks, keeps the unfinished line and hands
every line that is not empty to a callback. A chunk is appended as a C string, so that a zero byte
hides what follows it in its chunk. -/

namespace ConferenceCall.Console

open Library

def newline : UInt8 := 10

/-- `sizeof(buf)`. -/
def bufSize : ℕ := 512

/-- What one `read` puts into the buffer, with room for a zero behind it. -/
structure Chunk where
  bytes : Bytes
  nonempty : bytes ≠ []
  fits : bytes.length ≤ bufSize - 1

/-- The C string at the start of a buffer. -/
def cString (buf : Bytes) : Bytes := buf.takeWhile (· ≠ 0)

/-- The inner loop: the lines it passes on, and what it leaves in the buffer. -/
def takeLines (lineBuffer : Bytes) : List Bytes × Bytes :=
  match h : lineBuffer.idxOf? newline with
  | none => ([], lineBuffer)
  | some pos =>
    let line := lineBuffer.take pos
    let r := takeLines (lineBuffer.drop (pos + 1))
    (if line.isEmpty then r.1 else line :: r.1, r.2)
termination_by lineBuffer.length
decreasing_by
  obtain ⟨hpos, -⟩ := List.idxOf?_eq_some_iff.mp h
  simp only [List.length_drop]
  omega

/-- A round of the loop that finds input. The rounds that find none change nothing. -/
def readChunk : Step Chunk Bytes Bytes := fun chunk lineBuffer =>
  let buf := chunk.bytes ++ [0]
  let r := takeLines (lineBuffer ++ cString buf)
  (r.2, r.1)

/-- The bytes on standard input. -/
def stream (chunks : List Chunk) : Bytes := chunks.flatMap Chunk.bytes

/-- The bytes that reach the line buffer. -/
def received (chunks : List Chunk) : Bytes := chunks.flatMap fun chunk => cString (chunk.bytes ++ [0])

/-- The lines of a stream that are to be passed on. -/
def lines (s : Bytes) : List Bytes := (Lines.ended newline s).filter (· ≠ [])

theorem lines_append (s t : Bytes) :
    lines (s ++ t) = lines s ++ lines (Lines.rest newline s ++ t) := by
  rw [lines, Lines.ended_append, List.filter_append]
  rfl

theorem takeLines_of_none {s : Bytes} (h : s.idxOf? newline = none) : takeLines s = ([], s) := by
  rw [takeLines]
  split
  · rfl
  next hpos => exact absurd (h.symm.trans hpos) (by simp)

theorem takeLines_of_some {s : Bytes} {pos : ℕ} (h : s.idxOf? newline = some pos) :
    takeLines s = (if (s.take pos).isEmpty then (takeLines (s.drop (pos + 1))).1
      else s.take pos :: (takeLines (s.drop (pos + 1))).1, (takeLines (s.drop (pos + 1))).2) := by
  rw [takeLines]
  split
  next hnone => exact absurd (h.symm.trans hnone) (by simp)
  next pos' hpos =>
    cases h.symm.trans hpos
    rfl

theorem takeLines_eq (s : Bytes) : takeLines s = (lines s, Lines.rest newline s) := by
  induction s using Lines.induction newline with
  | last s h =>
    have hpos : s.idxOf? newline = none := List.idxOf?_eq_none_iff.mpr h
    rw [takeLines_of_none hpos, lines, Lines.ended_of_not_mem h, Lines.rest_of_not_mem h]
    rfl
  | segment a s ha ih =>
    have hpos : (a ++ newline :: s).idxOf? newline = some a.length := by
      rw [List.idxOf?_eq_some_iff]
      refine ⟨by simp, by simp, fun j hj heq => ha ?_⟩
      rw [List.getElem_append_left hj] at heq
      exact heq ▸ List.getElem_mem hj
    have hdrop : (a ++ newline :: s).drop (a.length + 1) = s := by simp
    rw [takeLines_of_some hpos]
    simp only [hdrop, List.take_left, ih, lines, Lines.ended_segment ha, Lines.rest_segment ha]
    cases a <;> simp

/-- The thread passes on the lines of what has reached its buffer, however it came in. -/
theorem run_readChunk (chunks : List Chunk) (lineBuffer : Bytes) (h : newline ∉ lineBuffer) :
    readChunk.run chunks lineBuffer =
      (Lines.rest newline (lineBuffer ++ received chunks), lines (lineBuffer ++ received chunks)) := by
  induction chunks generalizing lineBuffer with
  | nil =>
    rw [Step.run_nil, received, List.flatMap_nil, List.append_nil, lines,
      Lines.ended_of_not_mem h, Lines.rest_of_not_mem h]
    rfl
  | cons chunk chunks ih =>
    let buffer := lineBuffer ++ cString (chunk.bytes ++ [0])
    have hread : readChunk chunk lineBuffer = (Lines.rest newline buffer, lines buffer) := by
      rw [readChunk, takeLines_eq]
    have hsplit : lineBuffer ++ received (chunk :: chunks) = buffer ++ received chunks := by
      simp [received, buffer]
    rw [Step.run_cons, hread, ih _ (Lines.not_mem_rest newline buffer), hsplit,
      Lines.rest_append newline buffer, lines_append buffer]

theorem cString_of_not_mem {s : Bytes} (h : 0 ∉ s) : cString (s ++ [0]) = s := by
  have hs : ∀ b ∈ s, decide (b ≠ 0) = true := by
    intro b hb
    have hne : b ≠ 0 := fun h0 => h (h0 ▸ hb)
    simpa using hne
  rw [cString, List.takeWhile_append_of_pos hs]
  simp

theorem zero_not_mem_cString (s : Bytes) : 0 ∉ cString s := by
  intro h
  simpa using List.mem_takeWhile_imp h

theorem received_of_not_mem {chunks : List Chunk} (h : 0 ∉ stream chunks) :
    received chunks = stream chunks := by
  refine List.flatMap_congr fun chunk hc => cString_of_not_mem fun h0 => ?_
  exact h (List.mem_flatMap_of_mem hc h0)

theorem zero_not_mem_received (chunks : List Chunk) : 0 ∉ received chunks := fun h => by
  obtain ⟨chunk, -, h0⟩ := List.mem_flatMap.mp h
  exact zero_not_mem_cString _ h0

/-- A byte other than the newline is seen in the lines or in the rest. -/
theorem mem_iff {b : UInt8} (hb : b ≠ newline) (s : Bytes) :
    b ∈ s ↔ (∃ line ∈ lines s, b ∈ line) ∨ b ∈ Lines.rest newline s := by
  rw [Lines.mem_iff hb]
  refine or_congr_left (exists_congr fun line => ?_)
  simp only [lines, List.mem_filter]
  constructor
  · rintro ⟨hl, hm⟩
    exact ⟨⟨hl, by simpa using List.ne_nil_of_mem hm⟩, hm⟩
  · rintro ⟨⟨hl, -⟩, hm⟩
    exact ⟨hl, hm⟩

/-- A run that loses nothing has met no zero byte. -/
theorem zero_not_mem_of_lossless {chunks : List Chunk}
    (h : readChunk.run chunks [] = (Lines.rest newline (stream chunks), lines (stream chunks))) :
    0 ∉ stream chunks := by
  intro h0
  rw [run_readChunk chunks [] List.not_mem_nil] at h
  obtain ⟨hrest, hlines⟩ := Prod.mk.inj h
  refine zero_not_mem_received chunks ((mem_iff (by decide) _).mpr ?_)
  rw [List.nil_append] at hrest hlines
  rw [hrest, hlines]
  exact (mem_iff (by decide) _).mp h0

/-- The thread passes on exactly the non-empty lines of its input and keeps exactly what follows
the last newline when no byte of the input is zero, and only then. -/
theorem lines_lossless_iff (chunks : List Chunk) :
    readChunk.run chunks [] =
      (Lines.rest newline (stream chunks), lines (stream chunks)) ↔ 0 ∉ stream chunks := by
  refine ⟨zero_not_mem_of_lossless, fun h0 => ?_⟩
  rw [run_readChunk chunks [] List.not_mem_nil, List.nil_append, received_of_not_mem h0]

/-- Of the line `a`, zero, `b` only `a` reaches the buffer; even its newline is lost. -/
theorem zero_byte_truncates : ¬ ∀ chunks : List Chunk, readChunk.run chunks [] =
    (Lines.rest newline (stream chunks), lines (stream chunks)) := by
  intro h
  have h0 := zero_not_mem_of_lossless (h [⟨[97, 0, 98, 10], by decide, by decide⟩])
  exact h0 (by decide)

end ConferenceCall.Console

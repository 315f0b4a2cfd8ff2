import Mathlib.Data.List.Basic

/-! The segments of a stream that a separator ends, and what follows the last separator. Cutting
a stream in two and reading the parts one after the other gives the same segments. -/

namespace ConferenceCall.Library.Lines

variable {α : Type} [DecidableEq α] {sep : α}

/-- The segments a separator ends. -/
def ended (sep : α) (s : List α) : List (List α) := (s.splitOn sep).dropLast

/-- What follows the last separator. -/
def rest (sep : α) (s : List α) : List α := (s.splitOn sep).getLast (List.splitOn_ne_nil sep s)

/-- A stream has no separator, or a first segment and the stream behind its separator. -/
@[elab_as_elim]
theorem induction (sep : α) {motive : List α → Prop} (last : ∀ s, sep ∉ s → motive s)
    (segment : ∀ a s, sep ∉ a → motive s → motive (a ++ sep :: s)) (s : List α) : motive s := by
  induction h : s.length using Nat.strongRecOn generalizing s with
  | ind n ih =>
    by_cases hs : sep ∈ s
    · obtain ⟨a, t, rfl, ha⟩ := List.eq_append_cons_of_mem hs
      have hlt : t.length < n := by
        simp only [List.length_append, List.length_cons] at h
        omega
      exact segment a t ha (ih t.length hlt t rfl)
    · exact last s hs

theorem ended_of_not_mem {s : List α} (h : sep ∉ s) : ended sep s = [] := by
  simp [ended, List.splitOn_eq_singleton h]

theorem rest_of_not_mem {s : List α} (h : sep ∉ s) : rest sep s = s := by
  simp [rest, List.splitOn_eq_singleton h]

theorem ended_segment {a : List α} (h : sep ∉ a) (s : List α) :
    ended sep (a ++ sep :: s) = a :: ended sep s := by
  rw [ended, ended, List.splitOn_append_cons_self_of_not_mem h,
    List.dropLast_cons_of_ne_nil (List.splitOn_ne_nil sep s)]

theorem rest_segment {a : List α} (h : sep ∉ a) (s : List α) :
    rest sep (a ++ sep :: s) = rest sep s := by
  simp only [rest, List.splitOn_append_cons_self_of_not_mem h]
  exact List.getLast_cons _

theorem not_mem_rest (sep : α) (s : List α) : sep ∉ rest sep s := by
  induction s using induction sep with
  | last s h => rwa [rest_of_not_mem h]
  | segment a s ha ih => rwa [rest_segment ha]

/-- The segments of two parts are those of the first, then those of the second read behind what
the first has left. -/
theorem ended_append (sep : α) (s t : List α) :
    ended sep (s ++ t) = ended sep s ++ ended sep (rest sep s ++ t) := by
  induction s using induction sep with
  | last s h => rw [ended_of_not_mem h, rest_of_not_mem h, List.nil_append]
  | segment a s ha ih =>
    rw [List.append_assoc, List.cons_append, ended_segment ha, ended_segment ha, rest_segment ha, ih,
      List.cons_append]

theorem rest_append (sep : α) (s t : List α) :
    rest sep (s ++ t) = rest sep (rest sep s ++ t) := by
  induction s using induction sep with
  | last s h => rw [rest_of_not_mem h]
  | segment a s ha ih =>
    rw [List.append_assoc, List.cons_append, rest_segment ha, rest_segment ha, ih]

/-- An item other than the separator is in one segment or in the rest. -/
theorem mem_iff {x : α} (hx : x ≠ sep) (s : List α) :
    x ∈ s ↔ (∃ a ∈ ended sep s, x ∈ a) ∨ x ∈ rest sep s := by
  induction s using induction sep with
  | last s h => simp [ended_of_not_mem h, rest_of_not_mem h]
  | segment a s ha ih =>
    simp only [List.mem_append, List.mem_cons, hx, false_or, ended_segment ha, rest_segment ha, ih,
      exists_eq_or_imp, or_assoc]

end ConferenceCall.Library.Lines

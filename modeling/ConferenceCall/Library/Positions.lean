import Mathlib.Data.List.Nodup

/-! The elements of a list with a property, and where they stand. Changing one of them in the list
changes it among them. -/

namespace ConferenceCall.Library

variable {α : Type} {p : α → Bool} {l : List α} {a : α} {i k : ℕ}

/-- What stands at the position of the k-th element. -/
theorem getElem?_of_findIdxs (h : (l.findIdxs p)[k]? = some i) : l[i]? = (l.filter p)[k]? := by
  obtain ⟨hk, rfl⟩ := List.getElem?_eq_some_iff.mp h
  have hfilter : k < (l.filter p).length := by
    rwa [← List.countP_eq_length_filter, ← List.length_findIdxs (s := 0)]
  rw [List.getElem?_eq_getElem hfilter, List.getElem_filter_eq_getElem_getElem_findIdxs hfilter]
  exact List.getElem?_eq_getElem _

theorem getElem?_findIdxs_none (h : (l.findIdxs p)[k]? = none) : (l.filter p)[k]? = none := by
  rw [List.getElem?_eq_none_iff, List.length_findIdxs] at h
  rwa [List.getElem?_eq_none_iff, ← List.countP_eq_length_filter]

/-- A change that keeps the property moves none of them. -/
theorem findIdxs_modify {f : α → α} (hf : ∀ a, p (f a) = p a) (l : List α) (i s : ℕ) :
    (l.modify i f).findIdxs p s = l.findIdxs p s := by
  induction l generalizing i s with
  | nil => simp
  | cons a l ih =>
    cases i with
    | zero => simp [hf]
    | succ i => simp [ih]

theorem filter_modify_of_not {f : α → α} (hi : l[i]? = some a) (ha : p a = false)
    (hf : p (f a) = false) : (l.modify i f).filter p = l.filter p := by
  induction l generalizing i with
  | nil => cases hi
  | cons b l ih =>
    cases i with
    | zero =>
      cases hi
      simp [ha, hf]
    | succ i => simp [List.filter_cons, ih (by simpa using hi)]

theorem filter_modify {f : α → α} (hf : ∀ a, p (f a) = p a)
    (h : (l.findIdxs p)[k]? = some i) : (l.modify i f).filter p = (l.filter p).modify k f := by
  have hsame : (l.modify i f).findIdxs p = l.findIdxs p := findIdxs_modify hf l i 0
  refine List.ext_getElem? fun n => ?_
  rw [List.getElem?_modify]
  cases hn : (l.findIdxs p)[n]? with
  | none =>
    rw [getElem?_findIdxs_none hn, getElem?_findIdxs_none (l := l.modify i f) (hsame ▸ hn)]
    rfl
  | some j =>
    have hij : i = j ↔ k = n := by
      constructor
      · rintro rfl
        obtain ⟨hk, hki⟩ := List.getElem?_eq_some_iff.mp h
        obtain ⟨hn, hni⟩ := List.getElem?_eq_some_iff.mp hn
        have hnodup : (l.findIdxs p).Nodup := List.nodup_findIdxs
        exact hnodup.getElem_inj_iff.mp (hki.trans hni.symm)
      · rintro rfl
        exact Option.some.inj (h.symm.trans hn)
    rw [← getElem?_of_findIdxs (l := l.modify i f) (hsame ▸ hn), ← getElem?_of_findIdxs hn,
      List.getElem?_modify]
    simp only [hij]

end ConferenceCall.Library

import ConferenceCall.Json
import Mathlib.Tactic.SplitIfs

/-! The text form of JSON values. `json::parse` and `dump` are parameters; of `dump` it is only
used that parsing its text gives the same fields back. Strings are UTF-8 on the wire. -/

namespace ConferenceCall

/-- A `std::string`. -/
abbrev Bytes := List UInt8

/-- The bytes of a string. -/
def utf8 (s : String) : Bytes := s.toUTF8.data.toList

/-- The string some bytes encode. -/
def ofUtf8 (b : Bytes) : Option String := String.fromUTF8? b.toByteArray

theorem ofUtf8_eq_some {b : Bytes} {s : String} : ofUtf8 b = some s ↔ utf8 s = b := by
  have hbytes : s.toByteArray = b.toByteArray ↔ utf8 s = b := by
    rw [utf8, String.toUTF8, ByteArray.ext_iff, List.data_toByteArray, ← Array.toList_inj]
  unfold ofUtf8 String.fromUTF8?
  rw [← hbytes]
  split_ifs with h
  · rw [Option.some.injEq, ← String.toByteArray_inj]
    exact eq_comm
  · refine iff_of_false (by simp) fun heq => h ?_
    exact heq ▸ s.isValidUTF8

theorem utf8_inj {s t : String} : utf8 s = utf8 t ↔ s = t := by
  rw [← ofUtf8_eq_some, ofUtf8_eq_some.mpr rfl, Option.some.injEq, eq_comm]

/-- `json::parse`, which throws on some texts, and `dump` of a value with valid strings. -/
structure Codec where
  parse : Bytes → Option Json
  dump : Json → Bytes

namespace Json

/-- Two objects with the same fields; the order in which they are kept makes no difference. -/
def Agrees (j j' : Json) : Prop :=
  ∃ fields fields', j = .object fields ∧ j' = .object fields' ∧
    ∀ key, fields.lookup key = fields'.lookup key

variable {j j' : Json}

theorem Agrees.find? (h : j.Agrees j') (key : String) : j.find? key = j'.find? key := by
  obtain ⟨fields, fields', rfl, rfl, h⟩ := h
  exact h key

theorem Agrees.contains (h : j.Agrees j') (key : String) : j.contains key = j'.contains key := by
  rw [Json.contains, Json.contains, h.find?]

theorem Agrees.value {α : Type} (h : j.Agrees j') (key : String) (get : Json → Option α)
    (default : α) : j.value key get default = j'.value key get default := by
  obtain ⟨fields, fields', rfl, rfl, h⟩ := h
  simp only [Json.value, h key]

end Json

/-- The text of an object is read back. -/
def Codec.Recovers (codec : Codec) (j : Json) : Prop :=
  ∃ j', codec.parse (codec.dump j) = some j' ∧ j.Agrees j'

end ConferenceCall

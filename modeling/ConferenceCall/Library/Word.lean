import Mathlib.Algebra.Group.Nat.Defs
import Mathlib.Data.Int.Notation
import Mathlib.Data.List.Basic
import Mathlib.Tactic.SplitIfs

/-! Signed integers of 32 bits, which wrap around, and their four bytes, the lowest first. A byte
is written as the character with its code. -/

namespace ConferenceCall.Library.Word

/-- The value that is kept of an integer. -/
def int32 (z : ℤ) : ℤ := z.bmod 4294967296

/-- The integer needs no more than 32 bits. -/
def Fits (z : ℤ) : Prop := -2147483648 ≤ z ∧ z < 2147483648

instance (z : ℤ) : Decidable (Fits z) := inferInstanceAs (Decidable (_ ∧ _))

theorem int32_of_fits {z : ℤ} (h : Fits z) : int32 z = z := by
  obtain ⟨h, h'⟩ := h
  rw [int32, Int.bmod_def]
  split_ifs <;> omega

theorem fits_int32 (z : ℤ) : Fits (int32 z) := by
  rw [int32, Int.bmod_def]
  constructor <;> split_ifs <;> omega

def digit (k n : ℕ) : Char := Char.ofNat (n / 256 ^ k % 256)

def bytes (z : ℤ) : List Char :=
  let n := (z % 4294967296).toNat
  [digit 0 n, digit 1 n, digit 2 n, digit 3 n]

/-- The integer of the first four bytes of a memory. -/
def ofBytes (s : List Char) : ℤ :=
  let byte (k : ℕ) : ℤ := (s.getD k '\x00').toNat
  int32 (byte 0 + 256 * byte 1 + 65536 * byte 2 + 16777216 * byte 3)

theorem fits_ofBytes (s : List Char) : Fits (ofBytes s) := by
  unfold ofBytes
  exact fits_int32 _

@[simp] theorem length_bytes (z : ℤ) : (bytes z).length = 4 := rfl

theorem toNat_digit (k n : ℕ) : (digit k n).toNat = n / 256 ^ k % 256 := by
  rw [digit, Char.ofNat, dif_pos (.inl (by omega))]
  rfl

/-- What is written is read. -/
theorem ofBytes_bytes (z : ℤ) (rest : List Char) : ofBytes (bytes z ++ rest) = int32 z := by
  obtain ⟨n, hn⟩ : ∃ n : ℕ, z % 4294967296 = n := ⟨_, (Int.toNat_of_nonneg (by omega)).symm⟩
  have hbytes : ((n / 256 ^ 0 % 256 : ℕ) + 256 * (n / 256 ^ 1 % 256 : ℕ) +
      65536 * (n / 256 ^ 2 % 256 : ℕ) + 16777216 * (n / 256 ^ 3 % 256 : ℕ) : ℤ) = n := by
    omega
  simp only [ofBytes, bytes, hn, Int.toNat_natCast, List.cons_append, List.getD_cons_zero,
    List.getD_cons_succ, toNat_digit, hbytes]
  rw [← hn]
  exact Int.emod_bmod z 4294967296

end ConferenceCall.Library.Word

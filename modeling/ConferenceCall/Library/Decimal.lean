import Mathlib.Data.List.TakeWhile
import Mathlib.Data.Int.Notation

/-! Decimal integers as `printf` prints and `scanf` reads them, over integers without bounds.
What `%d` or a padded `%d` prints is read back, also with a leading sign or leading zeros. -/

namespace ConferenceCall.Library.Decimal

/-- `%0wd`, and `%d` for `w = 0`. -/
def print (w : ℕ) (z : ℤ) : List Char :=
  let digits := Nat.toDigits 10 z.natAbs
  if z < 0 then '-' :: (List.replicate (w - 1 - digits.length) '0' ++ digits)
  else List.replicate (w - digits.length) '0' ++ digits

/-- `isspace` in the C locale. -/
def isSpace (c : Char) : Bool := c == ' ' || (9 ≤ c.toNat && c.toNat ≤ 13)

/-- The digits of an unsigned number and what follows them. -/
def scanNat (s : List Char) : Option (ℕ × List Char) :=
  let digits := s.takeWhile Char.isDigit
  if digits.isEmpty then none
  else some (Nat.ofDigitChars 10 digits 0, s.dropWhile Char.isDigit)

/-- `%d`: leading blanks, a sign, digits. -/
def scan (s : List Char) : Option (ℤ × List Char) :=
  match s.dropWhile isSpace with
  | '-' :: rest => (scanNat rest).map fun (n, rest) => (-n, rest)
  | '+' :: rest => (scanNat rest).map fun (n, rest) => ((n : ℤ), rest)
  | rest => (scanNat rest).map fun (n, rest) => ((n : ℤ), rest)

/-- No digit comes next. -/
def endsNumber (s : List Char) : Prop := ∀ c ∈ s.head?, c.isDigit = false

theorem endsNumber_nil : endsNumber [] := fun _ h => by cases h

theorem endsNumber_cons {c : Char} {s : List Char} (h : c.isDigit = false) : endsNumber (c :: s) :=
  fun _ hc => by
    cases hc
    exact h

variable {w : ℕ} {z : ℤ} {rest : List Char}

theorem takeWhile_digits {digits : List Char} (hd : ∀ c ∈ digits, c.isDigit = true)
    (hr : endsNumber rest) : (digits ++ rest).takeWhile Char.isDigit = digits := by
  rw [List.takeWhile_append_of_pos hd]
  cases rest with
  | nil => simp
  | cons c rest => simp [hr c rfl]

theorem dropWhile_digits {digits : List Char} (hd : ∀ c ∈ digits, c.isDigit = true)
    (hr : endsNumber rest) : (digits ++ rest).dropWhile Char.isDigit = rest := by
  rw [List.dropWhile_append_of_pos hd]
  cases rest with
  | nil => simp
  | cons c rest => simp [hr c rfl]

/-- Zeros in front do not change the number. -/
theorem scanNat_padded (k n : ℕ) (hr : endsNumber rest) :
    scanNat (List.replicate k '0' ++ Nat.toDigits 10 n ++ rest) = some (n, rest) := by
  have hd : ∀ c ∈ List.replicate k '0' ++ Nat.toDigits 10 n, c.isDigit = true := by
    intro c hc
    rcases List.mem_append.mp hc with hc | hc
    · rw [List.eq_of_mem_replicate hc]
      rfl
    · exact Nat.isDigit_of_mem_toDigits (by decide) (by decide) hc
  rw [scanNat, takeWhile_digits hd hr, dropWhile_digits hd hr]
  simp [Nat.ofDigitChars_append]

/-- The first character of a number is a digit. -/
theorem padded_cons (k n : ℕ) : ∃ c digits, List.replicate k '0' ++ Nat.toDigits 10 n = c :: digits ∧
    c.isDigit = true := by
  cases hl : List.replicate k '0' ++ Nat.toDigits 10 n with
  | nil => simp [Nat.toDigits_ne_nil] at hl
  | cons c digits =>
    refine ⟨c, digits, rfl, ?_⟩
    have hc : c ∈ List.replicate k '0' ++ Nat.toDigits 10 n := by simp [hl]
    rcases List.mem_append.mp hc with hc | hc
    · rw [List.eq_of_mem_replicate hc]
      rfl
    · exact Nat.isDigit_of_mem_toDigits (by decide) (by decide) hc

/-- A digit is neither a blank nor a sign. -/
theorem scan_of_digit {c : Char} {s : List Char} (hc : c.isDigit = true) :
    scan (c :: s) = (scanNat (c :: s)).map fun (n, rest) => ((n : ℤ), rest) := by
  have hrange : 48 ≤ c.toNat ∧ c.toNat ≤ 57 := Char.isDigit_iff_toNat.mp hc
  have hne {d : Char} (hd : d.toNat < 48) : c ≠ d := by
    rintro rfl
    omega
  have hspace : isSpace c = false := by
    simp [isSpace, hne (d := ' ') (by decide)]
    omega
  rw [scan, List.dropWhile_cons_of_neg (by simp [hspace])]
  split
  · next h =>
    cases h
    exact absurd rfl (hne (d := '-') (by decide))
  · next h =>
    cases h
    exact absurd rfl (hne (d := '+') (by decide))
  · rfl

/-- What is printed is read back. -/
theorem scan_print (w : ℕ) (z : ℤ) (hr : endsNumber rest) :
    scan (print w z ++ rest) = some (z, rest) := by
  unfold print
  split
  · next hz =>
    rw [List.cons_append, scan, List.dropWhile_cons_of_neg (by decide)]
    simp only [scanNat_padded _ _ hr, Option.map_some, Option.some.injEq, Prod.mk.injEq, and_true]
    omega
  · next hz =>
    obtain ⟨c, digits, hl, hc⟩ := padded_cons (w - (Nat.toDigits 10 z.natAbs).length) z.natAbs
    have hscan := scanNat_padded (w - (Nat.toDigits 10 z.natAbs).length) z.natAbs hr
    rw [hl, List.cons_append] at hscan
    simp only [hl, List.cons_append, scan_of_digit hc, hscan, Option.map_some, Option.some.injEq,
      Prod.mk.injEq, and_true]
    omega

/-- A number ends with a digit. -/
theorem print_concat (w : ℕ) (z : ℤ) : ∃ s c, print w z = s ++ [c] ∧ c.isDigit = true := by
  obtain ⟨digits, c, hs⟩ : ∃ s c, Nat.toDigits 10 z.natAbs = s ++ [c] :=
    ⟨_, _, (List.dropLast_concat_getLast Nat.toDigits_ne_nil).symm⟩
  have hc : c.isDigit = true :=
    Nat.isDigit_of_mem_toDigits (b := 10) (n := z.natAbs) (by decide) (by decide) (by simp [hs])
  simp only [print, hs]
  split
  · exact ⟨_, c, by rw [← List.append_assoc, ← List.cons_append], hc⟩
  · exact ⟨_, c, by rw [← List.append_assoc], hc⟩

/-- A number is digits and a sign. -/
theorem mem_print {c : Char} (h : c ∈ print w z) : c.isDigit = true ∨ c = '-' := by
  have hdigits {k : ℕ} (hc : c ∈ List.replicate k '0' ++ Nat.toDigits 10 z.natAbs) :
      c.isDigit = true := by
    rcases List.mem_append.mp hc with hc | hc
    · rw [List.eq_of_mem_replicate hc]
      rfl
    · exact Nat.isDigit_of_mem_toDigits (by decide) (by decide) hc
  unfold print at h
  split at h
  · rcases List.mem_cons.mp h with hc | hc
    · exact .inr hc
    · exact .inl (hdigits hc)
  · exact .inl (hdigits h)

theorem print_ne_slash (w : ℕ) (z : ℤ) : '/' ∉ print w z := fun h => by
  rcases mem_print h with h | h <;> exact absurd h (by decide)

theorem print_injective (w : ℕ) : Function.Injective (print w) := by
  intro z z' h
  have hz := scan_print w z endsNumber_nil
  rw [h, scan_print w z' endsNumber_nil] at hz
  simpa using hz.symm

end ConferenceCall.Library.Decimal

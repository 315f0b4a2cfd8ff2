import Mathlib.Algebra.Order.Group.Int
import Mathlib.Tactic.SplitIfs

/-! The proleptic Gregorian calendar over all integers. Days are counted from 1970-01-01; the
formula for the days before a year is that of POSIX for seconds since the Epoch. A date carries
the proof that it exists, and every day has one. -/

namespace ConferenceCall.Library.Calendar

def leap (year : ℤ) : Bool := year % 4 == 0 && (year % 100 != 0 || year % 400 == 0)

def yearLength (year : ℤ) : ℤ := if leap year then 366 else 365

/-- The days from 1970-01-01 to the first day of a year. -/
def daysBeforeYear (year : ℤ) : ℤ :=
  (year - 1970) * 365 + (year - 1969) / 4 - (year - 1901) / 100 + (year - 1601) / 400

/-- Four centuries have 146097 days, so this guess of the year is off by one at most. -/
def nearYear (day : ℤ) : ℤ := 1970 + day * 400 / 146097

/-- The year of a day. -/
def yearOf (day : ℤ) : ℤ :=
  if day < daysBeforeYear (nearYear day) then nearYear day - 1
  else if daysBeforeYear (nearYear day + 1) ≤ day then nearYear day + 1
  else nearYear day

/-- The length of a month; January is 0. -/
def monthLength (leap : Bool) (month : Fin 12) : ℤ :=
  [31, if leap then 29 else 28, 31, 30, 31, 30, 31, 31, 30, 31, 30, 31].getD month 0

/-- The days of a year before a month. -/
def daysBeforeMonth (leap : Bool) (month : Fin 12) : ℤ :=
  [0, 31, 59, 90, 120, 151, 181, 212, 243, 273, 304, 334].getD month 0 +
    if leap && 2 ≤ month then 1 else 0

/-- The month of a day of the year. -/
def monthOf (leap : Bool) (day : ℤ) : Fin 12 :=
  let l := if leap then 1 else 0
  if day < 31 then 0 else if day < 59 + l then 1 else if day < 90 + l then 2
  else if day < 120 + l then 3 else if day < 151 + l then 4 else if day < 181 + l then 5
  else if day < 212 + l then 6 else if day < 243 + l then 7 else if day < 273 + l then 8
  else if day < 304 + l then 9 else if day < 334 + l then 10 else 11

theorem daysBeforeYear_succ (year : ℤ) :
    daysBeforeYear (year + 1) = daysBeforeYear year + yearLength year := by
  simp only [daysBeforeYear, yearLength, leap, Bool.and_eq_true, Bool.or_eq_true, beq_iff_eq,
    bne_iff_ne]
  split_ifs <;> omega

theorem nearYear_spec (day : ℤ) :
    daysBeforeYear (nearYear day - 1) ≤ day ∧ day < daysBeforeYear (nearYear day + 1 + 1) := by
  simp only [daysBeforeYear, nearYear]
  omega

/-- A day lies in its year. -/
theorem yearOf_spec (day : ℤ) :
    daysBeforeYear (yearOf day) ≤ day ∧ day < daysBeforeYear (yearOf day + 1) := by
  obtain ⟨hs, hs'⟩ := nearYear_spec day
  unfold yearOf
  split_ifs with hbefore hafter
  · rw [sub_add_cancel]
    exact ⟨hs, hbefore⟩
  · exact ⟨hafter, hs'⟩
  · exact ⟨not_lt.mp hbefore, not_le.mp hafter⟩

/-- A day of a year lies in its month. -/
theorem monthOf_spec (leap : Bool) {day : ℤ} (h : 0 ≤ day) (h' : day < if leap then 366 else 365) :
    daysBeforeMonth leap (monthOf leap day) ≤ day ∧
      day < daysBeforeMonth leap (monthOf leap day) + monthLength leap (monthOf leap day) := by
  have hall : ∀ (leap : Bool) (n : Fin 366), (n : ℤ) < (if leap then 366 else 365) →
      daysBeforeMonth leap (monthOf leap n) ≤ n ∧
        (n : ℤ) < daysBeforeMonth leap (monthOf leap n) + monthLength leap (monthOf leap n) := by
    decide +kernel
  have hlt : day.toNat < 366 := by
    split_ifs at h' <;> omega
  have hday : ((⟨day.toNat, hlt⟩ : Fin 366) : ℤ) = day := Int.toNat_of_nonneg h
  have hspec := hall leap ⟨day.toNat, hlt⟩
  rw [hday] at hspec
  exact hspec h'

/-- A date of the calendar. -/
structure Date where
  year : ℤ
  month : Fin 12
  day : ℤ
  valid : 1 ≤ day ∧ day ≤ monthLength (leap year) month

namespace Date

/-- The day of a date. -/
def days (d : Date) : ℤ :=
  daysBeforeYear d.year + daysBeforeMonth (leap d.year) d.month + (d.day - 1)

/-- The date of a day. -/
def ofDays (day : ℤ) : Date where
  year := yearOf day
  month := monthOf (leap (yearOf day)) (day - daysBeforeYear (yearOf day))
  day := day - daysBeforeYear (yearOf day) - daysBeforeMonth (leap (yearOf day))
    (monthOf (leap (yearOf day)) (day - daysBeforeYear (yearOf day))) + 1
  valid := by
    obtain ⟨hs, hs'⟩ := yearOf_spec day
    rw [daysBeforeYear_succ, yearLength] at hs'
    have hyear : 0 ≤ day - daysBeforeYear (yearOf day) := by omega
    obtain ⟨hm, hm'⟩ := monthOf_spec (leap (yearOf day)) hyear (by omega)
    omega

@[simp] theorem days_ofDays (day : ℤ) : (ofDays day).days = day := by
  simp only [days, ofDays]
  omega

end Date

end ConferenceCall.Library.Calendar

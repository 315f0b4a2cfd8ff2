import ConferenceCall.Library.Calendar
import ConferenceCall.Library.Decimal
import ConferenceCall.Library.Word

/-! Times and the names of day folders. `gmtime_r` and `timegm` are the conversions of the proleptic
Gregorian calendar, over times without bounds. What is printed, scanned or computed in a field of
`struct tm` is an `int` and wraps around. -/

namespace ConferenceCall.Log

open Library Calendar Word

/-- A `std::string`; its bytes are written as characters. -/
abbrev Text := List Char

/-- The fields of `struct tm` the program uses. -/
structure Tm where
  tm_sec : ℤ := 0
  tm_min : ℤ := 0
  tm_hour : ℤ := 0
  tm_mday : ℤ := 0
  tm_mon : ℤ := 0
  tm_year : ℤ := 0
  deriving DecidableEq

def SEC_PER_DAY : ℤ := 24 * 3600

/-- `gmtime_r`; it fails when the year does not fit its field, which `dayName` then truncates. -/
def gmtime (t : ℤ) : Tm :=
  let date := Date.ofDays (t / SEC_PER_DAY)
  { tm_sec := t % 60
    tm_min := t / 60 % 60
    tm_hour := t / 3600 % 24
    tm_mday := date.day
    tm_mon := (date.month : ℕ)
    tm_year := date.year - 1900 }

/-- `timegm`: months outside of a year carry over, days outside of a month count on. It is `-1`
when the year it comes to does not fit its field. -/
def timegm (tm : Tm) : ℤ :=
  let year := tm.tm_year + 1900 + tm.tm_mon / 12
  let month : Fin 12 := ⟨(tm.tm_mon % 12).toNat, by omega⟩
  let t := (daysBeforeYear year + daysBeforeMonth (leap year) month + (tm.tm_mday - 1)) *
    SEC_PER_DAY + tm.tm_hour * 3600 + tm.tm_min * 60 + tm.tm_sec
  if Fits (gmtime t).tm_year then t else -1

/-- The midnight before a time, as the program computes it: `%` rounds towards zero. -/
def midnight (t : ℤ) : ℤ := t - t.tmod SEC_PER_DAY

/-- `"%d-%02d-%02d"` of a date: the name of a day's folder. -/
def dayName (t : ℤ) : Text :=
  let tm := gmtime t
  Decimal.print 0 (int32 (tm.tm_year + 1900)) ++ '-' :: (Decimal.print 2 (tm.tm_mon + 1) ++
    '-' :: Decimal.print 2 tm.tm_mday)

/-- A character `sscanf` has to find. -/
def expect (c : Char) : Text → Option Text
  | [] => none
  | d :: s => if d = c then some s else none

/-- `%d`: the number `strtol` reads, which stays within 64 bits, is stored into an `int`. -/
def scanInt (s : Text) : Option (ℤ × Text) :=
  (Decimal.scan s).map fun (n, rest) => (int32 (max (-2 ^ 63) (min n (2 ^ 63 - 1))), rest)

/-- `sscanf(name, "%d-%d-%d", …) == 3`, with the year, the month and the day. -/
def scanDay (name : Text) : Option (ℤ × ℤ × ℤ) := do
  let (year, s) ← scanInt name
  let s ← expect '-' s
  let (month, s) ← scanInt s
  let s ← expect '-' s
  let (day, _) ← scanInt s
  return (year, month, day)

/-- The midnight a name stands for. -/
def folderTime (name : Text) : Option ℤ :=
  (scanDay name).map fun (year, month, day) =>
    timegm { tm_year := int32 (year - 1900), tm_mon := int32 (month - 1), tm_mday := day }

theorem gmtime_midnight (t : ℤ) :
    gmtime (t - t % SEC_PER_DAY) = { gmtime t with tm_sec := 0, tm_min := 0, tm_hour := 0 } := by
  have hday : (t - t % SEC_PER_DAY) / SEC_PER_DAY = t / SEC_PER_DAY := by
    simp only [SEC_PER_DAY]
    omega
  have hrest : (t - t % SEC_PER_DAY) % 60 = 0 ∧ (t - t % SEC_PER_DAY) / 60 % 60 = 0 ∧
      (t - t % SEC_PER_DAY) / 3600 % 24 = 0 := by
    simp only [SEC_PER_DAY]
    omega
  obtain ⟨hsec, hmin, hhour⟩ := hrest
  rw [gmtime, hday, hsec, hmin, hhour]
  rfl

/-- `timegm` undoes `gmtime_r` up to the time of the day. -/
theorem timegm_gmtime {t : ℤ} (h : Fits (gmtime t).tm_year) :
    timegm { gmtime t with tm_sec := 0, tm_min := 0, tm_hour := 0 } = t - t % SEC_PER_DAY := by
  have hdays := Date.days_ofDays (t / SEC_PER_DAY)
  have hyear : (gmtime t).tm_year + 1900 + (gmtime t).tm_mon / 12 =
      (Date.ofDays (t / SEC_PER_DAY)).year := by
    simp only [gmtime]
    omega
  have hmonth : ((gmtime t).tm_mon % 12).toNat = (Date.ofDays (t / SEC_PER_DAY)).month := by
    simp only [gmtime]
    omega
  have htime : t / SEC_PER_DAY * SEC_PER_DAY + 0 * 3600 + 0 * 60 + 0 = t - t % SEC_PER_DAY := by
    simp only [SEC_PER_DAY]
    omega
  have hday : daysBeforeYear (Date.ofDays (t / SEC_PER_DAY)).year +
      daysBeforeMonth (leap (Date.ofDays (t / SEC_PER_DAY)).year)
        (Date.ofDays (t / SEC_PER_DAY)).month + ((gmtime t).tm_mday - 1) = t / SEC_PER_DAY :=
    hdays
  simp only [timegm, hyear, hmonth, Fin.eta, hday, htime, gmtime_midnight]
  rw [if_pos h]

/-- A number that fits is read as it was printed. -/
theorem scanInt_print (w : ℕ) {z : ℤ} {rest : Text} (hz : Fits z)
    (hrest : Decimal.endsNumber rest) :
    scanInt (Decimal.print w z ++ rest) = some (z, rest) := by
  have hclamp : max (-2 ^ 63) (min z (2 ^ 63 - 1)) = z := by
    obtain ⟨hlow, hhigh⟩ := hz
    omega
  simp only [scanInt, Decimal.scan_print w z hrest, Option.map_some, hclamp, int32_of_fits hz]

/-- The year of a `struct tm` survives the sums of the program, also when they wrap around. -/
theorem int32_year {year : ℤ} (h : Fits year) : int32 (int32 (year + 1900) - 1900) = year := by
  rw [int32, int32, Int.bmod_sub_bmod, add_sub_cancel_right]
  exact int32_of_fits h

theorem fits_gmtime (t : ℤ) : Fits ((gmtime t).tm_mon + 1) ∧ Fits (gmtime t).tm_mday := by
  have hvalid := (Date.ofDays (t / SEC_PER_DAY)).valid
  have hlength (leap : Bool) (month : Fin 12) : monthLength leap month ≤ 31 := by
    revert leap month
    decide
  have hle := hlength (leap (Date.ofDays (t / SEC_PER_DAY)).year)
    (Date.ofDays (t / SEC_PER_DAY)).month
  simp only [gmtime, Fits]
  omega

/-- Every printed name is read back, to the midnight of its day. -/
theorem folderTime_dayName {t : ℤ} (h : Fits (gmtime t).tm_year) :
    folderTime (dayName t) = some (t - t % SEC_PER_DAY) := by
  obtain ⟨hmon, hmday⟩ := fits_gmtime t
  have hdash {s : Text} : Decimal.endsNumber ('-' :: s) := Decimal.endsNumber_cons rfl
  have hend : scanInt (Decimal.print 2 (gmtime t).tm_mday) = some ((gmtime t).tm_mday, []) := by
    simpa using scanInt_print 2 hmday Decimal.endsNumber_nil
  have hscan : scanDay (dayName t) =
      some (int32 ((gmtime t).tm_year + 1900), (gmtime t).tm_mon + 1, (gmtime t).tm_mday) := by
    simp [scanDay, dayName, scanInt_print _ (fits_int32 _) hdash, scanInt_print _ hmon hdash,
      expect, hend]
  have hmonth : int32 ((gmtime t).tm_mon + 1 - 1) = (gmtime t).tm_mon := by
    rw [add_sub_cancel_right]
    refine int32_of_fits ?_
    simp only [gmtime, Fits]
    omega
  simp only [folderTime, hscan, Option.map_some, int32_year h, hmonth, ← timegm_gmtime h]

/-- From the Epoch on the program's midnight is that of the day. -/
theorem midnight_eq {t : ℤ} (h : 0 ≤ t) : midnight t = t - t % SEC_PER_DAY := by
  rw [midnight, Int.tmod_eq_emod_of_nonneg h]

end ConferenceCall.Log

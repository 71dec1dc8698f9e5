import Mathlib.Data.Int.Notation

/-!
# The civil calendar

Days are numbered from 1970-01-01.  The Gregorian calendar repeats every 146097 days; counting years
from the first of March puts the leap day at the end of a year, a century's missing one at the end of
the century, and the four hundredth year's at the end of the cycle, so that each of the three is cut
off by a division that runs over by at most one.
-/

set_option autoImplicit false

namespace Calendar

/-- The day of the year, counted from the first of March. -/
def dayOfYear (day : Int) : Nat :=
  let ofEra := ((day + 719468) % 146097).toNat
  let ofCentury := ofEra - 36524 * min 3 (ofEra / 36524)
  let ofQuad := ofCentury % 1461
  ofQuad - 365 * min 3 (ofQuad / 365)

/-- The month, from March. -/
def monthIndex (day : Int) : Nat := (5 * dayOfYear day + 2) / 153

/-- The month, 1 to 12. -/
def month (day : Int) : Nat :=
  if monthIndex day < 10 then monthIndex day + 3 else monthIndex day - 9

/-- The day of the month, from 1. -/
def dayOfMonth (day : Int) : Nat := dayOfYear day - (153 * monthIndex day + 2) / 5 + 1

/-- The year. -/
def year (day : Int) : Int :=
  let ofEra := ((day + 719468) % 146097).toNat
  let century := min 3 (ofEra / 36524)
  let ofCentury := ofEra - 36524 * century
  400 * ((day + 719468) / 146097) + 100 * century + 4 * (ofCentury / 1461 : Nat) +
    min 3 (ofCentury % 1461 / 365) + if monthIndex day < 10 then 0 else 1

/-- The day of the week; Sunday is 0. -/
def weekday (day : Int) : Nat := ((day + 4) % 7).toNat

theorem dayOfYear_le (day : Int) : dayOfYear day ≤ 365 := by
  simp only [dayOfYear]
  omega

theorem month_mem (day : Int) : 1 ≤ month day ∧ month day ≤ 12 := by
  have hle := dayOfYear_le day
  have hindex : monthIndex day = (5 * dayOfYear day + 2) / 153 := rfl
  rw [month]
  split <;> omega

theorem dayOfMonth_mem (day : Int) : 1 ≤ dayOfMonth day ∧ dayOfMonth day ≤ 31 := by
  have hindex : monthIndex day = (5 * dayOfYear day + 2) / 153 := rfl
  rw [dayOfMonth]
  omega

theorem weekday_lt (day : Int) : weekday day < 7 := by
  rw [weekday]
  omega

variable {day : Int}

/-- February has at most 29 days. -/
theorem dayOfMonth_le_of_february (h : month day = 2) : dayOfMonth day ≤ 29 := by
  have hle := dayOfYear_le day
  rw [month] at h
  rw [dayOfMonth]
  split at h <;> omega

/-! ## Days come again -/

/-- The days of a year follow each other, and a year is not over before its 365th. -/
theorem dayOfYear_succ (day : Int) :
    dayOfYear (day + 1) = dayOfYear day + 1 ∨ dayOfYear (day + 1) = 0 ∧ 364 ≤ dayOfYear day := by
  have hera : ((day + 1 + 719468) % 146097).toNat = ((day + 719468) % 146097).toNat + 1 ∧
      ((day + 719468) % 146097).toNat < 146096 ∨
      ((day + 1 + 719468) % 146097).toNat = 0 ∧ ((day + 719468) % 146097).toNat = 146096 := by omega
  simp only [dayOfYear]
  generalize ((day + 719468) % 146097).toNat = e at *
  generalize ((day + 1 + 719468) % 146097).toNat = e' at *
  rcases hera with ⟨rfl, hlt⟩ | ⟨rfl, rfl⟩
  · -- The next day is of the same century, or the first of the next one.
    have hcentury : e + 1 - 36524 * min 3 ((e + 1) / 36524) = e - 36524 * min 3 (e / 36524) + 1 ∨
        e + 1 - 36524 * min 3 ((e + 1) / 36524) = 0 ∧ e - 36524 * min 3 (e / 36524) = 36523 := by
      omega
    generalize e - 36524 * min 3 (e / 36524) = c at *
    generalize e + 1 - 36524 * min 3 ((e + 1) / 36524) = c' at *
    rcases hcentury with rfl | ⟨rfl, rfl⟩
    · have hquad : (c + 1) % 1461 = c % 1461 + 1 ∨ (c + 1) % 1461 = 0 ∧ c % 1461 = 1460 := by omega
      generalize c % 1461 = q at *
      generalize (c + 1) % 1461 = q' at *
      rcases hquad with rfl | ⟨rfl, rfl⟩
      · omega
      · decide
    · decide
  · decide

/-- Within a year the days are counted on. -/
theorem dayOfYear_add {k : Nat} (h : dayOfYear day + k ≤ 364) :
    dayOfYear (day + k) = dayOfYear day + k := by
  induction k with
  | zero => simp
  | succ k ih =>
    have hsucc := dayOfYear_succ (day + k)
    have hday : day + ((k + 1 : Nat) : Int) = day + k + 1 := by omega
    rw [hday]
    omega

/-- A year begins within a year. -/
theorem exists_dayOfYear_zero (day : Int) :
    ∃ k : Nat, 1 ≤ k ∧ k ≤ 366 - dayOfYear day ∧ dayOfYear (day + k) = 0 := by
  have hle := dayOfYear_le day
  obtain ⟨n, hn⟩ : ∃ n, n = 365 - dayOfYear day := ⟨_, rfl⟩
  induction n generalizing day with
  | zero =>
    have hsucc := dayOfYear_succ day
    have hle' := dayOfYear_le (day + 1)
    have hzero : dayOfYear (day + 1) = 0 := by omega
    exact ⟨1, by omega, by omega, hzero⟩
  | succ n ih =>
    rcases dayOfYear_succ day with h | ⟨h, h'⟩
    · obtain ⟨k, hk, hk', hzero⟩ := ih (day + 1) (dayOfYear_le _) (by omega)
      refine ⟨k + 1, by omega, by omega, ?_⟩
      rw [← hzero]
      congr 1
      omega
    · exact ⟨1, by omega, by omega, h⟩

/-- Every day of the year but the leap day comes within 366 days. -/
theorem exists_dayOfYear_eq (day : Int) {n : Nat} (hn : n ≤ 364) :
    ∃ k : Nat, k ≤ 366 ∧ dayOfYear (day + k) = n := by
  by_cases hle : dayOfYear day ≤ n
  · refine ⟨n - dayOfYear day, by omega, ?_⟩
    rw [dayOfYear_add (by omega)]
    omega
  obtain ⟨k, -, hk, hzero⟩ := exists_dayOfYear_zero day
  refine ⟨k + n, by omega, ?_⟩
  have hday : day + ((k + n : Nat) : Int) = day + k + n := by omega
  rw [hday, dayOfYear_add (by omega), hzero]
  omega

/-- The month and its day are read off the day of the year. -/
theorem month_congr {day' : Int} (h : dayOfYear day = dayOfYear day') :
    month day = month day' ∧ dayOfMonth day = dayOfMonth day' := by
  have hindex : monthIndex day = monthIndex day' := by rw [monthIndex, monthIndex, h]
  rw [month, month, dayOfMonth, dayOfMonth, hindex, h]
  exact ⟨rfl, rfl⟩

/-- The 29th of February. -/
theorem dayOfYear_eq_365_iff : dayOfYear day = 365 ↔ month day = 2 ∧ dayOfMonth day = 29 := by
  have hindex : monthIndex day = (5 * dayOfYear day + 2) / 153 := rfl
  rw [month, dayOfMonth]
  split <;> omega

/-- Every month has every day of the week, and comes within a year. -/
theorem exists_month_weekday (day day₀ : Int) {w : Nat} (hw : w < 7) :
    ∃ k : Nat, k ≤ 372 ∧ month (day + k) = month day₀ ∧ weekday (day + k) = w := by
  have hle := dayOfYear_le day₀
  have hindex : monthIndex day₀ = (5 * dayOfYear day₀ + 2) / 153 := rfl
  obtain ⟨k, hk, hfirst⟩ := exists_dayOfYear_eq day (n := (153 * monthIndex day₀ + 2) / 5) (by omega)
  obtain ⟨j, hj⟩ : ∃ j : Nat, j = (w + 7 - weekday (day + k)) % 7 := ⟨_, rfl⟩
  have hday : day + ((k + j : Nat) : Int) = day + k + j := by omega
  have hdoy : dayOfYear (day + k + j) = dayOfYear (day + k) + j := dayOfYear_add (by omega)
  refine ⟨k + j, by omega, ?_, ?_⟩
  · have hindex' : monthIndex (day + k + j) = (5 * dayOfYear (day + k + j) + 2) / 153 := rfl
    have heq : monthIndex (day + k + j) = monthIndex day₀ := by omega
    rw [hday, month, month, heq]
  · have hwd := weekday_lt (day + k)
    simp only [weekday] at hj hwd ⊢
    omega

example : (year 19782, month 19782, dayOfMonth 19782, weekday 19782) = (2024, 2, 29, 4) := by decide

end Calendar

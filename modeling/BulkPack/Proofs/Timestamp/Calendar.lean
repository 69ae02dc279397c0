import BulkPack.Timestamp

/-!
# The calendar

A count of days is turned into a date by eras of 400 years, in which years begin in March so that
the leap day comes last. The date of a day is one that there is, and it stands for that day.
-/

namespace BulkPack

namespace Timestamp

/-! ### Years of an era -/

/-- The days of an era before its year `y`. -/
def daysBefore (y : Nat) : Nat :=
  365 * y + y / 4 - y / 100 + y / 400

/-- The days of an era up to one of them, where leap days do not count. -/
def commonDays (day : Nat) : Nat :=
  day - day / 1460 + day / 36524 - day / 146096

theorem commonDays_mono {a b : Nat} (h : a ≤ b) (hb : b < 146097) :
    commonDays a ≤ commonDays b := by
  induction h with
  | refl => exact Nat.le_refl _
  | step h ih =>
    refine Nat.le_trans (ih (by omega)) ?_
    unfold commonDays
    omega

theorem commonDays_year : ∀ y < 400,
    commonDays (daysBefore y) / 365 = y ∧ commonDays (daysBefore (y + 1) - 1) / 365 = y := by
  decide +kernel

/-- The year behind the `y`-th of an era begins a day later if it has a leap day. -/
theorem daysBefore_succ : ∀ y < 400, daysBefore y = 365 * y + y / 4 - y / 100 ∧
    daysBefore (y + 1) = daysBefore y + 365 +
      if (y + 1) % 4 = 0 ∧ ((y + 1) % 100 ≠ 0 ∨ y + 1 = 400) then 1 else 0 := by
  decide +kernel

theorem exists_year {day : Nat} (years : Nat) (h : day < daysBefore years) :
    ∃ y < years, daysBefore y ≤ day ∧ day < daysBefore (y + 1) := by
  induction years with
  | zero => exact absurd h (Nat.not_lt_zero _)
  | succ years ih =>
    by_cases hday : day < daysBefore years
    · obtain ⟨y, hy, hbounds⟩ := ih hday
      exact ⟨y, Nat.lt_succ_of_lt hy, hbounds⟩
    · exact ⟨years, Nat.lt_succ_self _, Nat.le_of_not_lt hday, h⟩

theorem yearOfEra {day : Nat} (h : day < 146097) :
    ∃ y < 400, commonDays day / 365 = y ∧ daysBefore y ≤ day ∧ day < daysBefore (y + 1) := by
  obtain ⟨y, hy, hlow, hhigh⟩ := exists_year 400 h
  have hlast : daysBefore (y + 1) ≤ 146097 := by
    unfold daysBefore
    omega
  obtain ⟨hfirst, hend⟩ := commonDays_year y hy
  -- the count of common days does not leave the year between its first day and its last
  have hfrom := Nat.div_le_div_right (c := 365) (commonDays_mono hlow h)
  have hto := Nat.div_le_div_right (c := 365)
    (commonDays_mono (Nat.le_sub_one_of_lt hhigh) (by omega))
  exact ⟨y, hy, by omega, hlow, hhigh⟩

/-! ### Days of a year -/

/-- The month of a day of a year that begins in March; March is the month 0. -/
def marchMonth (day : Nat) : Nat :=
  (5 * day + 2) / 153

def daysBeforeMonth (m : Nat) : Nat :=
  (153 * m + 2) / 5

theorem marchMonth_bounds {day : Nat} (h : day < 366) :
    marchMonth day < 12 ∧ daysBeforeMonth (marchMonth day) ≤ day := by
  unfold marchMonth daysBeforeMonth
  omega

def monthNumber (m : Nat) : Nat :=
  if m < 10 then m + 3 else m - 9

theorem monthNumber_bounds {m : Nat} (h : m < 12) :
    1 ≤ monthNumber m ∧ monthNumber m ≤ 12 ∧ (monthNumber m + 9) % 12 = m := by
  unfold monthNumber
  split <;> omega

/-- No month has more days than the calendar says, where February is the last of the year. -/
theorem day_le_daysOfMonth {day : Nat} (h : day < 366) {year : Int}
    (hleap : day = 365 → isLeapYear year = true) :
    day - daysBeforeMonth (marchMonth day) + 1
      ≤ daysOfMonth year (monthNumber (marchMonth day)) := by
  have hmonths : ∀ day < 366, day - daysBeforeMonth (marchMonth day) + 1
      ≤ if monthNumber (marchMonth day) = 2 then (if day = 365 then 29 else 28)
        else if monthNumber (marchMonth day) = 4 ∨ monthNumber (marchMonth day) = 6 ∨
          monthNumber (marchMonth day) = 9 ∨ monthNumber (marchMonth day) = 11 then 30
        else 31 := by decide +kernel
  refine Nat.le_trans (hmonths day h) ?_
  unfold daysOfMonth
  split
  · by_cases hlast : day = 365
    · refine Nat.le_of_eq ?_
      rw [if_pos hlast, if_pos (hleap hlast)]
    · rw [if_neg hlast]
      split <;> decide
  · exact Nat.le_refl _

/-! ### Dates -/

/-- The date of a day: its era, the year of that, and the day of the year. -/
theorem dateOfDay_eq (n : Int) : ∃ (era : Int) (y day : Nat), y < 400 ∧ day < 366 ∧
    (day = 365 → isLeapYear (y + era * 400 + 1) = true) ∧
    n = era * 146097 + (365 * y + y / 4 - y / 100 : Nat) + day - 719468 ∧
    dateOfDay n = (if monthNumber (marchMonth day) ≤ 2 then (y + era * 400 : Int) + 1
        else y + era * 400, monthNumber (marchMonth day),
      day - daysBeforeMonth (marchMonth day) + 1) := by
  have hera : (n + 719468).fdiv 146097 = (n + 719468) / 146097 :=
    Int.fdiv_eq_ediv_of_nonneg _ (by decide)
  have hday : ((n + 719468) - (n + 719468).fdiv 146097 * 146097).toNat < 146097 := by
    rw [hera]
    omega
  obtain ⟨y, hy, hyear, hlow, hhigh⟩ := yearOfEra hday
  obtain ⟨hbefore, hsucc⟩ := daysBefore_succ y hy
  rw [hsucc] at hhigh
  rw [hbefore] at hlow hhigh
  refine ⟨(n + 719468).fdiv 146097, y,
    ((n + 719468) - (n + 719468).fdiv 146097 * 146097).toNat - (365 * y + y / 4 - y / 100),
    hy, ?_, ?_, ?_, ?_⟩
  · split at hhigh <;> omega
  · intro hlast
    have hleap : (y + 1) % 4 = 0 ∧ ((y + 1) % 100 ≠ 0 ∨ y + 1 = 400) := by
      refine Decidable.by_contra fun hnot => ?_
      rw [if_neg hnot] at hhigh
      omega
    simp only [isLeapYear, Bool.and_eq_true, Bool.or_eq_true, beq_iff_eq, bne_iff_ne, ne_eq]
    omega
  · rw [hera] at hlow ⊢
    omega
  · rw [← hyear]
    rfl

theorem dateOfDay_valid (n : Int) :
    1 ≤ (dateOfDay n).2.1 ∧ (dateOfDay n).2.1 ≤ 12 ∧ 1 ≤ (dateOfDay n).2.2 ∧
      (dateOfDay n).2.2 ≤ daysOfMonth (dateOfDay n).1 (dateOfDay n).2.1 := by
  obtain ⟨era, y, day, -, hday, hleap, -, hdate⟩ := dateOfDay_eq n
  obtain ⟨hmonth, -⟩ := marchMonth_bounds hday
  obtain ⟨hlow, hhigh, -⟩ := monthNumber_bounds hmonth
  rw [hdate]
  refine ⟨hlow, hhigh, Nat.le_add_left 1 _, day_le_daysOfMonth hday ?_⟩
  intro hlast
  have hfebruary : monthNumber (marchMonth day) ≤ 2 := by
    rw [hlast]
    decide
  rw [if_pos hfebruary]
  exact hleap hlast

/-- The day that a date stands for, by the year and the day of a year that begins in March. -/
theorem dayOfDate_march (era : Int) {y day : Nat} (hy : y < 400) (hday : day < 366) :
    dayOfDate (if monthNumber (marchMonth day) ≤ 2 then (y + era * 400 : Int) + 1
        else y + era * 400) (monthNumber (marchMonth day))
        (day - daysBeforeMonth (marchMonth day) + 1)
      = era * 146097 + (365 * y + y / 4 - y / 100 : Nat) + day - 719468 := by
  obtain ⟨hmonth, hbefore⟩ := marchMonth_bounds hday
  obtain ⟨-, -, hnumber⟩ := monthNumber_bounds hmonth
  have hera : (y + era * 400 : Int).fdiv 400 = era := by
    rw [Int.fdiv_eq_ediv_of_nonneg _ (by decide)]
    omega
  have hshift : ((monthNumber (marchMonth day) : Int) + 9) % 12 = marchMonth day := by omega
  have hyearday : ((153 * (marchMonth day : Int) + 2) / 5
      + ((day - daysBeforeMonth (marchMonth day) + 1 : Nat) : Int) - 1) = day := by
    unfold daysBeforeMonth at hbefore ⊢
    omega
  have hmarch : (if monthNumber (marchMonth day) ≤ 2 then
        (if monthNumber (marchMonth day) ≤ 2 then (y + era * 400 : Int) + 1 else y + era * 400) - 1
      else if monthNumber (marchMonth day) ≤ 2 then (y + era * 400 : Int) + 1
      else y + era * 400) = y + era * 400 := by
    split <;> omega
  unfold dayOfDate
  simp only [hmarch, hera, hshift, hyearday]
  omega

theorem dayOfDate_dateOfDay (n : Int) :
    dayOfDate (dateOfDay n).1 (dateOfDay n).2.1 (dateOfDay n).2.2 = n := by
  obtain ⟨era, y, day, hy, hday, -, hn, hdate⟩ := dateOfDay_eq n
  rw [hdate, hn]
  exact dayOfDate_march era hy hday

end Timestamp

end BulkPack

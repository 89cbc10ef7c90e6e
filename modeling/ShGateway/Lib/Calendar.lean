import Mathlib

/-!
Calendars of twelve months that differ in their leap years.
-/

namespace ShGateway.Lib.Calendar

structure Date where
  year : Nat
  month : Nat
  day : Nat
deriving DecidableEq, Repr

variable (leap : Nat → Bool)

/-- The days of a month; there is none before January. -/
def monthDays (year : Nat) : Nat → Nat
  | 0 => 0
  | 2 => if leap year then 29 else 28
  | 4 | 6 | 9 | 11 => 30
  | _ => 31

structure Date.Valid (d : Date) : Prop where
  month_pos : 1 ≤ d.month
  month_le : d.month ≤ 12
  day_pos : 1 ≤ d.day
  day_le : d.day ≤ monthDays leap d.year d.month

/-- The date after `d`. -/
def next (d : Date) : Date :=
  if d.day < monthDays leap d.year d.month then ⟨d.year, d.month, d.day + 1⟩
  else if d.month < 12 then ⟨d.year, d.month + 1, 1⟩
  else ⟨d.year + 1, 1, 1⟩

/-! ## Days since the beginning -/

def yearDays (year : Nat) : Nat := if leap year then 366 else 365

def daysBeforeYear : Nat → Nat
  | 0 => 0
  | year + 1 => daysBeforeYear year + yearDays leap year

def daysBeforeMonth (year : Nat) : Nat → Nat
  | 0 => 0
  | month + 1 => daysBeforeMonth year month + monthDays leap year month

def dayNumber (d : Date) : Nat :=
  daysBeforeYear leap d.year + daysBeforeMonth leap d.year d.month + d.day

section

variable {leap} {d e : Date}

theorem daysBeforeMonth_year (year : Nat) : daysBeforeMonth leap year 13 = yearDays leap year := by
  rw [yearDays]
  cases hleap : leap year <;> simp [daysBeforeMonth, monthDays, hleap]

theorem daysBeforeMonth_le {year m n : Nat} (h : m ≤ n) :
    daysBeforeMonth leap year m ≤ daysBeforeMonth leap year n := by
  induction n, h using Nat.le_induction with
  | base => exact Nat.le_refl _
  | succ n _ ih => exact ih.trans (Nat.le_add_right _ _)

theorem daysBeforeYear_le {m n : Nat} (h : m ≤ n) :
    daysBeforeYear leap m ≤ daysBeforeYear leap n := by
  induction n, h using Nat.le_induction with
  | base => exact Nat.le_refl _
  | succ n _ ih => exact ih.trans (Nat.le_add_right _ _)

theorem daysBeforeMonth_eq {year m : Nat} (h : m ≤ 12) :
    daysBeforeMonth leap year m =
      daysBeforeMonth (fun _ => false) 0 m + if 3 ≤ m ∧ leap year then 1 else 0 := by
  cases hleap : leap year
  · interval_cases m <;> simp [daysBeforeMonth, monthDays, hleap]
  · interval_cases m <;> simp [daysBeforeMonth, monthDays, hleap]

theorem monthDays_le (year m : Nat) : monthDays leap year m ≤ 31 := by
  unfold monthDays
  split
  · omega
  · split <;> omega
  all_goals omega

theorem monthDays_pos {year m : Nat} (h : 1 ≤ m) : 1 ≤ monthDays leap year m := by
  unfold monthDays
  split
  · omega
  · split <;> omega
  all_goals omega

theorem le_next_year (d : Date) : d.year ≤ (next leap d).year := by
  rw [next]
  split_ifs
  · exact Nat.le_refl _
  · exact Nat.le_refl _
  · exact Nat.le_succ _

theorem Date.Valid.next (h : d.Valid leap) : (next leap d).Valid leap := by
  obtain ⟨hmonth, hmonth', hday, hday'⟩ := h
  rw [Calendar.next]
  split_ifs with hlt hyear
  · exact ⟨hmonth, hmonth', Nat.le_add_left .., hlt⟩
  · exact ⟨Nat.le_add_left .., hyear, Nat.le_refl 1, monthDays_pos (Nat.le_add_left ..)⟩
  · exact ⟨Nat.le_refl 1, Nat.le_add_left 1 11, Nat.le_refl 1, monthDays_pos (Nat.le_refl 1)⟩

theorem dayNumber_next (h : d.Valid leap) : dayNumber leap (next leap d) = dayNumber leap d + 1 := by
  obtain ⟨hmonth, hmonth', hday, hday'⟩ := h
  rw [next]
  split_ifs with hlt hyear
  · rfl
  · have hlast : d.day = monthDays leap d.year d.month := by omega
    change daysBeforeYear leap d.year +
      (daysBeforeMonth leap d.year d.month + monthDays leap d.year d.month) + 1 = _
    rw [dayNumber, hlast]
    omega
  · have hlast : d.day = monthDays leap d.year d.month := by omega
    have hdecember : d.month = 12 := by omega
    have hyear' := @daysBeforeMonth_year leap d.year
    rw [daysBeforeMonth, ← hdecember] at hyear'
    change daysBeforeYear leap d.year + yearDays leap d.year + 0 + 1 = _
    rw [dayNumber, ← hyear', hlast]
    omega

theorem Date.Valid.dayNumber_le (h : d.Valid leap) :
    dayNumber leap d ≤ daysBeforeYear leap (d.year + 1) := by
  have hmonth : daysBeforeMonth leap d.year (d.month + 1) ≤ daysBeforeMonth leap d.year 13 :=
    daysBeforeMonth_le (Nat.add_le_add_right h.month_le 1)
  rw [daysBeforeMonth_year, daysBeforeMonth] at hmonth
  have hday := h.day_le
  rw [dayNumber, daysBeforeYear]
  omega

theorem Date.Valid.dayNumber_le_month (h : d.Valid leap) :
    dayNumber leap d ≤ daysBeforeYear leap d.year + daysBeforeMonth leap d.year (d.month + 1) := by
  rw [dayNumber, daysBeforeMonth, ← Nat.add_assoc]
  exact Nat.add_le_add_left h.day_le _

theorem dayNumber_lt_of_year (hd : d.Valid leap) (he : e.Valid leap) (h : d.year < e.year) :
    dayNumber leap d < dayNumber leap e := by
  have hyear := @daysBeforeYear_le leap (d.year + 1) e.year h
  have hle := hd.dayNumber_le
  have hday := he.day_pos
  rw [dayNumber.eq_def leap e]
  omega

theorem dayNumber_lt_of_month (hd : d.Valid leap) (he : e.Valid leap) (hyear : d.year = e.year)
    (h : d.month < e.month) : dayNumber leap d < dayNumber leap e := by
  have hmonth := @daysBeforeMonth_le leap d.year (d.month + 1) e.month h
  have hle := hd.dayNumber_le_month
  have hday := he.day_pos
  rw [dayNumber.eq_def leap e, ← hyear]
  omega

/-- A date is determined by its number. -/
theorem eq_of_dayNumber (hd : d.Valid leap) (he : e.Valid leap)
    (h : dayNumber leap d = dayNumber leap e) : d = e := by
  have hyear : d.year = e.year := by
    rcases Nat.lt_trichotomy d.year e.year with hlt | heq | hgt
    · exact absurd h (dayNumber_lt_of_year hd he hlt).ne
    · exact heq
    · exact absurd h (dayNumber_lt_of_year he hd hgt).ne'
  have hmonth : d.month = e.month := by
    rcases Nat.lt_trichotomy d.month e.month with hlt | heq | hgt
    · exact absurd h (dayNumber_lt_of_month hd he hyear hlt).ne
    · exact heq
    · exact absurd h (dayNumber_lt_of_month he hd hyear.symm hgt).ne'
  obtain ⟨year, month, day⟩ := d
  obtain ⟨year', month', day'⟩ := e
  obtain rfl : year = year' := hyear
  obtain rfl : month = month' := hmonth
  obtain rfl : day = day' := Nat.add_left_cancel h
  rfl

theorem iterate_next (h : d.Valid leap) (n : Nat) :
    ((next leap)^[n] d).Valid leap ∧
      dayNumber leap ((next leap)^[n] d) = dayNumber leap d + n := by
  induction n with
  | zero => exact ⟨h, rfl⟩
  | succ n ih =>
      rw [Function.iterate_succ_apply']
      exact ⟨ih.1.next, (dayNumber_next ih.1).trans (congrArg (· + 1) ih.2)⟩

theorem le_iterate_year (d : Date) (n : Nat) : d.year ≤ ((next leap)^[n] d).year := by
  induction n with
  | zero => exact Nat.le_refl _
  | succ n ih =>
      rw [Function.iterate_succ_apply']
      exact ih.trans (le_next_year _)

end

end ShGateway.Lib.Calendar

import Mathlib

/-!
# The proleptic Gregorian calendar

Dates from the year 1 on, and their ordinals: the first day of the year 1 has ordinal 1, and
every day has one more than the day before.

What is proved here:

* `findGreatest_start` and `eq_of_start` — the period that a day falls into, among periods that
  follow each other;
* `Date.ordinal_injective` and `Date.ordinal_ofOrdinal` — dates and ordinals determine each
  other.
-/

namespace Calendar

/-! ## Periods that follow each other -/

/-- The last period that starts before a day contains it. -/
theorem findGreatest_start (start : ℕ → ℕ) {n bound : ℕ} (hfirst : start 1 < n)
    (hbound : 1 ≤ bound) (hlast : n ≤ start (bound + 1)) :
    1 ≤ Nat.findGreatest (fun k => start k < n) bound ∧
      Nat.findGreatest (fun k => start k < n) bound ≤ bound ∧
      start (Nat.findGreatest (fun k => start k < n) bound) < n ∧
      n ≤ start (Nat.findGreatest (fun k => start k < n) bound + 1) := by
  have hle := Nat.findGreatest_le (P := fun k => start k < n) bound
  refine ⟨Nat.le_findGreatest hbound hfirst, hle,
    Nat.findGreatest_spec (P := fun k => start k < n) hbound hfirst, ?_⟩
  rcases Nat.lt_or_eq_of_le hle with hlt | heq
  · exact not_lt.1 (Nat.findGreatest_is_greatest (P := fun k => start k < n)
      (Nat.lt_succ_self _) (Nat.succ_le_of_lt hlt))
  · rw [heq]
    exact hlast

/-- A day is in one period only. -/
theorem eq_of_start {start : ℕ → ℕ} (hmono : Monotone start) {n k k' : ℕ} (hk : start k < n)
    (hk1 : n ≤ start (k + 1)) (hk' : start k' < n) (hk1' : n ≤ start (k' + 1)) : k = k' := by
  rcases lt_trichotomy k k' with hlt | heq | hlt
  · have hnext : start (k + 1) ≤ start k' := hmono (Nat.succ_le_of_lt hlt)
    omega
  · exact heq
  · have hnext : start (k' + 1) ≤ start k := hmono (Nat.succ_le_of_lt hlt)
    omega

/-! ## Years and months -/

/-- The day that a leap year has more. -/
def leapDay (year : ℕ) : ℕ :=
  if year % 4 = 0 ∧ (year % 100 ≠ 0 ∨ year % 400 = 0) then 1 else 0

def daysInMonth (year : ℕ) : ℕ → ℕ
  | 2 => 28 + leapDay year
  | 4 | 6 | 9 | 11 => 30
  | _ => 31

def daysBeforeYear (year : ℕ) : ℕ :=
  365 * (year - 1) + (year - 1) / 4 - (year - 1) / 100 + (year - 1) / 400

/-- The days of a year before a month. -/
def daysBeforeMonth (year : ℕ) : ℕ → ℕ
  | 0 => 0
  | 1 => 0
  | month + 2 => daysBeforeMonth year (month + 1) + daysInMonth year (month + 1)

theorem leapDay_le (year : ℕ) : leapDay year ≤ 1 := by
  unfold leapDay
  split <;> omega

theorem daysBeforeYear_succ {year : ℕ} (h : 0 < year) :
    daysBeforeYear (year + 1) = daysBeforeYear year + (365 + leapDay year) := by
  obtain ⟨y, rfl⟩ : ∃ y, year = y + 1 := ⟨year - 1, by omega⟩
  have hfour : (y + 1) / 4 = y / 4 + if (y + 1) % 4 = 0 then 1 else 0 := by split <;> omega
  have hcentury : (y + 1) / 100 = y / 100 + if (y + 1) % 100 = 0 then 1 else 0 := by
    split <;> omega
  have hcycle : (y + 1) / 400 = y / 400 + if (y + 1) % 400 = 0 then 1 else 0 := by split <;> omega
  have hle : y / 100 ≤ y / 4 := by omega
  have hdvd : (y + 1) % 100 = 0 → (y + 1) % 4 = 0 := by omega
  have hdvd' : (y + 1) % 400 = 0 → (y + 1) % 100 = 0 := by omega
  unfold daysBeforeYear leapDay
  rw [Nat.add_sub_cancel, Nat.add_sub_cancel, hfour, hcentury, hcycle]
  generalize y / 4 = four at *
  generalize y / 100 = century at *
  generalize y / 400 = cycle at *
  -- which of the three leap rules the next year meets
  by_cases h4 : (y + 1) % 4 = 0
  · by_cases h100 : (y + 1) % 100 = 0
    · by_cases h400 : (y + 1) % 400 = 0
      · simp [h4, h100, h400]
        omega
      · simp [h4, h100, h400]
        omega
    · have h400 : (y + 1) % 400 ≠ 0 := fun h => h100 (hdvd' h)
      simp [h4, h100, h400]
      omega
  · have h100 : (y + 1) % 100 ≠ 0 := fun h => h4 (hdvd h)
    have h400 : (y + 1) % 400 ≠ 0 := fun h => h100 (hdvd' h)
    simp [h4, h100, h400]
    omega

theorem monotone_daysBeforeYear : Monotone daysBeforeYear := by
  refine monotone_nat_of_le_succ fun year => ?_
  rcases Nat.eq_zero_or_pos year with rfl | hpos
  · exact Nat.le_refl 0
  · rw [daysBeforeYear_succ hpos]
    exact Nat.le_add_right _ _

theorem daysBeforeMonth_succ {year month : ℕ} (h : 0 < month) :
    daysBeforeMonth year (month + 1) = daysBeforeMonth year month + daysInMonth year month := by
  obtain ⟨m, rfl⟩ : ∃ m, month = m + 1 := ⟨month - 1, by omega⟩
  rfl

theorem monotone_daysBeforeMonth (year : ℕ) : Monotone (daysBeforeMonth year) := by
  refine monotone_nat_of_le_succ fun month => ?_
  rcases Nat.eq_zero_or_pos month with rfl | hpos
  · exact Nat.le_refl 0
  · rw [daysBeforeMonth_succ hpos]
    exact Nat.le_add_right _ _

/-- The twelve months make up the year. -/
theorem daysBeforeMonth_thirteen (year : ℕ) : daysBeforeMonth year 13 = 365 + leapDay year := by
  simp only [daysBeforeMonth, daysInMonth]
  omega

/-! ## Dates -/

@[ext] structure Date where
  year : ℕ
  month : ℕ
  day : ℕ
  year_pos : 0 < year
  month_pos : 0 < month
  month_le : month ≤ 12
  day_pos : 0 < day
  day_le : day ≤ daysInMonth year month
  deriving DecidableEq, Repr

namespace Date

/-- The number of the day, from the first day of the year 1. -/
def ordinal (d : Date) : ℕ :=
  daysBeforeYear d.year + (daysBeforeMonth d.year d.month + d.day)

theorem ordinal_pos (d : Date) : 0 < d.ordinal := by
  have := d.day_pos
  unfold ordinal
  omega

theorem dayOfYear_le (d : Date) :
    daysBeforeMonth d.year d.month + d.day ≤ daysBeforeMonth d.year (d.month + 1) := by
  rw [daysBeforeMonth_succ d.month_pos]
  exact Nat.add_le_add_left d.day_le _

/-- A day is in its year. -/
theorem ordinal_le (d : Date) : d.ordinal ≤ daysBeforeYear (d.year + 1) := by
  have hmonth : daysBeforeMonth d.year (d.month + 1) ≤ daysBeforeMonth d.year 13 :=
    monotone_daysBeforeMonth d.year (Nat.succ_le_succ d.month_le)
  have hday := d.dayOfYear_le
  rw [daysBeforeMonth_thirteen] at hmonth
  rw [daysBeforeYear_succ d.year_pos, ordinal]
  omega

theorem ordinal_injective : Function.Injective ordinal := by
  intro d d' h
  have hpos := d.day_pos
  have hpos' := d'.day_pos
  have hyear : d.year = d'.year := by
    refine eq_of_start monotone_daysBeforeYear (n := d.ordinal) ?_ d.ordinal_le ?_ ?_
    · unfold ordinal
      omega
    · rw [h, ordinal]
      omega
    · rw [h]
      exact d'.ordinal_le
  have hsum : daysBeforeMonth d.year d.month + d.day = daysBeforeMonth d.year d'.month + d'.day := by
    unfold ordinal at h
    rw [← hyear] at h
    omega
  have hmonth : d.month = d'.month := by
    refine eq_of_start (monotone_daysBeforeMonth d.year)
      (n := daysBeforeMonth d.year d.month + d.day) (by omega) d.dayOfYear_le (by omega) ?_
    rw [hsum, hyear]
    exact d'.dayOfYear_le
  rw [hmonth] at hsum
  exact Date.ext hyear hmonth (by omega)

/-! ## The date of an ordinal -/

/-- A year has at least 365 days, so that only few years have to be tried. -/
def yearOf (n : ℕ) : ℕ := Nat.findGreatest (fun year => daysBeforeYear year < n) (n / 365 + 1)

theorem yearOf_spec {n : ℕ} (h : 0 < n) :
    0 < yearOf n ∧ daysBeforeYear (yearOf n) < n ∧ n ≤ daysBeforeYear (yearOf n + 1) := by
  have hlast : n ≤ daysBeforeYear (n / 365 + 1 + 1) := by
    unfold daysBeforeYear
    omega
  obtain ⟨hpos, -, hlt, hle⟩ := findGreatest_start daysBeforeYear h (by omega) hlast
  exact ⟨hpos, hlt, hle⟩

def monthOf (year dayOfYear : ℕ) : ℕ :=
  Nat.findGreatest (fun month => daysBeforeMonth year month < dayOfYear) 12

theorem monthOf_spec {year dayOfYear : ℕ} (h : 0 < dayOfYear) (hle : dayOfYear ≤ 365 + leapDay year) :
    0 < monthOf year dayOfYear ∧ monthOf year dayOfYear ≤ 12 ∧
      daysBeforeMonth year (monthOf year dayOfYear) < dayOfYear ∧
      dayOfYear ≤ daysBeforeMonth year (monthOf year dayOfYear + 1) := by
  rw [← daysBeforeMonth_thirteen] at hle
  exact findGreatest_start (daysBeforeMonth year) h (by omega) hle

theorem dayOfYear_spec {n : ℕ} (h : 0 < n) :
    0 < n - daysBeforeYear (yearOf n) ∧
      n - daysBeforeYear (yearOf n) ≤ 365 + leapDay (yearOf n) := by
  obtain ⟨hpos, hlt, hle⟩ := yearOf_spec h
  rw [daysBeforeYear_succ hpos] at hle
  omega

/-- The date of an ordinal. -/
def ofOrdinal (n : ℕ) (h : 0 < n) : Date :=
  let dayOfYear := n - daysBeforeYear (yearOf n)
  let month := monthOf (yearOf n) dayOfYear
  have hmonth := monthOf_spec (dayOfYear_spec h).1 (dayOfYear_spec h).2
  { year := yearOf n
    month := month
    day := dayOfYear - daysBeforeMonth (yearOf n) month
    year_pos := (yearOf_spec h).1
    month_pos := hmonth.1
    month_le := hmonth.2.1
    day_pos := Nat.sub_pos_of_lt hmonth.2.2.1
    day_le := by
      have hle := hmonth.2.2.2
      rw [daysBeforeMonth_succ hmonth.1] at hle
      exact Nat.sub_le_iff_le_add'.2 hle }

theorem ordinal_ofOrdinal {n : ℕ} (h : 0 < n) : (ofOrdinal n h).ordinal = n := by
  have hmonth := (monthOf_spec (dayOfYear_spec h).1 (dayOfYear_spec h).2).2.2.1
  have hyear := (yearOf_spec h).2.1
  unfold ordinal ofOrdinal
  dsimp only
  omega

/-- The day some days later. -/
def addDays (d : Date) (n : ℕ) : Date :=
  ofOrdinal (d.ordinal + n) (Nat.add_pos_left d.ordinal_pos n)

@[simp] theorem ordinal_addDays (d : Date) (n : ℕ) : (d.addDays n).ordinal = d.ordinal + n :=
  ordinal_ofOrdinal _

/-- A day is reached from an earlier one. -/
theorem addDays_of_le {d d' : Date} (h : d.ordinal ≤ d'.ordinal) :
    d.addDays (d'.ordinal - d.ordinal) = d' := by
  refine ordinal_injective ?_
  rw [ordinal_addDays]
  omega

end Date

end Calendar

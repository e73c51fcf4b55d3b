/-
The calendar, counted day by day. The Gregorian calendar is said by two questions only, which years are leap years and how
many days a month has: from them each date has a next one and a previous one, and `IsDay` numbers the dates from
1970-01-01 in both directions. The day numbers of the program are these (`isDay_iff`), for all dates of all years.

The months of all years are numbered in a row (`monthNumber`). Day numbers grow with the number of the month first and
with the day second (`dayNumber_lt_iff`), so moving a date by months keeps the order of the numbers of months.
-/
import CompactSearch.Time.Calendar
import Mathlib.Tactic.IntervalCases

namespace CompactSearch.Date

variable {d e : Date} {n m y year month day k l : Int}

/-! ## Dates day by day -/

/-- The date exists. -/
structure IsValid (d : Date) : Prop where
  month_pos : 1 ≤ d.month
  month_le : d.month ≤ 12
  day_pos : 1 ≤ d.day
  day_le : d.day ≤ daysInMonth d.year d.month

/-- The date of the next day. -/
def next (d : Date) : Date :=
  if d.day < daysInMonth d.year d.month then ⟨d.year, d.month, d.day + 1⟩
  else if d.month < 12 then ⟨d.year, d.month + 1, 1⟩
  else ⟨d.year + 1, 1, 1⟩

/-- The date of the day before. -/
def previous (d : Date) : Date :=
  if 1 < d.day then ⟨d.year, d.month, d.day - 1⟩
  else if 1 < d.month then ⟨d.year, d.month - 1, daysInMonth d.year (d.month - 1)⟩
  else ⟨d.year - 1, 12, 31⟩

/-- The dates with their numbers, counted from 1970-01-01 one day at a time. -/
inductive IsDay : Int → Date → Prop
  | epoch : IsDay 0 ⟨1970, 1, 1⟩
  | next {n : Int} {d : Date} (h : IsDay n d) : IsDay (n + 1) d.next
  | previous {n : Int} {d : Date} (h : IsDay n d) : IsDay (n - 1) d.previous

theorem isLeap_iff : isLeap year = true ↔ year % 4 = 0 ∧ (year % 100 ≠ 0 ∨ year % 400 = 0) := by
  rw [isLeap, decide_eq_true_iff]

theorem daysInMonth_pos : 1 ≤ daysInMonth year month := by
  unfold daysInMonth
  split_ifs <;> decide

theorem daysInMonth_le : daysInMonth year month ≤ 31 := by
  unfold daysInMonth
  split_ifs <;> decide

/-! ## Years that start in March -/

/-- The number of the first of March of a year. -/
def march (year : Int) : Int := year * 365 + year / 4 - year / 100 + year / 400 - 719468

/-- The leap day, if there is one, is the last day of the year. -/
theorem march_succ (year : Int) : march (year + 1) = march year + if isLeap (year + 1) then 366 else 365 := by
  unfold march
  split_ifs with h <;> rw [isLeap_iff] at h <;> omega

theorem march_era (year era : Int) : march (year + era * 400) = march year + era * 146097 := by
  unfold march
  omega

theorem dayNumber_eq (d : Date) : d.dayNumber =
    (if d.month ≤ 2 then march (d.year - 1) + (153 * (d.month + 9) + 2) / 5
      else march d.year + (153 * (d.month - 3) + 2) / 5) + (d.day - 1) := by
  unfold dayNumber march
  dsimp only
  split_ifs <;> omega

/-! ## Months in a row -/

/-- The number of a month, counted from the January of the year zero. -/
def monthNumber (d : Date) : Int := d.year * 12 + (d.month - 1)

/-- The date on a day of the month with a number. -/
def onMonth (m day : Int) : Date := ⟨m / 12, m % 12 + 1, day⟩

/-- The number of days of the month with a number. -/
def monthLength (m : Int) : Int := daysInMonth (m / 12) (m % 12 + 1)

theorem monthNumber_onMonth : (onMonth m day).monthNumber = m := by
  show m / 12 * 12 + (m % 12 + 1 - 1) = m
  omega

theorem IsValid.onMonth (h : d.IsValid) : onMonth d.monthNumber d.day = d := by
  obtain ⟨year, month, day⟩ := d
  obtain ⟨h₁, h₂, -, -⟩ := h
  dsimp only at h₁ h₂
  simp only [Date.onMonth, monthNumber, mk.injEq, and_true]
  omega

theorem isValid_onMonth : (onMonth m day).IsValid ↔ 1 ≤ day ∧ day ≤ monthLength m := by
  constructor
  · rintro ⟨-, -, h₁, h₂⟩
    exact ⟨h₁, h₂⟩
  · rintro ⟨h₁, h₂⟩
    exact ⟨by unfold onMonth; dsimp only; omega, by unfold onMonth; dsimp only; omega, h₁, h₂⟩

theorem IsValid.day_bounds (h : d.IsValid) : 1 ≤ d.day ∧ d.day ≤ monthLength d.monthNumber := by
  rw [← isValid_onMonth, h.onMonth]
  exact h

theorem dayNumber_onMonth (m day : Int) : (onMonth m day).dayNumber = (onMonth m 1).dayNumber + (day - 1) := by
  rw [dayNumber_eq, dayNumber_eq]
  unfold onMonth
  dsimp only
  omega

/-- A month starts where the one before ends. -/
theorem dayNumber_succ (m : Int) : (onMonth (m + 1) 1).dayNumber = (onMonth m 1).dayNumber + monthLength m := by
  have hm : 0 ≤ m % 12 ∧ m % 12 < 12 := by omega
  -- the month after a December is in another year
  have hs : (m + 1) / 12 = (if m % 12 = 11 then m / 12 + 1 else m / 12) ∧
      (m + 1) % 12 = if m % 12 = 11 then 0 else m % 12 + 1 := by
    split_ifs <;> omega
  have hy := march_succ (m / 12 - 1)
  rw [Int.sub_add_cancel] at hy
  rw [dayNumber_eq, dayNumber_eq]
  unfold onMonth monthLength daysInMonth
  dsimp only
  rw [hs.1, hs.2]
  generalize m % 12 = r at hm ⊢
  generalize isLeap (m / 12) = leap at hy ⊢
  obtain ⟨h₁, h₂⟩ := hm
  interval_cases r <;> cases leap <;> simp at hy ⊢ <;> omega

/-- A month starts where an earlier one ends, or later. -/
theorem dayNumber_le_of_lt (h : k < l) : (onMonth k 1).dayNumber + monthLength k ≤ (onMonth l 1).dayNumber := by
  -- on the number of months from the first to the second one
  induction l, (h : k + 1 ≤ l) using Int.leInduction with
  | base => rw [dayNumber_succ]
  | succ l _ ih =>
    have hpos : 1 ≤ monthLength l := daysInMonth_pos
    rw [dayNumber_succ]
    omega

/-- Day numbers are in the order of the months, and within a month in the order of its days. -/
theorem dayNumber_lt_iff (hd : d.IsValid) (he : e.IsValid) : d.dayNumber < e.dayNumber ↔
    d.monthNumber < e.monthNumber ∨ d.monthNumber = e.monthNumber ∧ d.day < e.day := by
  obtain ⟨hd₁, hd₂⟩ := hd.day_bounds
  obtain ⟨he₁, he₂⟩ := he.day_bounds
  rw [← hd.onMonth, ← he.onMonth, dayNumber_onMonth, dayNumber_onMonth e.monthNumber, monthNumber_onMonth,
    monthNumber_onMonth]
  show _ ↔ d.monthNumber < e.monthNumber ∨ d.monthNumber = e.monthNumber ∧ d.day < e.day
  rcases lt_trichotomy d.monthNumber e.monthNumber with h | h | h
  · have := dayNumber_le_of_lt h
    omega
  · rw [h]
    omega
  · have := dayNumber_le_of_lt h
    omega

theorem eq_of_dayNumber_eq (hd : d.IsValid) (he : e.IsValid) (h : d.dayNumber = e.dayNumber) : d = e := by
  have h₁ := (dayNumber_lt_iff hd he).not.1 (by omega)
  have h₂ := (dayNumber_lt_iff he hd).not.1 (by omega)
  rw [← hd.onMonth, ← he.onMonth]
  congr 1 <;> omega

/-- A date is before the start of a year if it is in an earlier year. -/
theorem dayNumber_lt_year (h : d.IsValid) (year : Int) :
    d.dayNumber < (⟨year, 1, 1⟩ : Date).dayNumber ↔ d.year < year := by
  have hy : (⟨year, 1, 1⟩ : Date).IsValid := ⟨Int.le_refl 1, by dsimp only; omega, Int.le_refl 1, daysInMonth_pos⟩
  rw [dayNumber_lt_iff h hy]
  obtain ⟨h₁, h₂, h₃, -⟩ := h
  unfold monthNumber
  dsimp only
  omega

/-! ## From numbers to dates -/

/-- The year that a day of the era of 400 years is in. -/
def yearOfEra (day : Int) : Int := (day - day / 1460 + day / 36524 - day / 146096) / 365

theorem yearOfEra_mono (h₀ : 0 ≤ k) (h : k ≤ l) (h₁ : l < 146097) : yearOfEra k ≤ yearOfEra l := by
  have hk : k - k / 1460 ≤ l - l / 1460 := by omega
  have hl : k / 36524 - k / 146096 ≤ l / 36524 - l / 146096 := by omega
  unfold yearOfEra
  omega

/-- The first day of a year is in the year. -/
theorem yearOfEra_first (h₀ : 0 ≤ y) (h₁ : y < 400) : yearOfEra (march y + 719468) = y := by
  have he : march y + 719468 = y * 365 + y / 4 - y / 100 := by
    unfold march
    omega
  have h4 : (y * 365 + y / 4 - y / 100) / 1460 = y / 4 := by omega
  have h100 : (y * 365 + y / 4 - y / 100) / 36524 = y / 100 := by omega
  have h400 : (y * 365 + y / 4 - y / 100) / 146096 = 0 := by omega
  rw [he, yearOfEra, h4, h100, h400]
  omega

/-- The last day of a year is in the year. -/
theorem yearOfEra_last (h₀ : 0 ≤ y) (h₁ : y < 400) : yearOfEra (march (y + 1) + 719467) = y := by
  obtain rfl | hlt : y = 399 ∨ y < 399 := by omega
  · -- the leap day at the end of the era
    decide
  · have he : march (y + 1) + 719467 = (y + 1) * 365 + (y + 1) / 4 - (y + 1) / 100 - 1 := by
      unfold march
      omega
    have h4 : ((y + 1) * 365 + (y + 1) / 4 - (y + 1) / 100 - 1) / 1460 = (y + 1) / 4 := by omega
    have h100 : (y + 1) / 100 - 1 ≤ ((y + 1) * 365 + (y + 1) / 4 - (y + 1) / 100 - 1) / 36524 ∧
        ((y + 1) * 365 + (y + 1) / 4 - (y + 1) / 100 - 1) / 36524 ≤ (y + 1) / 100 := by omega
    have h400 : ((y + 1) * 365 + (y + 1) / 4 - (y + 1) / 100 - 1) / 146096 = 0 := by omega
    rw [he, yearOfEra, h4, h400]
    omega

/-- A day of the era is in its year: the year is right on the first and on the last day of each year, and does not fall in
between. -/
theorem march_yearOfEra (h₀ : 0 ≤ day) (h₁ : day < 146097) : 0 ≤ yearOfEra day ∧ yearOfEra day < 400 ∧
    march (yearOfEra day) + 719468 ≤ day ∧ day < march (yearOfEra day + 1) + 719468 := by
  have hy : 0 ≤ yearOfEra day ∧ yearOfEra day < 400 := by
    unfold yearOfEra
    omega
  generalize he : yearOfEra day = y at hy ⊢
  obtain ⟨hy₀, hy₁⟩ := hy
  refine ⟨hy₀, hy₁, ?_, ?_⟩
  · by_contra hlt
    -- the day is in an earlier year, whose last day has a smaller year
    have hpos : 0 < y := by
      by_contra hz
      obtain rfl : y = 0 := by omega
      exact hlt h₀
    have hlast := yearOfEra_last (y := y - 1) (by omega) (by omega)
    rw [Int.sub_add_cancel] at hlast
    have := yearOfEra_mono (l := march y + 719467) h₀ (by omega) (by unfold march; omega)
    omega
  · by_contra hlt
    have hfirst := yearOfEra_first (y := y + 1) (by omega) (by unfold march at hlt; omega)
    have := yearOfEra_mono (k := march (y + 1) + 719468) (by unfold march; omega) (by omega) h₁
    omega

/-- The date on a day of a year that starts in March, counted from zero. -/
def onMarchDay (year day : Int) : Date :=
  let shifted := (5 * day + 2) / 153
  let month := if shifted < 10 then shifted + 3 else shifted - 9
  ⟨year + (if month ≤ 2 then 1 else 0), month, day - (153 * shifted + 2) / 5 + 1⟩

/-- Every number is that of a day in a year that starts in March. -/
theorem exists_marchDay (n : Int) : ∃ year day, ofDayNumber n = onMarchDay year day ∧ n = march year + day ∧ 0 ≤ day ∧
    day < if isLeap (year + 1) then 366 else 365 := by
  let era := (n + 719468) / 146097
  let dayOfEra := n + 719468 - era * 146097
  let y := yearOfEra dayOfEra
  have hera : 0 ≤ dayOfEra ∧ dayOfEra < 146097 := by omega
  obtain ⟨hy₀, hy₁, hm₀, hm₁⟩ : 0 ≤ y ∧ y < 400 ∧ march y + 719468 ≤ dayOfEra ∧ dayOfEra < march (y + 1) + 719468 :=
    march_yearOfEra hera.1 hera.2
  have hday : dayOfEra - (365 * y + y / 4 - y / 100) = dayOfEra - 719468 - march y := by
    unfold march
    omega
  have hm := march_succ (y + era * 400)
  rw [show y + era * 400 + 1 = y + 1 + era * 400 by omega, march_era, march_era] at hm
  refine ⟨y + era * 400, dayOfEra - (365 * y + y / 4 - y / 100), rfl, ?_, ?_, ?_⟩
  · rw [march_era]
    omega
  · omega
  · rw [show y + era * 400 + 1 = y + 1 + era * 400 by omega]
    omega

/-- The days of a year that starts in March are dates, which have these numbers. -/
theorem onMarchDay_spec (h₀ : 0 ≤ day) (h₁ : day < if isLeap (year + 1) then 366 else 365) :
    (onMarchDay year day).IsValid ∧ (onMarchDay year day).dayNumber = march year + day := by
  unfold onMarchDay
  dsimp only
  have hr : 153 * ((5 * day + 2) / 153) ≤ 5 * day + 2 ∧ 5 * day + 2 < 153 * ((5 * day + 2) / 153) + 153 := by omega
  generalize (5 * day + 2) / 153 = r at hr ⊢
  obtain ⟨hr₀, hr₁⟩ := hr
  have hr : 0 ≤ r ∧ r < 12 := by split_ifs at h₁ <;> omega
  obtain ⟨hr₂, hr₃⟩ := hr
  rw [dayNumber_eq]
  -- one month after the other
  constructor
  · interval_cases r <;> constructor <;> simp [daysInMonth] <;> split_ifs at h₁ ⊢ <;> omega
  · interval_cases r <;> simp

theorem ofDayNumber_spec (n : Int) : (ofDayNumber n).IsValid ∧ (ofDayNumber n).dayNumber = n := by
  obtain ⟨year, day, he, hn, h₀, h₁⟩ := exists_marchDay n
  rw [he, hn]
  exact onMarchDay_spec h₀ h₁

theorem ofDayNumber_eq_iff : ofDayNumber n = d ↔ d.IsValid ∧ d.dayNumber = n := by
  obtain ⟨hv, hn⟩ := ofDayNumber_spec n
  constructor
  · rintro rfl
    exact ⟨hv, hn⟩
  · rintro ⟨hd, he⟩
    exact eq_of_dayNumber_eq hv hd (hn.trans he.symm)

/-! ## The day numbers are those of the calendar -/

theorem next_onMonth :
    (onMonth m day).next = if day < monthLength m then onMonth m (day + 1) else onMonth (m + 1) 1 := by
  unfold Date.next onMonth monthLength
  dsimp only
  split_ifs
  · rfl
  · simp only [mk.injEq, and_true]
    omega
  · simp only [mk.injEq, and_true]
    omega

theorem previous_onMonth : (onMonth m day).previous =
    if 1 < day then onMonth m (day - 1) else onMonth (m - 1) (monthLength (m - 1)) := by
  unfold Date.previous onMonth monthLength
  dsimp only
  split_ifs with h₁ h₂
  · rfl
  · have hy : (m - 1) / 12 = m / 12 ∧ (m - 1) % 12 + 1 = m % 12 := by omega
    rw [hy.1, hy.2, Int.add_sub_cancel]
  · have hy : (m - 1) / 12 = m / 12 - 1 ∧ (m - 1) % 12 + 1 = 12 := by omega
    rw [hy.1, hy.2]
    rfl

theorem IsValid.next (h : d.IsValid) : d.next.IsValid ∧ d.next.dayNumber = d.dayNumber + 1 := by
  obtain ⟨m, day, rfl⟩ : ∃ m day, d = Date.onMonth m day := ⟨_, _, h.onMonth.symm⟩
  obtain ⟨h₁, h₂⟩ := isValid_onMonth.1 h
  have hpos : 1 ≤ monthLength (m + 1) := daysInMonth_pos
  rw [next_onMonth]
  split_ifs
  · rw [isValid_onMonth, dayNumber_onMonth, dayNumber_onMonth m day]
    omega
  · rw [isValid_onMonth, dayNumber_succ, dayNumber_onMonth m day]
    omega

theorem IsValid.previous (h : d.IsValid) : d.previous.IsValid ∧ d.previous.dayNumber = d.dayNumber - 1 := by
  obtain ⟨m, day, rfl⟩ : ∃ m day, d = Date.onMonth m day := ⟨_, _, h.onMonth.symm⟩
  obtain ⟨h₁, h₂⟩ := isValid_onMonth.1 h
  have hpos : 1 ≤ monthLength (m - 1) := daysInMonth_pos
  have hm := dayNumber_succ (m - 1)
  rw [Int.sub_add_cancel] at hm
  rw [previous_onMonth]
  split_ifs
  · rw [isValid_onMonth, dayNumber_onMonth, dayNumber_onMonth m day]
    omega
  · rw [isValid_onMonth, dayNumber_onMonth, dayNumber_onMonth m day, hm]
    omega

theorem ofDayNumber_succ (n : Int) : ofDayNumber (n + 1) = (ofDayNumber n).next := by
  obtain ⟨hv, hn⟩ := ofDayNumber_spec n
  rw [ofDayNumber_eq_iff, hv.next.2, hn]
  exact ⟨hv.next.1, rfl⟩

theorem ofDayNumber_pred (n : Int) : ofDayNumber (n - 1) = (ofDayNumber n).previous := by
  obtain ⟨hv, hn⟩ := ofDayNumber_spec n
  rw [ofDayNumber_eq_iff, hv.previous.2, hn]
  exact ⟨hv.previous.1, rfl⟩

/-- The dates, counted day by day, are those that are computed from the numbers. -/
theorem isDay_iff : IsDay n d ↔ ofDayNumber n = d := by
  constructor
  · intro h
    induction h with
    | epoch => rfl
    | next _ ih => rw [ofDayNumber_succ, ih]
    | previous _ ih => rw [ofDayNumber_pred, ih]
  · rintro rfl
    -- away from the first day of 1970 in both directions
    induction n with
    | zero => exact .epoch
    | succ n ih => rw [ofDayNumber_succ]; exact .next ih
    | pred n ih => rw [ofDayNumber_pred]; exact .previous ih

theorem IsDay.dayNumber (h : IsDay n d) : d.dayNumber = n :=
  (ofDayNumber_eq_iff.1 (isDay_iff.1 h)).2

/-! ## Months later -/

theorem addMonths_eq (d : Date) (k : Int) :
    d.addMonths k = onMonth (d.monthNumber + k) (min d.day (monthLength (d.monthNumber + k))) := rfl

theorem IsValid.addMonths (h : d.IsValid) (k : Int) : (d.addMonths k).IsValid := by
  have hpos : 1 ≤ monthLength (d.monthNumber + k) := daysInMonth_pos
  have hday := h.day_pos
  rw [addMonths_eq, isValid_onMonth]
  omega

/-- More months later is not before. -/
theorem dayNumber_addMonths_le (h : d.IsValid) (hkl : k ≤ l) :
    (d.addMonths k).dayNumber ≤ (d.addMonths l).dayNumber := by
  rw [← not_lt, dayNumber_lt_iff (h.addMonths l) (h.addMonths k), addMonths_eq, addMonths_eq, monthNumber_onMonth,
    monthNumber_onMonth]
  rintro (hlt | ⟨he, hday⟩)
  · omega
  · -- the same number of months leads to the same date
    obtain rfl : l = k := by omega
    exact absurd hday (lt_irrefl _)

end CompactSearch.Date

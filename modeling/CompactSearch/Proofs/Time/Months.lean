/-
Relative dates in calendar units. Months, quarters and years are a number of months; the date is moved to that month, on
its day or on the last day if the month is shorter, at the same time of day. As with units of fixed length, the limits on
the amount and on the number of months are never seen: the range of the years decides alone (`resolve_calendar`).
-/
import CompactSearch.Proofs.Time.Relative

namespace CompactSearch.RelativeDate

open Instant (minYear maxYear)

variable {now t u : Instant} {text : String} {amount : Int} {months : Nat}

/-- A calendar unit is a month at least. -/
theorem IsOffset.months_pos (h : IsOffset text amount (.calendar months)) : 0 < months := by
  have hall : ∀ e ∈ TimeUnit.words, e.2.2 ≠ .calendar 0 := by decide
  have hne : ∀ name, ¬ TimeUnit.Names (.calendar 0) name := by
    rintro name ⟨e, he, hu, -⟩
    exact hall e he hu
  refine Nat.pos_of_ne_zero ?_
  rintro rfl
  cases h with
  | unsigned h | plus _ h | minus _ h =>
    obtain ⟨ds, name, -, hn, -⟩ := h
    exact hne name hn

theorem year_addMonths (d : Date) (k : Int) : (d.addMonths k).year = (d.monthNumber + k) / 12 := rfl

/-- Between two years in range there is no number of months that another limit stops. -/
theorem within_month_limits (hnow : now.IsRepresentable) (hm : 0 < months)
    (h : minYear ≤ (now.date.addMonths (amount * months)).year ∧
      (now.date.addMonths (amount * months)).year ≤ maxYear) :
    fitsAmount amount = true ∧ amount.natAbs ≤ maxMonths ∧ amount.natAbs * months ≤ maxMonths := by
  have hy := (Instant.isRepresentable_iff hnow.nanos_lt).1 hnow
  have hd := now.isValid_date
  have h₁ := hd.month_pos
  have h₂ := hd.month_le
  rw [year_addMonths] at h
  unfold Date.monthNumber minYear maxYear at *
  -- the range has this many months, and a unit at least one
  have hspan : (amount * months).natAbs ≤ 6291431 := by omega
  rw [Int.natAbs_mul, Int.natAbs_natCast] at hspan
  have hle : amount.natAbs ≤ amount.natAbs * months := Nat.le_mul_of_pos_right _ hm
  have hmax : maxMonths = 4294967295 := rfl
  rw [fitsAmount_iff]
  omega

/-- An amount of a calendar unit moves the instant by this number of months, if the year is in range. -/
theorem resolve?_calendar (hnow : now.IsRepresentable) (h : IsOffset text amount (.calendar months)) :
    resolve? text now = now.addMonths? (amount * months) := by
  have hr : resolve? text now =
      if fitsAmount amount = true ∧ amount.natAbs ≤ maxMonths ∧ amount.natAbs * months ≤ maxMonths then
        now.addMonths? (amount * months) else none := by
    rw [resolve?, ofText?_of_isOffset h]
    by_cases hfits : fitsAmount amount = true
    · rw [if_pos hfits, Option.bind_some, at?]
      simp only [hfits, true_and]
    · rw [if_neg hfits, if_neg fun h => hfits h.1, Option.bind_none]
  rw [hr]
  split_ifs with hlimits
  · rfl
  · -- what a limit stops is out of range
    refine (Option.eq_none_iff_forall_not_mem.2 fun t ht => hlimits ?_).symm
    exact within_month_limits hnow h.months_pos (Instant.addMonths?_eq_some_iff.1 ht).1

/-- More months later is not before. -/
theorem total_le_of_months_le {k l : Int} (hkl : k ≤ l) (ht : now.addMonths? k = some t)
    (hu : now.addMonths? l = some u) : t.total ≤ u.total := by
  obtain ⟨-, ⟨m, hm, hs, -⟩, hn⟩ := Instant.addMonths?_eq_some_iff.1 ht
  obtain ⟨-, ⟨n, hn', hs', -⟩, hnu⟩ := Instant.addMonths?_eq_some_iff.1 hu
  have hle := Date.dayNumber_addMonths_le now.isValid_date hkl
  rw [hm.dayNumber, hn'.dayNumber] at hle
  unfold Instant.total
  omega

/-- Calendar units lead to the right month. Let a text be an amount of months, quarters or years, in all `k` months. At a
representable instant, on a date and at a time of day, it means the instant in the month that is `k` months later, on the
same day or on the last day of a shorter month, at the same time of day to the nanosecond, if the year of this month is
in range, and no instant otherwise. So amounts of the same number of months mean the same, and a greater number of months
never means an earlier instant. -/
theorem resolve_calendar (now : Instant) (hnow : now.IsRepresentable) :
    ∃ (date : Date) (second : Int), now.FallsOn date second ∧
      (∀ (text : String) (amount : Int) (months : Nat), IsOffset text amount (.calendar months) →
        let k := amount * months
        let year := (date.year * 12 + (date.month - 1) + k) / 12
        let month := (date.year * 12 + (date.month - 1) + k) % 12 + 1
        (-262143 ≤ year ∧ year ≤ 262142 → ∃ t, resolve? text now = some t ∧ t.IsRepresentable ∧
          t.FallsOn ⟨year, month, min date.day (Date.daysInMonth year month)⟩ second ∧ t.nanos = now.nanos) ∧
        (¬ (-262143 ≤ year ∧ year ≤ 262142) → resolve? text now = none)) ∧
      ∀ (text text' : String) (amount amount' : Int) (months months' : Nat),
        IsOffset text amount (.calendar months) → IsOffset text' amount' (.calendar months') →
          (amount * months = amount' * months' → resolve? text now = resolve? text' now) ∧
          (amount * months ≤ amount' * months' →
            ∀ t t', resolve? text now = some t → resolve? text' now = some t' → t.total ≤ t'.total) := by
  refine ⟨now.date, now.secondOfDay, now.fallsOn_date, ?_, ?_⟩
  · intro text amount months h k year month
    rw [resolve?_calendar hnow h]
    constructor
    · intro hy
      obtain ⟨t, ht⟩ : ∃ t, now.addMonths? k = some t := ⟨_, if_pos hy⟩
      obtain ⟨-, hfalls, hnanos⟩ := Instant.addMonths?_eq_some_iff.1 ht
      have hrep : t.IsRepresentable := by
        rw [Instant.isRepresentable_iff (hnanos ▸ hnow.nanos_lt), (Instant.fallsOn_iff.1 hfalls).1]
        exact hy
      exact ⟨t, ht, hrep, hfalls, hnanos⟩
    · intro hout
      rw [Option.eq_none_iff_forall_not_mem]
      intro t ht
      exact hout (Instant.addMonths?_eq_some_iff.1 ht).1
  · intro text text' amount amount' months months' h h'
    rw [resolve?_calendar hnow h, resolve?_calendar hnow h']
    constructor
    · intro he
      rw [he]
    · intro hle t t' ht ht'
      exact total_le_of_months_le hle ht ht'

/-- A month back from the end of a March to the leap day, a quarter as three months, and a year before the first one. -/
theorem resolve_calendar_leap_day :
    let now : Instant := ⟨1711886400, 500⟩
    now.IsRepresentable ∧ now.FallsOn ⟨2024, 3, 31⟩ 43200 ∧
      IsOffset "-1M" (-1) (.calendar 1) ∧ (∃ t, resolve? "-1M" now = some t ∧ t.FallsOn ⟨2024, 2, 29⟩ 43200) ∧
      IsOffset "01Q" 1 (.calendar 3) ∧ IsOffset "+3months" 3 (.calendar 1) ∧
      resolve? "01Q" now = resolve? "+3months" now ∧
      IsOffset "-264168y" (-264168) (.calendar 12) ∧ resolve? "-264168y" now = none := by
  intro now
  have hnow : now.IsRepresentable := ⟨by decide, by decide +kernel, by decide +kernel⟩
  have hfalls : now.FallsOn ⟨2024, 3, 31⟩ 43200 := Instant.fallsOn_iff.2 (by decide +kernel)
  have hmonth : IsOffset "-1M" (-1) (.calendar 1) := .minus rfl ⟨['1'], "M", by decide, by decide +kernel, rfl, rfl⟩
  have hquarter : IsOffset "01Q" 1 (.calendar 3) :=
    .unsigned ⟨['0', '1'], "Q", by decide, by decide +kernel, rfl, rfl⟩
  have hmonths : IsOffset "+3months" 3 (.calendar 1) :=
    .plus rfl ⟨['3'], "months", by decide, by decide +kernel, rfl, rfl⟩
  have hyears : IsOffset "-264168y" (-264168) (.calendar 12) :=
    .minus rfl ⟨"264168".toList, "y", by decide, by decide +kernel, rfl, rfl⟩
  obtain ⟨date, second, hd, hsteps, hsame⟩ := resolve_calendar now hnow
  -- an instant falls on one date only
  obtain ⟨rfl, rfl⟩ : date = ⟨2024, 3, 31⟩ ∧ second = 43200 := by
    obtain ⟨h₁, h₂⟩ := Instant.fallsOn_iff.1 hd
    obtain ⟨h₃, h₄⟩ := Instant.fallsOn_iff.1 hfalls
    exact ⟨h₁.symm.trans h₃, h₂.symm.trans h₄⟩
  obtain ⟨t, ht, -, hleap, -⟩ := (hsteps "-1M" _ _ hmonth).1 (by decide)
  exact ⟨hnow, hfalls, hmonth, ⟨t, ht, hleap⟩, hquarter, hmonths, (hsame _ _ _ _ _ _ hquarter hmonths).1 rfl, hyears,
    (hsteps _ _ _ hyears).2 (by decide)⟩

end CompactSearch.RelativeDate

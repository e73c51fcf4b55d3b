/-
Instants counted in nanoseconds. Seconds and nanoseconds within the second are one whole number, in which the first and
the last instant are the ends of the range, and milliseconds are added exactly or not at all (`addMillis?_eq_some_iff`).
By the calendar, each instant falls on one date at one second of the day (`fallsOn_iff`), and the range is one of years.
-/
import CompactSearch.Proofs.Time.Calendar
import CompactSearch.Time.Instant

namespace CompactSearch.Instant

variable {t u : Instant} {n millis : Int}

/-! ## The range -/

/-- The nanoseconds since 1970-01-01T00:00:00Z. -/
def total (t : Instant) : Int := t.seconds * 1000000000 + t.nanos

/-- The start of the first year. -/
def first : Instant := ⟨(Date.mk (-262143) 1 1).dayNumber * 86400, 0⟩

/-- The last nanosecond of the last year. -/
def last : Instant := ⟨(Date.mk 262142 12 31).dayNumber * 86400 + 86399, 999999999⟩

/-- The nanoseconds are a part of a second, and the instant is neither before the first nor after the last one. -/
structure IsRepresentable (t : Instant) : Prop where
  nanos_lt : t.nanos < 1000000000
  first_le : first.total ≤ t.total
  le_last : t.total ≤ last.total

theorem total_first : first.total = -8334601228800000000000 := by decide +kernel

theorem total_last : last.total = 8210266876799999999999 := by decide +kernel

/-- The range of whole seconds is the range from the first to the last nanosecond. -/
theorem inRange_iff (ht : t.nanos < 1000000000) : t.inRange = true ↔ t.IsRepresentable := by
  have hmin : minSeconds = -8334601228800 := by decide +kernel
  have hmax : maxSeconds = 8210266876799 := by decide +kernel
  unfold inRange
  rw [decide_eq_true_iff, hmin, hmax]
  constructor
  · rintro ⟨h₁, h₂⟩
    refine ⟨ht, ?_, ?_⟩
    · rw [total_first]
      unfold total
      omega
    · rw [total_last]
      unfold total
      omega
  · rintro ⟨-, h₁, h₂⟩
    rw [total_first] at h₁
    rw [total_last] at h₂
    unfold total at h₁ h₂
    omega

example : first.iso = "-262143-01-01T00:00:00.000Z" ∧ last.iso = "+262142-12-31T23:59:59.999Z" := by decide +kernel

/-! ## Sums -/

/-- The instant a number of nanoseconds after the start of 1970. -/
def ofTotal (n : Int) : Instant := ⟨n / 1000000000, (n % 1000000000).toNat⟩

theorem nanos_ofTotal (n : Int) : (ofTotal n).nanos < 1000000000 := by
  show (n % 1000000000).toNat < 1000000000
  omega

theorem total_ofTotal (n : Int) : (ofTotal n).total = n := by
  show n / 1000000000 * 1000000000 + ((n % 1000000000).toNat : Int) = n
  omega

theorem ofTotal_total (ht : t.nanos < 1000000000) : ofTotal t.total = t := by
  obtain ⟨s, m⟩ := t
  unfold ofTotal total
  simp only [mk.injEq] at ht ⊢
  omega

/-- Every number of nanoseconds within the range is reached by an instant. -/
theorem isRepresentable_ofTotal (h₁ : first.total ≤ n) (h₂ : n ≤ last.total) : (ofTotal n).IsRepresentable := by
  refine ⟨nanos_ofTotal n, ?_, ?_⟩
  · rw [total_ofTotal]
    exact h₁
  · rw [total_ofTotal]
    exact h₂

/-- The carry from the nanoseconds to the seconds is that of the whole number. -/
theorem addMillis?_eq : t.addMillis? millis =
    let sum := ofTotal (t.total + millis * 1000000)
    if sum.inRange then some sum else none := by
  have hsum : (⟨t.seconds + (t.nanos + millis * 1000000) / 1000000000,
      ((t.nanos + millis * 1000000) % 1000000000).toNat⟩ : Instant) = ofTotal (t.total + millis * 1000000) := by
    unfold ofTotal total
    simp only [mk.injEq]
    omega
  simp only [addMillis?, hsum]

/-- A number of milliseconds is added exactly, or the sum is out of range. -/
theorem addMillis?_eq_some_iff :
    t.addMillis? millis = some u ↔ u.IsRepresentable ∧ u.total = t.total + millis * 1000000 := by
  rw [addMillis?_eq]
  constructor
  · intro h
    dsimp only at h
    split at h
    · rename_i hr
      cases h
      exact ⟨(inRange_iff (nanos_ofTotal _)).1 hr, total_ofTotal _⟩
    · cases h
  · rintro ⟨hu, he⟩
    rw [← he, ofTotal_total hu.nanos_lt]
    exact if_pos ((inRange_iff hu.nanos_lt).2 hu)

/-! ## Dates -/

/-- The instant is on the date, at the second of that day. -/
def FallsOn (t : Instant) (d : Date) (second : Int) : Prop :=
  ∃ n, Date.IsDay n d ∧ t.seconds = n * 86400 + second ∧ 0 ≤ second ∧ second < 86400

theorem fallsOn_iff {d : Date} {second : Int} : t.FallsOn d second ↔ t.date = d ∧ t.secondOfDay = second := by
  unfold FallsOn date secondOfDay
  constructor
  · rintro ⟨n, hd, hs, h₀, h₁⟩
    have hn : t.seconds / 86400 = n := by omega
    rw [hn]
    exact ⟨Date.isDay_iff.1 hd, by omega⟩
  · rintro ⟨hd, rfl⟩
    exact ⟨t.seconds / 86400, Date.isDay_iff.2 hd, by omega, by omega, by omega⟩

theorem fallsOn_date (t : Instant) : t.FallsOn t.date t.secondOfDay := fallsOn_iff.2 ⟨rfl, rfl⟩

theorem isValid_date (t : Instant) : t.date.IsValid := (Date.ofDayNumber_spec _).1

/-- An instant is in range if its year is. -/
theorem isRepresentable_iff (ht : t.nanos < 1000000000) :
    t.IsRepresentable ↔ minYear ≤ t.date.year ∧ t.date.year ≤ maxYear := by
  have hmin := Date.dayNumber_lt_year t.isValid_date minYear
  have hmax := Date.dayNumber_lt_year t.isValid_date (maxYear + 1)
  have hday : t.date.dayNumber = t.seconds / 86400 := (Date.ofDayNumber_spec _).2
  rw [← inRange_iff ht]
  unfold inRange minSeconds maxSeconds
  rw [decide_eq_true_iff]
  omega

/-- The date is moved by months, at the same time of day, unless its year gets out of range. -/
theorem addMonths?_eq_some_iff {k : Int} : t.addMonths? k = some u ↔
    (minYear ≤ (t.date.addMonths k).year ∧ (t.date.addMonths k).year ≤ maxYear) ∧
      u.FallsOn (t.date.addMonths k) t.secondOfDay ∧ u.nanos = t.nanos := by
  have hday : Date.IsDay (t.date.addMonths k).dayNumber (t.date.addMonths k) :=
    Date.isDay_iff.2 (Date.ofDayNumber_eq_iff.2 ⟨t.isValid_date.addMonths k, rfl⟩)
  have hsecond : 0 ≤ t.secondOfDay ∧ t.secondOfDay < 86400 := by
    unfold secondOfDay
    omega
  unfold addMonths?
  dsimp only
  constructor
  · intro h
    split at h
    · rename_i hy
      cases h
      exact ⟨hy, ⟨_, hday, rfl, hsecond⟩, rfl⟩
    · cases h
  · rintro ⟨hy, ⟨n, hn, hs, -⟩, hnanos⟩
    rw [if_pos hy, ← hnanos]
    obtain rfl : (t.date.addMonths k).dayNumber = n := hn.dayNumber
    rw [← hs]

end CompactSearch.Instant

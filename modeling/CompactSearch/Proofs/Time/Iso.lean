/-
ISO 8601 texts. `DateTime.read?` reads a text with no knowledge of how it was written, and `DateTime.At` says by the
calendar which millisecond its date and time of day are. What is read from the text of an instant is the instant itself,
cut off to the millisecond (`read?_iso`, `at_dateTime`), in every year. Where years have four digits, all fields have a
fixed width, and the order of the texts is that of time (`iso_lt_iff`).
-/
import CompactSearch.Proofs.Text.Run
import CompactSearch.Proofs.Time.Instant

namespace CompactSearch

/-! ## Numbers of a fixed width -/

section Digits

variable {c : Char} {ds es rest rest' : List Char} {width m n : Nat}

/-- The value of digits. -/
abbrev valueOf (ds : List Char) : Nat := Nat.ofDigitChars 10 ds 0

theorem valueOf_cons (c : Char) (ds : List Char) :
    valueOf (c :: ds) = 10 ^ ds.length * (c.toNat - 48) + valueOf ds := by
  rw [valueOf, Nat.ofDigitChars_cons, Nat.ofDigitChars_eq_ofDigitChars_zero, Nat.mul_zero, Nat.zero_add]
  rfl

theorem toNat_of_isDigit (h : c.isDigit = true) : 48 ≤ c.toNat ∧ c.toNat ≤ 57 := by
  simpa [Char.isDigit, UInt32.le_iff_toNat_le] using h

theorem valueOf_lt : ∀ {ds : List Char}, (∀ c ∈ ds, c.isDigit = true) → valueOf ds < 10 ^ ds.length
  | [], _ => Nat.one_pos
  | c :: ds, h => by
    rw [List.forall_mem_cons] at h
    have hc := toNat_of_isDigit h.1
    have hds := valueOf_lt h.2
    have hle : 10 ^ ds.length * (c.toNat - 48) ≤ 10 ^ ds.length * 9 := Nat.mul_le_mul_left _ (by omega)
    rw [valueOf_cons, List.length_cons, Nat.pow_succ]
    omega

/-- Digits of one length are in the order of their values, and what is behind them decides between equal ones. -/
theorem digits_lt_iff : ∀ {ds es : List Char}, ds.length = es.length → (∀ c ∈ ds, c.isDigit = true) →
    (∀ c ∈ es, c.isDigit = true) →
      (ds ++ rest < es ++ rest' ↔ valueOf ds < valueOf es ∨ valueOf ds = valueOf es ∧ rest < rest')
  | [], [], _, _, _ => by simp
  | c :: ds, d :: es, hl, hds, hes => by
    rw [List.forall_mem_cons] at hds hes
    have hl' : ds.length = es.length := by simpa using hl
    have ih := digits_lt_iff hl' hds.2 hes.2
    have hc := toNat_of_isDigit hds.1
    have hd := toNat_of_isDigit hes.1
    have hv := valueOf_lt hds.2
    have hw := valueOf_lt hes.2
    have hlt : c < d ↔ c.toNat < d.toNat := Iff.rfl
    rw [List.cons_append, List.cons_append, List.cons_lt_cons_iff, ih, valueOf_cons, valueOf_cons, ← hl', hlt,
      ← Char.toNat_inj]
    rw [← hl'] at hw
    -- one more in the first place weighs more than all that follows
    rcases lt_trichotomy c.toNat d.toNat with h | h | h
    · have := Nat.mul_le_mul_left (10 ^ ds.length) (show c.toNat - 48 + 1 ≤ d.toNat - 48 by omega)
      rw [Nat.mul_succ] at this
      omega
    · simp only [h, lt_irrefl, false_or, true_and, Nat.add_lt_add_iff_left, Nat.add_left_cancel_iff]
    · have := Nat.mul_le_mul_left (10 ^ ds.length) (show d.toNat - 48 + 1 ≤ c.toNat - 48 by omega)
      rw [Nat.mul_succ] at this
      omega

end Digits

namespace Instant

variable {rest rest' : List Char} {width m n : Nat}

theorem toList_padded (width n : Nat) : (padded width n).toList =
    List.replicate (width - (Nat.toDigits 10 n).length) '0' ++ Nat.toDigits 10 n := String.toList_ofList

theorem isDigits_padded (width n : Nat) : IsDigits (padded width n).toList := by
  rw [toList_padded]
  refine ⟨by simp [Nat.toDigits_ne_nil], fun c hc => ?_⟩
  rcases List.mem_append.1 hc with hc | hc
  · rw [List.eq_of_mem_replicate hc]
    rfl
  · exact Nat.isDigit_of_mem_toDigits (by decide) (by decide) hc

theorem valueOf_padded (width n : Nat) : valueOf (padded width n).toList = n := by
  rw [toList_padded, valueOf, Nat.ofDigitChars_append, Nat.ofDigitChars_replicate_zero, Nat.mul_zero,
    Nat.ofDigitChars_ten_toDigits]

theorem length_padded (hw : 0 < width) (hn : n < 10 ^ width) : (padded width n).toList.length = width := by
  have hl := (Nat.length_toDigits_le_iff (b := 10) (by decide) hw).2 hn
  rw [toList_padded, List.length_append, List.length_replicate]
  omega

/-- Texts that start with numbers of one width are in the order of the numbers, or of what follows equal ones. -/
theorem padded_lt_iff (mark : Char) (hw : 0 < width) (hm : m < 10 ^ width) (hn : n < 10 ^ width) :
    (padded width m).toList ++ mark :: rest < (padded width n).toList ++ mark :: rest' ↔
      m < n ∨ m = n ∧ rest < rest' := by
  rw [digits_lt_iff (by rw [length_padded hw hm, length_padded hw hn]) (isDigits_padded width m).2
    (isDigits_padded width n).2, valueOf_padded, valueOf_padded, List.cons_lt_cons_iff]
  simp only [Char.lt_irrefl, false_or, true_and]

end Instant

/-! ## Reading -/

/-- A date and a time of day, as a text has them. -/
structure DateTime where
  date : Date
  hour : Nat
  minute : Nat
  second : Nat
  millis : Nat
deriving DecidableEq, Repr

namespace DateTime

/-- The number at the front of a text up to the mark behind it, and what follows. -/
def number? (mark : Char) (cs : List Char) : Option (Nat × List Char) :=
  match cs.dropWhile Char.isDigit with
  | [] => none
  | c :: rest =>
    let ds := cs.takeWhile Char.isDigit
    if ds ≠ [] ∧ c = mark then some (valueOf ds, rest) else none

/-- The year at the front of a text, with a sign or without one, and what follows. -/
def year? : List Char → Option (Int × List Char)
  | '-' :: cs => (number? '-' cs).map fun p => (-p.1, p.2)
  | '+' :: cs => (number? '-' cs).map fun p => (p.1, p.2)
  | cs => (number? '-' cs).map fun p => (p.1, p.2)

/-- The date and the time of day that a whole text is. -/
def read? (s : String) : Option DateTime := do
  let (year, cs) ← year? s.toList
  let (month, cs) ← number? '-' cs
  let (day, cs) ← number? 'T' cs
  let (hour, cs) ← number? ':' cs
  let (minute, cs) ← number? ':' cs
  let (second, cs) ← number? '.' cs
  let (millis, cs) ← number? 'Z' cs
  if cs.isEmpty then some ⟨⟨year, month, day⟩, hour, minute, second, millis⟩ else none

/-- The date and the time of day exist, and are this number of milliseconds after 1970-01-01T00:00:00Z. -/
def At (m : DateTime) (millis : Int) : Prop :=
  ∃ n, Date.IsDay n m.date ∧ m.hour < 24 ∧ m.minute < 60 ∧ m.second < 60 ∧ m.millis < 1000 ∧
    millis = (((n * 24 + m.hour) * 60 + m.minute) * 60 + m.second) * 1000 + m.millis

/-- The milliseconds since the start of the day. -/
def ofDay (m : DateTime) : Nat := ((m.hour * 60 + m.minute) * 60 + m.second) * 1000 + m.millis

end DateTime

namespace Instant

variable {t u : Instant} {rest : List Char}

/-- The date and the time of day of an instant. -/
def dateTime (t : Instant) : DateTime :=
  let s := t.secondOfDay.toNat
  ⟨t.date, s / 3600, s / 60 % 60, s % 60, t.nanos / 1000000⟩

/-- The date and the time of day of an instant are at the instant, cut off to the millisecond, and at no other one. -/
theorem at_dateTime (ht : t.nanos < 1000000000) {millis : Int} :
    t.dateTime.At millis ↔ millis = t.total / 1000000 := by
  unfold dateTime secondOfDay total
  constructor
  · rintro ⟨n, hday, -, -, -, -, rfl⟩
    obtain rfl : n = t.seconds / 86400 := hday.dayNumber.symm.trans (Date.isDay_iff.2 rfl).dayNumber
    dsimp only
    omega
  · rintro rfl
    refine ⟨t.seconds / 86400, Date.isDay_iff.2 rfl, ?_⟩
    dsimp only
    omega

theorem number?_padded (mark : Char) (hmark : mark.isDigit = false) (width n : Nat) (rest : List Char) :
    DateTime.number? mark ((padded width n).toList ++ mark :: rest) = some (n, rest) := by
  obtain ⟨hne, hd⟩ := isDigits_padded width n
  obtain ⟨htake, hdrop⟩ := span_of_head (mark :: rest) hd fun c hc => by cases hc; exact hmark
  unfold DateTime.number?
  rw [htake, hdrop]
  dsimp only
  rw [if_pos ⟨hne, rfl⟩, valueOf_padded]

/-- The signs and marks of a text as characters. -/
theorem toList_marks : "-".toList = ['-'] ∧ "+".toList = ['+'] ∧ "T".toList = ['T'] ∧ ":".toList = [':'] ∧
    ".".toList = ['.'] ∧ "Z".toList = ['Z'] := by
  decide +kernel

theorem year?_yearText (year : Int) (rest : List Char) :
    DateTime.year? ((yearText year).toList ++ '-' :: rest) = some (year, rest) := by
  unfold yearText
  split_ifs with h hneg
  · -- four digits without a sign
    obtain ⟨hne, hd⟩ := isDigits_padded 4 year.toNat
    have hn := number?_padded '-' (by decide) 4 year.toNat rest
    obtain ⟨c, cs, he⟩ := List.exists_cons_of_ne_nil hne
    have hc := hd c (by rw [he]; exact List.mem_cons_self)
    rw [he] at hn ⊢
    unfold DateTime.year?
    split
    · rename_i h'
      cases h'
      cases hc
    · rename_i h'
      cases h'
      cases hc
    · rw [hn, Option.map_some, Int.toNat_of_nonneg h.1]
  · have hy : -(year.natAbs : Int) = year := by omega
    rw [String.toList_append, toList_marks.1, List.append_assoc, List.singleton_append, DateTime.year?,
      number?_padded '-' (by decide), Option.map_some, hy]
  · have hy : (year.natAbs : Int) = year := by omega
    rw [String.toList_append, toList_marks.2.1, List.append_assoc, List.singleton_append, DateTime.year?,
      number?_padded '-' (by decide), Option.map_some, hy]

/-- The characters of the text: the fields, each with the mark behind it. -/
theorem toList_iso (t : Instant) : t.iso.toList =
    (yearText t.date.year).toList ++ '-' :: ((padded 2 t.date.month.toNat).toList ++ '-' ::
      ((padded 2 t.date.day.toNat).toList ++ 'T' :: ((padded 2 t.dateTime.hour).toList ++ ':' ::
        ((padded 2 t.dateTime.minute).toList ++ ':' :: ((padded 2 t.dateTime.second).toList ++ '.' ::
          ((padded 3 t.dateTime.millis).toList ++ 'Z' :: [])))))) := by
  unfold iso dateTime
  simp only [String.toList_append, toList_marks, List.append_assoc, List.cons_append, List.nil_append]

/-- The text of an instant is read as its date and its time of day. -/
theorem read?_iso (t : Instant) : DateTime.read? t.iso = some t.dateTime := by
  have hd := t.isValid_date
  have hmonth : (t.date.month.toNat : Int) = t.date.month := Int.toNat_of_nonneg (by have := hd.month_pos; omega)
  have hday : (t.date.day.toNat : Int) = t.date.day := Int.toNat_of_nonneg (by have := hd.day_pos; omega)
  unfold DateTime.read?
  rw [toList_iso, year?_yearText]
  simp only [Option.bind_eq_bind, Option.bind_some, number?_padded '-' rfl, number?_padded 'T' rfl,
    number?_padded ':' rfl, number?_padded '.' rfl, number?_padded 'Z' rfl, List.isEmpty_nil, if_true, hmonth, hday]
  rfl

/-! ## Order -/

/-- Dates with years of four digits, as the numbers that are written of them. -/
theorem date_bounds (hy : 0 ≤ t.date.year ∧ t.date.year ≤ 9999) :
    t.date.year.toNat < 10 ^ 4 ∧ t.date.month.toNat < 10 ^ 2 ∧ t.date.day.toNat < 10 ^ 2 := by
  have hd := t.isValid_date
  have hmonth := hd.month_le
  have hday := hd.day_le.trans Date.daysInMonth_le
  omega

theorem time_bounds (ht : t.nanos < 1000000000) : t.dateTime.hour < 24 ∧ t.dateTime.minute < 60 ∧
    t.dateTime.second < 60 ∧ t.dateTime.millis < 1000 := by
  obtain ⟨-, -, h₁, h₂, h₃, h₄, -⟩ := (at_dateTime ht).2 rfl
  exact ⟨h₁, h₂, h₃, h₄⟩

/-- The milliseconds of an instant are those of its day and those of its time of day. -/
theorem millis_eq (ht : t.nanos < 1000000000) :
    t.total / 1000000 = t.date.dayNumber * 86400000 + t.dateTime.ofDay ∧ t.dateTime.ofDay < 86400000 := by
  obtain ⟨n, hn, h₁, h₂, h₃, h₄, he⟩ := (at_dateTime ht).2 rfl
  obtain rfl : t.date.dayNumber = n := hn.dayNumber
  unfold DateTime.ofDay
  omega

/-- The order of texts is that of their fields, from the year to the milliseconds. -/
theorem iso_lt_iff_fields (ht : t.nanos < 1000000000) (hu : u.nanos < 1000000000)
    (hty : 0 ≤ t.date.year ∧ t.date.year ≤ 9999) (huy : 0 ≤ u.date.year ∧ u.date.year ≤ 9999) :
    t.iso < u.iso ↔
      t.date.year.toNat < u.date.year.toNat ∨ t.date.year.toNat = u.date.year.toNat ∧
      (t.date.month.toNat < u.date.month.toNat ∨ t.date.month.toNat = u.date.month.toNat ∧
      (t.date.day.toNat < u.date.day.toNat ∨ t.date.day.toNat = u.date.day.toNat ∧
      (t.dateTime.hour < u.dateTime.hour ∨ t.dateTime.hour = u.dateTime.hour ∧
      (t.dateTime.minute < u.dateTime.minute ∨ t.dateTime.minute = u.dateTime.minute ∧
      (t.dateTime.second < u.dateTime.second ∨ t.dateTime.second = u.dateTime.second ∧
        t.dateTime.millis < u.dateTime.millis))))) := by
  obtain ⟨ht₁, ht₂, ht₃⟩ := date_bounds hty
  obtain ⟨hu₁, hu₂, hu₃⟩ := date_bounds huy
  obtain ⟨ht₄, ht₅, ht₆, ht₇⟩ := time_bounds ht
  obtain ⟨hu₄, hu₅, hu₆, hu₇⟩ := time_bounds hu
  rw [String.lt_iff, toList_iso, toList_iso, yearText, yearText, if_pos hty, if_pos huy,
    padded_lt_iff '-' (by decide) ht₁ hu₁, padded_lt_iff '-' (by decide) ht₂ hu₂, padded_lt_iff 'T' (by decide) ht₃ hu₃,
    padded_lt_iff ':' (by decide) (by omega) (by omega), padded_lt_iff ':' (by decide) (by omega) (by omega),
    padded_lt_iff '.' (by decide) (by omega) (by omega), padded_lt_iff 'Z' (by decide) (by omega) (by omega)]
  simp only [List.lt_irrefl, and_false, or_false]

/-- The order of dates is that of their fields. -/
theorem dayNumber_lt_iff_fields (ht : 0 ≤ t.date.year) (hu : 0 ≤ u.date.year) :
    t.date.dayNumber < u.date.dayNumber ↔
      t.date.year.toNat < u.date.year.toNat ∨ t.date.year.toNat = u.date.year.toNat ∧
      (t.date.month.toNat < u.date.month.toNat ∨ t.date.month.toNat = u.date.month.toNat ∧
        t.date.day.toNat < u.date.day.toNat) := by
  have hlt := Date.dayNumber_lt_iff t.isValid_date u.isValid_date
  obtain ⟨ht₁, ht₂, ht₃, -⟩ := t.isValid_date
  obtain ⟨hu₁, hu₂, hu₃, -⟩ := u.isValid_date
  rw [hlt, Date.monthNumber, Date.monthNumber]
  omega

theorem dayNumber_eq_iff_fields (ht : 0 ≤ t.date.year) (hu : 0 ≤ u.date.year) :
    t.date.dayNumber = u.date.dayNumber ↔ t.date.year.toNat = u.date.year.toNat ∧
      t.date.month.toNat = u.date.month.toNat ∧ t.date.day.toNat = u.date.day.toNat := by
  constructor
  · intro h
    rw [Date.eq_of_dayNumber_eq t.isValid_date u.isValid_date h]
    exact ⟨rfl, rfl, rfl⟩
  · rintro ⟨hy, hm, hd⟩
    obtain ⟨ht₁, -, ht₂, -⟩ := t.isValid_date
    obtain ⟨hu₁, -, hu₂, -⟩ := u.isValid_date
    refine congrArg Date.dayNumber ?_
    rw [Date.mk.injEq]
    omega

/-- The order of times of day is that of their fields. -/
theorem ofDay_lt_iff_fields (ht : t.nanos < 1000000000) (hu : u.nanos < 1000000000) :
    t.dateTime.ofDay < u.dateTime.ofDay ↔
      t.dateTime.hour < u.dateTime.hour ∨ t.dateTime.hour = u.dateTime.hour ∧
      (t.dateTime.minute < u.dateTime.minute ∨ t.dateTime.minute = u.dateTime.minute ∧
      (t.dateTime.second < u.dateTime.second ∨ t.dateTime.second = u.dateTime.second ∧
        t.dateTime.millis < u.dateTime.millis)) := by
  obtain ⟨-, ht₁, ht₂, ht₃⟩ := time_bounds ht
  obtain ⟨-, hu₁, hu₂, hu₃⟩ := time_bounds hu
  unfold DateTime.ofDay
  omega

/-- Texts with years of four digits are in the order of the instants, cut off to the millisecond. -/
theorem iso_lt_iff (ht : t.nanos < 1000000000) (hu : u.nanos < 1000000000)
    (hty : 0 ≤ t.date.year ∧ t.date.year ≤ 9999) (huy : 0 ≤ u.date.year ∧ u.date.year ≤ 9999) :
    t.iso < u.iso ↔ t.total / 1000000 < u.total / 1000000 := by
  have hfields : t.iso < u.iso ↔ t.date.dayNumber < u.date.dayNumber ∨
      t.date.dayNumber = u.date.dayNumber ∧ t.dateTime.ofDay < u.dateTime.ofDay := by
    rw [iso_lt_iff_fields ht hu hty huy, ← ofDay_lt_iff_fields ht hu, dayNumber_lt_iff_fields hty.1 huy.1,
      dayNumber_eq_iff_fields hty.1 huy.1]
    tauto
  obtain ⟨ht₁, ht₂⟩ := millis_eq ht
  obtain ⟨hu₁, hu₂⟩ := millis_eq hu
  rw [hfields, ht₁, hu₁]
  omega

end Instant

end CompactSearch

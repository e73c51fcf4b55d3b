/-
Instants in UTC with nanoseconds, and their ISO 8601 texts with milliseconds.
-/
import CompactSearch.Time.Calendar

namespace CompactSearch

/-- A point in time: seconds since 1970-01-01T00:00:00Z and nanoseconds within the second. -/
structure Instant where
  seconds : Int
  nanos : Nat
deriving DecidableEq, Repr

namespace Instant

/-! ## Range -/

def minYear : Int := -262143

def maxYear : Int := 262142

/-- The first representable second, at the start of the first year. -/
def minSeconds : Int := (Date.mk minYear 1 1).dayNumber * 86400

/-- The last representable second, at the end of the last year. -/
def maxSeconds : Int := ((Date.mk (maxYear + 1) 1 1).dayNumber) * 86400 - 1

/-- Whether an instant can be represented. -/
def inRange (t : Instant) : Bool := minSeconds ≤ t.seconds ∧ t.seconds ≤ maxSeconds

/-! ## Arithmetic -/

/-- The date of an instant. -/
def date (t : Instant) : Date := .ofDayNumber (t.seconds / 86400)

/-- The second of the day. -/
def secondOfDay (t : Instant) : Int := t.seconds % 86400

/-- The instant a number of milliseconds later, if it can be represented. -/
def addMillis? (t : Instant) (millis : Int) : Option Instant :=
  let nanos := t.nanos + millis * 1000000
  let sum : Instant := ⟨t.seconds + nanos / 1000000000, (nanos % 1000000000).toNat⟩
  if sum.inRange then some sum else none

/-- The instant a number of months later at the same time of day, if it can be represented. -/
def addMonths? (t : Instant) (months : Int) : Option Instant :=
  let date := t.date.addMonths months
  if minYear ≤ date.year ∧ date.year ≤ maxYear then
    some ⟨date.dayNumber * 86400 + t.secondOfDay, t.nanos⟩
  else none

/-! ## Text -/

/-- A number in at least `width` digits, filled with zeros on the left. -/
def padded (width n : Nat) : String :=
  let ds := Nat.toDigits 10 n
  String.ofList (List.replicate (width - ds.length) '0' ++ ds)

/-- Four digits for the years 0 to 9999; other years have a sign. -/
def yearText (year : Int) : String :=
  if 0 ≤ year ∧ year ≤ 9999 then padded 4 year.toNat
  else (if year < 0 then "-" else "+") ++ padded 4 year.natAbs

/-- The ISO 8601 text in UTC; what is finer than a millisecond is cut off. -/
def iso (t : Instant) : String :=
  let d := t.date
  let s := t.secondOfDay.toNat
  yearText d.year ++ "-" ++ padded 2 d.month.toNat ++ "-" ++ padded 2 d.day.toNat ++ "T" ++
    padded 2 (s / 3600) ++ ":" ++ padded 2 (s / 60 % 60) ++ ":" ++ padded 2 (s % 60) ++ "." ++
    padded 3 (t.nanos / 1000000) ++ "Z"

end Instant

end CompactSearch

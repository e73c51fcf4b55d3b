/-
Relative dates such as `-7d`, `+2w` or `now`: a whole number of a unit, counted from a given instant.
-/
import CompactSearch.Decimal.Binary64
import CompactSearch.Time.Instant

namespace CompactSearch

/-- A unit of time. -/
inductive TimeUnit where
  /-- A fixed number of milliseconds. -/
  | fixed (millis : Nat)
  /-- A number of calendar months. -/
  | calendar (months : Nat)
deriving DecidableEq, Repr

namespace TimeUnit

/-- The units with their names. -/
def named : List (List String × TimeUnit) := [
  (["ms", "millisecond", "milliseconds"], fixed 1),
  (["s", "second", "seconds"], fixed 1000),
  (["m", "minute", "minutes"], fixed 60000),
  (["h", "hour", "hours"], fixed 3600000),
  (["d", "day", "days"], fixed 86400000),
  (["w", "week", "weeks"], fixed 604800000),
  (["M", "month", "months"], calendar 1),
  (["Q", "quarter", "quarters"], calendar 3),
  (["y", "year", "years"], calendar 12)]

/-- The unit with the given name. -/
def ofName? (s : String) : Option TimeUnit := (named.find? (·.1.contains s)).map (·.2)

end TimeUnit

/-- A point in time said relative to now. -/
inductive RelativeDate where
  | now
  | offset (amount : Int) (unit : TimeUnit)
deriving DecidableEq, Repr

namespace RelativeDate

/-! ## Limits -/

/-- Whether an amount is a signed 64-bit integer. -/
def fitsAmount (amount : Int) : Bool := -(Nat.pow 2 63 : Nat) ≤ amount ∧ amount < (Nat.pow 2 63 : Nat)

/-- The longest span of time, forwards and backwards, in milliseconds. -/
def maxSpan : Nat := Nat.pow 2 63 - 1

/-- The most calendar months that an instant is moved by, forwards and backwards. -/
def maxMonths : Nat := Nat.pow 2 32 - 1

/-! ## Reading -/

/-- Digits followed by the name of a unit, with the sign of the amount given; none if the amount does not fit. -/
def unsignedOfText? (negative : Bool) (cs : List Char) : Option RelativeDate :=
  let ds := cs.takeWhile Char.isDigit
  let amount : Int := if negative then -digitsValue ds else digitsValue ds
  if ds.isEmpty then none
  else (TimeUnit.ofName? (String.ofList (cs.dropWhile Char.isDigit))).bind fun unit =>
    if fitsAmount amount then some (offset amount unit) else none

/-- The word now, or an optional sign, digits and the name of a unit. -/
def ofText? (s : String) : Option RelativeDate :=
  if s = "now" then some now
  else match s.toList with
    | '-' :: cs => unsignedOfText? true cs
    | '+' :: cs => unsignedOfText? false cs
    | cs => unsignedOfText? false cs

/-! ## Meaning -/

/-- The instant meant at a given time; none if the span of time or the instant cannot be represented. -/
def at? (base : Instant) : RelativeDate → Option Instant
  | now => some base
  | offset amount (.fixed millis) =>
    let span := amount * millis
    if span.natAbs ≤ maxSpan then base.addMillis? span else none
  | offset amount (.calendar months) =>
    if amount.natAbs ≤ maxMonths ∧ amount.natAbs * months ≤ maxMonths then base.addMonths? (amount * months) else none

/-- The instant that a text means at a given time, if it is a relative date. -/
def resolve? (s : String) (now : Instant) : Option Instant := (ofText? s).bind (at? now)

end RelativeDate

end CompactSearch

/-
Binary floating-point numbers of 64 bits as exact values: a finite magnitude is
`mantissa · 2 ^ (scale - 1074)`, in the one form that has the smallest scale, so equal numbers are equal
terms. Reading a decimal rounds it to the nearest magnitude, a half to the even mantissa, in natural
number arithmetic.
-/
namespace CompactSearch

/-- The magnitude `mantissa · 2 ^ (scale - 1074)` of a finite number. -/
structure Magnitude where
  mantissa : Nat
  scale : Nat
  mantissa_lt : mantissa < Nat.pow 2 53
  scale_le : scale ≤ 2045
  canonical : scale = 0 ∨ Nat.pow 2 52 ≤ mantissa
deriving DecidableEq, Repr

/-- A number of the binary64 format other than the NaNs; zero has two signs. -/
inductive Binary64 where
  | finite (negative : Bool) (magnitude : Magnitude)
  | infinite (negative : Bool)
deriving DecidableEq, Repr

/-- The value of a list of decimal digits. -/
def digitsValue (ds : List Char) : Nat := ds.foldl (fun n c => 10 * n + (c.toNat - '0'.toNat)) 0

/-! ## Rounding -/

/-- The quotient `n / d` rounded to the nearest natural number, a half to the even one. -/
def roundHalfEven (n d : Nat) : Nat :=
  let q := n / d
  if 2 * (n % d) < d ∨ (2 * (n % d) = d ∧ q % 2 = 0) then q else q + 1

namespace Magnitude

def zero : Magnitude := ⟨0, 0, by decide, by decide, .inl rfl⟩

/-- The value in units of `2 ^ -1074`, the smallest positive magnitude. -/
def units (x : Magnitude) : Nat := x.mantissa * Nat.pow 2 x.scale

/-- The magnitude nearest to `n / d`, a half to the even mantissa; `none` when that lies beyond the
greatest one. The scale leaves 53 bits of the quotient, or fewer when it is already the least scale;
rounding up to `2 ^ 53` moves to the next scale. -/
def ofRatio? (n d : Nat) : Option Magnitude :=
  let scale := Nat.log2 (n * Nat.pow 2 1074 / d) - 52
  let mantissa := roundHalfEven (n * Nat.pow 2 1074) (d * Nat.pow 2 scale)
  if h : mantissa < Nat.pow 2 53 ∧ scale ≤ 2045 ∧ (scale = 0 ∨ Nat.pow 2 52 ≤ mantissa) then
    some ⟨mantissa, scale, h.1, h.2.1, h.2.2⟩
  else if h : scale + 1 ≤ 2045 then
    some ⟨Nat.pow 2 52, scale + 1, by decide, h, .inr (by decide)⟩
  else none

/-- The magnitude nearest to `coefficient · 10 ^ exponent`. Exponents that put the value far outside
the range are answered from the number of digits alone. -/
def ofDecimal? (coefficient : Nat) (exponent : Int) : Option Magnitude :=
  let places : Int := (Nat.toDigits 10 coefficient).length
  if coefficient = 0 ∨ exponent + places < -330 then some zero
  else if exponent + places > 320 then none
  else ofRatio? (coefficient * Nat.pow 10 exponent.toNat) (Nat.pow 10 (-exponent).toNat)

end Magnitude

namespace Binary64

/-- The number of a sign and a magnitude, where no magnitude means infinity. -/
def ofMagnitude? (negative : Bool) : Option Magnitude → Binary64
  | some x => finite negative x
  | none => infinite negative

def isInfinite : Binary64 → Bool
  | infinite _ => true
  | finite _ _ => false

end Binary64

end CompactSearch

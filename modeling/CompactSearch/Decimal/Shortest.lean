/-
The shortest decimal of a magnitude: the fewest digits that read back as the same number, and of
those the decimal nearest to it. A decimal reads back exactly when it lies in the interval of reals
that round to the magnitude, ends included iff the mantissa is even. For one digit, two digits and so on, the two
neighbours of the magnitude on that decimal grid are tested in natural number arithmetic.
-/
import CompactSearch.Decimal.Binary64

namespace CompactSearch

/-- The decimal `digits · 10 ^ (exponent - (digits.length - 1))`: the first digit stands for `10 ^ exponent`. -/
structure Scientific where
  digits : List Char
  exponent : Int
deriving DecidableEq, Repr

namespace Magnitude

/-! ## The rounding interval, in quarters of a unit -/

/-- The lower end: half way to the number below, which is only a quarter of a step away when the
mantissa is a power of two above the least scale. -/
def lowerEnd (x : Magnitude) : Nat :=
  4 * x.units - (if x.mantissa = Nat.pow 2 52 ∧ 0 < x.scale then Nat.pow 2 x.scale else Nat.pow 2 (x.scale + 1))

/-- The upper end: half way to the number above. -/
def upperEnd (x : Magnitude) : Nat := 4 * x.units + Nat.pow 2 (x.scale + 1)

/-- Whether `c · 10 ^ place` rounds to `x`. -/
def roundsTo (x : Magnitude) (c : Nat) (place : Int) : Bool :=
  let a := Nat.pow 10 (-place).toNat
  let v := 4 * c * (Nat.pow 2 1074 * Nat.pow 10 place.toNat)
  if x.mantissa % 2 = 0 then decide (x.lowerEnd * a ≤ v ∧ v ≤ x.upperEnd * a)
  else decide (x.lowerEnd * a < v ∧ v < x.upperEnd * a)

/-! ## Candidates -/

/-- The number of decimal digits of `n`. -/
def digitCount (n : Nat) : Nat := (Nat.toDigits 10 n).length

/-- The power of ten of the first digit of a magnitude that is not zero. -/
def leadingPlace (x : Magnitude) : Int :=
  let whole := Nat.pow 2 1074
  if whole ≤ x.units then digitCount (x.units / whole) - 1
  else -digitCount ((whole + x.units - 1) / x.units - 1)

/-- The multiple of `10 ^ place` nearest to `x` among those next to it that round to `x`, as a number of steps;
of two equally near ones the even one. -/
def neighbour? (x : Magnitude) (place : Int) : Option Nat :=
  let n := x.units * Nat.pow 10 (-place).toNat
  let d := Nat.pow 2 1074 * Nat.pow 10 place.toNat
  let c := n / d
  match x.roundsTo c place, x.roundsTo (c + 1) place with
  | true, true => some (roundHalfEven n d)
  | true, false => some c
  | false, true => some (c + 1)
  | false, false => none

/-- The first hit on the grids of `count`, `count + 1` and so on digits, for at most `more` further grids. -/
def firstHit (x : Magnitude) (lead : Int) : (count more : Nat) → Nat × Int
  | count, 0 =>
    (x.units * Nat.pow 10 (count - 1 - lead).toNat / (Nat.pow 2 1074 * Nat.pow 10 (lead - count + 1).toNat),
      lead - count + 1)
  | count, more + 1 =>
    match x.neighbour? (lead - count + 1) with
    | some c => (c, lead - count + 1)
    | none => firstHit x lead (count + 1) more

/-- The list without the zeros at its end. -/
def dropTrailingZeros (ds : List Char) : List Char := (ds.reverse.dropWhile (· == '0')).reverse

/-- The shortest decimal of a magnitude that is not zero; seventeen digits always suffice. -/
def shortest (x : Magnitude) : Scientific :=
  let (c, place) := x.firstHit x.leadingPlace 1 17
  let ds := Nat.toDigits 10 c
  ⟨dropTrailingZeros ds, place + ds.length - 1⟩

end Magnitude

/-! ## Text -/

namespace Scientific

/-- Positional from `10 ^ -5` to below `10 ^ 16`, with a digit on each side of the point; otherwise one digit before
the point and a signed exponent without padding. -/
def text (s : Scientific) : String :=
  let ds := s.digits
  let e := s.exponent
  if -5 ≤ e ∧ e ≤ 15 then
    if e < 0 then "0." ++ String.ofList (List.replicate (-e - 1).toNat '0' ++ ds)
    else
      let whole := ds.take (e.toNat + 1)
      let rest := ds.drop (e.toNat + 1)
      String.ofList (whole ++ List.replicate (e.toNat + 1 - whole.length) '0') ++ "." ++
        (if rest.isEmpty then "0" else String.ofList rest)
  else
    String.ofList (ds.take 1) ++ (if ds.length ≤ 1 then "" else "." ++ String.ofList (ds.drop 1)) ++
      (if e < 0 then "e-" else "e+") ++ Nat.repr e.natAbs

end Scientific

namespace Binary64

/-- The sign, then the shortest decimal; zero is `0.0` and infinity is `inf`. -/
def text : Binary64 → String
  | finite negative x =>
    (if negative then "-" else "") ++ (if x.mantissa = 0 then "0.0" else x.shortest.text)
  | infinite negative => if negative then "-inf" else "inf"

end Binary64

end CompactSearch

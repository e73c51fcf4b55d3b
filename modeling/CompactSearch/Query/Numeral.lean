/-
Number literals. A numeral keeps the text that was typed; its value is a 64-bit integer where the text has
no fraction and fits, and otherwise the nearest binary64 number.
-/
import CompactSearch.Decimal.Shortest

namespace CompactSearch

/-- ASCII digits, optionally followed by a point and at least one more digit. -/
def isNumeral (cs : List Char) : Bool :=
  !(cs.takeWhile Char.isDigit).isEmpty &&
    match cs.dropWhile Char.isDigit with
    | [] => true
    | c :: fraction => c == '.' && !fraction.isEmpty && fraction.all Char.isDigit

/-- A number literal as it was typed. -/
structure Numeral where
  text : String
  isNumeral : isNumeral text.toList = true
deriving DecidableEq, Repr

/-- What a numeral stands for. -/
inductive Number where
  | integer (n : Nat)
  | float (x : Binary64)
deriving DecidableEq, Repr

namespace Numeral

/-- The numeral with the given text, if it is one. -/
def ofText? (s : String) : Option Numeral :=
  if h : CompactSearch.isNumeral s.toList = true then some ⟨s, h⟩ else none

/-- The digits in front of the point. -/
def whole (n : Numeral) : List Char := n.text.toList.takeWhile Char.isDigit

/-- The digits after the point, none if there is no point. -/
def fraction (n : Numeral) : List Char := (n.text.toList.dropWhile Char.isDigit).drop 1

/-- Whether the literal has no point. -/
def isInteger (n : Numeral) : Bool := n.fraction.isEmpty

/-- The literal without its point, as a natural number: its exact value is this times `10 ^ -fraction.length`. -/
def coefficient (n : Numeral) : Nat := digitsValue (n.whole ++ n.fraction)

/-- The greatest signed 64-bit integer. -/
def maxInteger : Nat := Nat.pow 2 63 - 1

/-- The nearest binary64 number. -/
def toBinary64 (n : Numeral) : Binary64 :=
  .ofMagnitude? false (Magnitude.ofDecimal? n.coefficient (-n.fraction.length))

/-- An integer without a point that fits 64 bits stays exact; everything else is rounded. -/
def value (n : Numeral) : Number :=
  if n.isInteger ∧ n.coefficient ≤ maxInteger then .integer n.coefficient else .float n.toBinary64

end Numeral

end CompactSearch

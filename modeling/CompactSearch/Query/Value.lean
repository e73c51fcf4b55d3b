/-
Values of a query: numbers, strings and null, told apart by the run of characters that was typed.
-/
import CompactSearch.Query.Numeral

namespace CompactSearch

/-- A value as it was typed, without its quotes. -/
inductive Value where
  | number (n : Numeral)
  | string (s : String)
  | null
deriving DecidableEq, Repr

namespace Value

/-- The spelling of null. -/
def nullText : String := "NULL"

/-- The value of an unquoted run: exactly `NULL`, a numeral, or else a string. -/
def ofRun (run : String) : Value :=
  if run = nullText then null
  else match Numeral.ofText? run with
    | some n => number n
    | none => string run

/-- The value as it was typed. -/
def text : Value → String
  | number n => n.text
  | string s => s
  | null => nullText

def isNull : Value → Bool
  | null => true
  | _ => false

theorem isNull_iff {v : Value} : v.isNull = true ↔ v = null := by
  cases v <;> simp [isNull]

end Value

end CompactSearch

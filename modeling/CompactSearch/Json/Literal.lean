/-
Scalar JSON values, and the one that stands for a value of a query.
-/
import CompactSearch.Json.Basic
import CompactSearch.Query.Value

namespace CompactSearch

/-- A JSON value without parts. -/
inductive Literal where
  | null
  | integer (n : Nat)
  | float (x : Binary64)
  | string (s : String)
deriving DecidableEq, Repr

namespace Literal

def toJson : Literal → Json
  | null => .null
  | integer n => .integer n
  | float x => .float x
  | string s => .string s

/-- The literal of a query value; a number beyond the floating-point range stays the text that was typed. -/
def ofValue : Value → Literal
  | .null => null
  | .string s => string s
  | .number n =>
    match n.value with
    | .integer i => integer i
    | .float (.finite negative x) => float (.finite negative x)
    | .float (.infinite _) => string n.text

end Literal

end CompactSearch

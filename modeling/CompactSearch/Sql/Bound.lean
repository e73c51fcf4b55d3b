/-
Values that an SQL text binds to its placeholders.
-/
import CompactSearch.Json.Basic
import CompactSearch.Query.Value

namespace CompactSearch.Sql

/-- A value bound to a placeholder. -/
inductive Bound where
  | null
  | integer (n : Int)
  | float (x : Binary64)
  | text (s : String)
deriving DecidableEq, Repr

namespace Bound

/-- The bound form of a query value. -/
def ofValue : Value → Bound
  | .null => null
  | .string s => text s
  | .number n =>
    match n.value with
    | .integer i => integer i
    | .float x => float x

def toJson : Bound → Json
  | null => .null
  | integer n => .integer n
  | float x => .float x
  | text s => .string s

end Bound

end CompactSearch.Sql

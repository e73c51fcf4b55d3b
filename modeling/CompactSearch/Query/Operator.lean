/-
Operators between a field and a value, and the four comparisons of order among them.
-/
namespace CompactSearch

/-- What stands between a field and its value. -/
inductive Operator where
  /-- The colon: the field's own way of matching. -/
  | default
  | gte
  | gt
  | lte
  | lt
  | eq
deriving DecidableEq, Repr

/-- A comparison of order. -/
inductive Comparison where
  | gte
  | gt
  | lte
  | lt
deriving DecidableEq, Repr

namespace Operator

/-- The operator as it is typed. -/
def text : Operator → String
  | default => ":"
  | gte => ">="
  | gt => ">"
  | lte => "<="
  | lt => "<"
  | eq => "="

/-- The comparison of order that an operator asks for; the colon and the equals sign ask for none. -/
def comparison? : Operator → Option Comparison
  | gte => some .gte
  | gt => some .gt
  | lte => some .lte
  | lt => some .lt
  | default | eq => none

end Operator

end CompactSearch

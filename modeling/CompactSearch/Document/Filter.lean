/-
Filters of a document store: formulas over conditions on single fields, and their JSON form.
-/
import CompactSearch.Formula
import CompactSearch.Json.Literal
import CompactSearch.Query.Operator

namespace CompactSearch.Document

/-- The right-hand side of a condition. -/
inductive Operand where
  | literal (v : Literal)
  /-- A text that the store casts to a point in time. -/
  | date (text : String)
deriving DecidableEq, Repr

/-- What a condition asks of a field's content. -/
inductive Condition where
  | equals (operand : Operand)
  /-- The content matches a regular expression. -/
  | like (pattern : String)
  | compare (comparison : Comparison) (operand : Operand)
deriving DecidableEq, Repr

/-- A condition on one field, or its negation. -/
structure Predicate where
  field : String
  condition : Condition
  negated : Bool
deriving DecidableEq, Repr

/-- A filter of a document store. -/
abbrev Filter := Formula Predicate

/-! ## JSON form -/

def comparisonKey : Comparison → String
  | .gte => "$gte"
  | .gt => "$gt"
  | .lte => "$lte"
  | .lt => "$lt"

namespace Operand

def toJson : Operand → Json
  | literal v => v.toJson
  | date text => .object [("$toDate", .string text)]

end Operand

namespace Condition

/-- The form of a condition that is not negated; equality is the operand itself. -/
def toJson : Condition → Json
  | equals operand => operand.toJson
  | like pattern => .object [("$regex", .string pattern)]
  | compare c operand => .object [(comparisonKey c, operand.toJson)]

/-- The form of a condition as an object of operators, which a negation can enclose. -/
def toOperatorJson : Condition → Json
  | equals (.literal v) => .object [("$eq", v.toJson)]
  | c => c.toJson

end Condition

namespace Predicate

def toJson (p : Predicate) : Json :=
  .object [(p.field,
    if p.negated then .object [("$not", p.condition.toOperatorJson)] else p.condition.toJson)]

end Predicate

mutual

/-- The JSON form of a filter. -/
def Filter.toJson : Filter → Json
  | .atom p => p.toJson
  | .all fs => .object [("$and", .array (Filter.toJsonList fs))]
  | .any fs => .object [("$or", .array (Filter.toJsonList fs))]

/-- The JSON forms of the parts of a filter. -/
def Filter.toJsonList : List Filter → List Json
  | [] => []
  | f :: fs => Filter.toJson f :: Filter.toJsonList fs

end

end CompactSearch.Document

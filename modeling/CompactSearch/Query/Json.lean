/-
The JSON form of a parsed query.
-/
import CompactSearch.Json.Literal
import CompactSearch.Query.Leaf

namespace CompactSearch

namespace Leaf

/-- Only a negated leaf says whether it is negated. -/
def negationFields (negated : Bool) : List (String × Json) :=
  if negated then [("negated", .boolean true)] else []

def toJson : Leaf → Json
  | bare v negated =>
    .object ([("kind", .string "bare"), ("value", (Literal.ofValue v).toJson)] ++ negationFields negated)
  | keyed field op v negated =>
    .object ([("kind", .string "keyed"), ("field", .string field), ("op", .string op.text),
      ("value", (Literal.ofValue v).toJson)] ++ negationFields negated)

end Leaf

mutual

/-- The JSON form of a query: an object that names the connective, or the leaf itself. -/
def Query.toJson : Query → Json
  | .atom l => l.toJson
  | .all ps => .object [("and", .array (Query.toJsonList ps))]
  | .any ps => .object [("or", .array (Query.toJsonList ps))]

/-- The JSON forms of the parts of a query. -/
def Query.toJsonList : List Query → List Json
  | [] => []
  | p :: ps => Query.toJson p :: Query.toJsonList ps

end

end CompactSearch

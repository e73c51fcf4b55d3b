/-
Queries as formulas over leaves.
-/
import CompactSearch.Formula
import CompactSearch.Query.Operator
import CompactSearch.Query.Value

namespace CompactSearch

/-- What a query asks of a record: a bare value, to be looked for in the fields that a policy names, or one field
compared with a value. -/
inductive Leaf where
  | bare (value : Value) (negated : Bool)
  | keyed (field : String) (op : Operator) (value : Value) (negated : Bool)
deriving DecidableEq, Repr

namespace Leaf

def value : Leaf → Value
  | bare v _ => v
  | keyed _ _ v _ => v

def isNegated : Leaf → Bool
  | bare _ n => n
  | keyed _ _ _ n => n

end Leaf

/-- A parsed query. -/
abbrev Query := Formula Leaf

end CompactSearch

/-
Tokens of a query and the text that a message shows for each.
-/
import CompactSearch.Query.Operator
import CompactSearch.Query.Value
import CompactSearch.Text.Quoted

namespace CompactSearch

/-- The units that the grammar reads. -/
inductive Token where
  | value (v : Value)
  | op (o : Operator)
  /-- One space: both sides have to hold. -/
  | space
  /-- The word OR between single spaces: one of the sides has to hold. -/
  | or
  /-- The dash in front of a leaf. -/
  | minus
  | openGroup
  | closeGroup
deriving DecidableEq, Repr

/-- A token and the position of its first character, counted in characters from zero. -/
structure Placed where
  token : Token
  position : Nat
deriving DecidableEq, Repr

namespace Token

/-- The token as a message shows it. -/
def describe : Token → String
  | value v => "value " ++ Text.quoted v.text
  | op o => "operator '" ++ o.text ++ "'"
  | space => "space"
  | or => "' OR '"
  | minus => "'-'"
  | openGroup => "'('"
  | closeGroup => "')'"

/-- Whether a leaf can start right after the token. -/
def precedesLeaf : Token → Bool
  | space | or | openGroup => true
  | _ => false

end Token

end CompactSearch

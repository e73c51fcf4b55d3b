/-
The two dialects of the query language and the characters that each keeps for itself.
-/
namespace CompactSearch

/-- Which kind of store a query is written for. The document dialect reads a dash in front of a
leaf as negation; the relational dialect has no negation and keeps the tilde for itself. -/
inductive Dialect where
  | document
  | relational
deriving DecidableEq, Repr

namespace Dialect

/-- Whether a dash in front of a leaf negates it. -/
def hasNegation : Dialect → Bool
  | document => true
  | relational => false

/-- The characters that end an unquoted run: separators, operators, quotes and parentheses. -/
def isReserved (d : Dialect) (c : Char) : Bool :=
  c == ' ' || c == '"' || c == ':' || c == '>' || c == '=' || c == '<' || c == '(' || c == ')' ||
    (c == '~' && d == relational)

end Dialect

end CompactSearch

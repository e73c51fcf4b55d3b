/-
Why a search could not be compiled.
-/
import CompactSearch.Query.Error

namespace CompactSearch

/-- A bare value was met under a policy that names no field to look for it in. -/
structure NoBareFields where
  token : String
deriving DecidableEq, Repr

namespace NoBareFields

def message (e : NoBareFields) : String :=
  "bare token " ++ Text.quoted e.token ++ " cannot be expanded: neither \x60any\x60 nor \x60isString\x60 is set"

end NoBareFields

/-- The ways in which a search fails. -/
inductive SearchError where
  /-- The text is not a query. -/
  | malformed (e : ParseError)
  /-- A field cannot be written as a column of a table. -/
  | invalidField (field : String)
  /-- The policy cannot answer a bare value. -/
  | unanswerable (e : NoBareFields)
deriving DecidableEq, Repr

namespace SearchError

/-- What went wrong, without the kind of error in front. -/
def detail : SearchError → String
  | malformed e => e.message
  | invalidField field => "invalid field name " ++ Text.quoted field
  | unanswerable e => e.message

def message (e : SearchError) : String :=
  match e with
  | malformed _ | invalidField _ => "parse error: " ++ e.detail
  | unanswerable _ => "configuration error: " ++ e.detail

end SearchError

end CompactSearch

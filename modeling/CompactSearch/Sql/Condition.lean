/-
Conditions in SQL: a Boolean text with named placeholders and the values that they bind. Values that a user typed are
in the bindings only.
-/
import CompactSearch.Query.Operator
import CompactSearch.Sql.Bound
import CompactSearch.Sql.Like

namespace CompactSearch.Sql

/-! ## Placeholders -/

/-- A supply of placeholder names: a name shared by the whole batch and the number of names issued. -/
structure Placeholders where
  batch : String
  issued : Nat
deriving DecidableEq, Repr

namespace Placeholders

/-- The name with a given number. -/
def name (batch : String) (n : Nat) : String := "p" ++ batch ++ "_" ++ Nat.repr n

/-- The next name and the supply after it. -/
def next (ids : Placeholders) : String × Placeholders :=
  (name ids.batch ids.issued, { ids with issued := ids.issued + 1 })

end Placeholders

/-- The digits of base 32: all digits and the letters other than i, l, o and u. -/
def base32Digits : List Char := "0123456789abcdefghjkmnpqrstvwxyz".toList

/-- The last `width` digits of a number in base 32. -/
def base32 : (width n : Nat) → List Char
  | 0, _ => []
  | width + 1, n => base32 width (n / 32) ++ [base32Digits.getD (n % 32) '0']

/-- The name of a batch made at a time: the time in milliseconds and 80 random bits, in 26 digits. -/
def batchName (millis random : Nat) : String := String.ofList (base32 10 millis ++ base32 16 random)

/-! ## Bindings -/

/-- Names with the values bound to them, in the order of the names. -/
abbrev Bindings := List (String × Bound)

namespace Bindings

/-- Binds a name, in place of what it was bound to before. -/
def insert (name : String) (v : Bound) : Bindings → Bindings
  | [] => [(name, v)]
  | (n, w) :: rest =>
    if name < n then (name, v) :: (n, w) :: rest
    else if name = n then (name, v) :: rest
    else (n, w) :: insert name v rest

/-- All bindings of both; the second decides where both bind a name. -/
def merge (b c : Bindings) : Bindings := c.foldl (fun acc (n, v) => insert n v acc) b

end Bindings

/-- A condition on rows. -/
structure Condition where
  text : String
  params : Bindings
deriving DecidableEq, Repr

namespace Condition

/-- A condition without placeholders. -/
def ofText (text : String) : Condition := ⟨text, []⟩

/-- The condition that every row meets. -/
def tautology : Condition := ofText "TRUE"

def isTautology (c : Condition) : Bool := c.text == "TRUE" && c.params.isEmpty

/-! ## Conditions on one field -/

/-- How a comparison is written; the colon compares for equality. -/
def comparisonText : Operator → String
  | .default | .eq => "="
  | .gte => ">="
  | .gt => ">"
  | .lte => "<="
  | .lt => "<"

def isNull (field : String) : Condition := ofText (field ++ " IS NULL")

/-- The field matches the pattern of a text. -/
def like (field value : String) (w : Wildcards) (ids : Placeholders) : Condition × Placeholders :=
  let (id, ids') := ids.next
  (⟨field ++ " LIKE @" ++ id ++ " ESCAPE '\\'", [(id, .text (likePattern w value))]⟩, ids')

/-- The field compares with a value; null needs no placeholder. -/
def compare (field : String) (op : Operator) (v : Bound) (ids : Placeholders) : Condition × Placeholders :=
  if v = .null then (isNull field, ids)
  else
    let (id, ids') := ids.next
    (⟨field ++ " " ++ comparisonText op ++ " @" ++ id, [(id, v)]⟩, ids')

/-! ## Connectives -/

/-- The parts in parentheses with a word between them. -/
def joinTexts (word : String) (parts : List Condition) : String :=
  (" " ++ word ++ " ").intercalate (parts.map fun c => "(" ++ c.text ++ ")")

/-- The bindings of all parts. -/
def joinParams (parts : List Condition) : Bindings := parts.foldl (fun acc c => acc.merge c.params) []

/-- All parts hold; without parts every row does. -/
def all (parts : List Condition) : Condition :=
  if parts.isEmpty then tautology else ⟨joinTexts "AND" parts, joinParams parts⟩

/-- Some part holds; without parts no row does. -/
def any (parts : List Condition) : Condition :=
  if parts.isEmpty then ofText "FALSE" else ⟨joinTexts "OR" parts, joinParams parts⟩

/-! ## JSON form -/

def toJson (c : Condition) : Json :=
  .object [("text", .string c.text), ("params", .object (c.params.map fun (n, v) => (n, v.toJson)))]

end Condition

end CompactSearch.Sql

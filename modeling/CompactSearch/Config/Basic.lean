/-
The configuration of both searches: a field policy for each kind of store and the rule for relative dates. No list of a
policy may hold a name of white space only, of whatever script.
-/
import CompactSearch.Policy.Basic
import CompactSearch.Sql.Compile

namespace CompactSearch

/-! ## White space -/

namespace Text

/-- Code points of white space: the ASCII controls from tab to carriage return, the spaces and the separators. -/
def blankRanges : List (Nat × Nat) := [
  (0x9, 0xd), (0x20, 0x20), (0x85, 0x85), (0xa0, 0xa0), (0x1680, 0x1680), (0x2000, 0x200a), (0x2028, 0x2029),
  (0x202f, 0x202f), (0x205f, 0x205f), (0x3000, 0x3000)]

/-- Whether a character is white space. -/
def isBlank (c : Char) : Bool := blankRanges.any fun r => decide (r.1 ≤ c.toNat ∧ c.toNat ≤ r.2)

/-- A list of characters without white space at its ends. -/
def trimChars (cs : List Char) : List Char :=
  ((cs.dropWhile isBlank).reverse.dropWhile isBlank).reverse

/-- Whether a text holds nothing but white space. -/
def isBlankText (s : String) : Bool := s.toList.all isBlank

end Text

/-! ## Configurations -/

/-- The configuration. -/
structure Config where
  document : FieldPolicy := {}
  relational : FieldPolicy := {}
  dateOverride : Sql.DateOverride := .always
deriving DecidableEq, Repr

/-- The two policies of a configuration. -/
inductive Backend where
  | document
  | relational
deriving DecidableEq, Repr

namespace Backend

def name : Backend → String
  | document => "document"
  | relational => "relational"

end Backend

namespace Config

/-- The configuration of a missing or empty file. -/
def default : Config := {}

def policy (c : Config) : Backend → FieldPolicy
  | .document => c.document
  | .relational => c.relational

/-- The first list, in the order of writing, that holds a name of white space only. -/
def blankField? (c : Config) : Option (Backend × FieldRole) :=
  [Backend.document, .relational].findSome? fun b =>
    (FieldRole.every.find? fun role => (((c.policy b).get role).getD []).any Text.isBlankText).map (b, ·)

end Config

end CompactSearch

/-
Why a text is not a query.
-/
import CompactSearch.Query.Token

namespace CompactSearch

/-- What was met at a position: a single character while reading tokens, a token while reading the grammar. -/
inductive Found where
  | char (c : Char)
  | token (t : Token)
deriving DecidableEq, Repr

/-- What could have stood there. -/
inductive Expected where
  | value
  | closingQuote
  | closeGroup
deriving DecidableEq, Repr

/-- The ways in which a text fails to be a query. Positions count characters from zero. -/
inductive ParseError where
  | empty
  | unexpectedEnd (expected : Expected)
  | unexpected (position : Nat) (found : Found) (expected : Expected)
  | unterminatedQuote (position : Nat)
  | unclosedGroup (position : Nat)
  | trailingInput (position : Nat) (found : Found)
  | tooDeep (position : Nat)
deriving DecidableEq, Repr

namespace Found

def describe : Found → String
  | char c => Text.quotedChar c
  | token t => t.describe

end Found

namespace Expected

def describe : Expected → String
  | value => "a value"
  | closingQuote => "closing quote"
  | closeGroup => "')'"

end Expected

namespace ParseError

/-- The place that the error points at, if there is one. -/
def position? : ParseError → Option Nat
  | empty | unexpectedEnd _ => none
  | unexpected p _ _ | unterminatedQuote p | unclosedGroup p | trailingInput p _ | tooDeep p => some p

def message : ParseError → String
  | empty => "empty search query"
  | unexpectedEnd expected => "expected " ++ expected.describe ++ ", got end of input"
  | unexpected p found expected =>
    "expected " ++ expected.describe ++ " at position " ++ Nat.repr p ++ ", got " ++ found.describe
  | unterminatedQuote p => "unterminated quoted value starting at position " ++ Nat.repr p
  | unclosedGroup p => "unclosed group opened at position " ++ Nat.repr p
  | trailingInput p found => "unexpected " ++ found.describe ++ " at position " ++ Nat.repr p
  | tooDeep p => "groups nested too deeply at position " ++ Nat.repr p

end ParseError

end CompactSearch

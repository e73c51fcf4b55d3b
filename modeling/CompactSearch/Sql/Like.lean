/-
Patterns of `LIKE` with a backslash as the escape character.
-/
namespace CompactSearch.Sql

/-- Which sides of a pattern stand for any run of characters. -/
structure Wildcards where
  leading : Bool
  trailing : Bool
deriving DecidableEq, Repr

namespace Wildcards

def substring : Wildcards := ⟨true, true⟩

/-- Matches what starts with the text. -/
def start : Wildcards := ⟨false, true⟩

/-- Matches what ends with the text. -/
def ending : Wildcards := ⟨true, false⟩

def none : Wildcards := ⟨false, false⟩

end Wildcards

/-- Puts a backslash in front of each character that a pattern gives a meaning. -/
def escapeLikeChars : List Char → List Char
  | [] => []
  | c :: cs =>
    if c = '\\' ∨ c = '%' ∨ c = '_' then '\\' :: c :: escapeLikeChars cs else c :: escapeLikeChars cs

/-- The pattern that matches exactly the given text. -/
def escapeLike (s : String) : String := String.ofList (escapeLikeChars s.toList)

/-- The pattern of a text with a run of any characters on the given sides. -/
def likePattern (w : Wildcards) (s : String) : String :=
  (if w.leading then "%" else "") ++ escapeLike s ++ (if w.trailing then "%" else "")

end CompactSearch.Sql

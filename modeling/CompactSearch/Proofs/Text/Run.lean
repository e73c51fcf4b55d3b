/-
Runs of characters at the front of a text: the longest one whose characters all have a property, and what follows it.
-/
import Mathlib.Data.List.TakeWhile

namespace CompactSearch

variable {p : Char → Bool}

/-- A run in front of something that it does not go on with is taken whole. -/
theorem span_of_head {cs : List Char} (rest : List Char) (h : ∀ c ∈ cs, p c = true)
    (hr : ∀ c ∈ rest.head?, p c = false) :
    (cs ++ rest).takeWhile p = cs ∧ (cs ++ rest).dropWhile p = rest := by
  rw [List.takeWhile_append_of_pos h, List.dropWhile_append_of_pos h]
  cases rest with
  | nil => simp
  | cons c rest => simp [hr c rfl]

/-- ASCII digits, at least one. -/
def IsDigits (cs : List Char) : Prop := cs ≠ [] ∧ ∀ c ∈ cs, c.isDigit = true

theorem isDigits_iff {cs : List Char} : IsDigits cs ↔ cs ≠ [] ∧ cs.all Char.isDigit = true := by
  rw [IsDigits, List.all_eq_true]

instance (cs : List Char) : Decidable (IsDigits cs) := decidable_of_iff' _ isDigits_iff

end CompactSearch

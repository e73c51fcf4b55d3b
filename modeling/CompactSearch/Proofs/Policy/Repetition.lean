/-
Names that repeat. Of a list of names, the first occurrence of each is kept, in order, and every other occurrence is
reported once, also in order (`distinctNames_eq`).
-/
import CompactSearch.Policy.Basic
import Mathlib.Data.List.Lemmas

namespace CompactSearch

/-- The occurrences of names that have occurred already: what is left without the first occurrence of each. -/
def repeats (xs : List String) : List String := xs.diff xs.eraseDups

theorem nodup_eraseDups {α : Type} [BEq α] [LawfulBEq α] : ∀ xs : List α, xs.eraseDups.Nodup
  | [] => List.nodup_nil
  | x :: xs => by
    rw [List.eraseDups_cons, List.nodup_cons]
    constructor
    · rw [List.mem_eraseDups]
      simp
    · exact nodup_eraseDups _
termination_by xs => xs.length
decreasing_by exact Nat.lt_succ_of_le (List.length_filter_le _ _)

theorem eraseDups_of_nodup {α : Type} [BEq α] [LawfulBEq α] : ∀ {xs : List α}, xs.Nodup → xs.eraseDups = xs
  | [], _ => rfl
  | x :: xs, h => by
    obtain ⟨hx, hxs⟩ := List.nodup_cons.1 h
    have hfilter : xs.filter (fun y => !y == x) = xs := by
      rw [List.filter_eq_self]
      intro y hy
      have hne : y ≠ x := ne_of_mem_of_not_mem hy hx
      simpa using hne
    rw [List.eraseDups_cons, hfilter, eraseDups_of_nodup hxs]

theorem diff_self_eq_nil {α : Type} [BEq α] [LawfulBEq α] : ∀ xs : List α, xs.diff xs = []
  | [] => rfl
  | x :: xs => by rw [List.diff_cons, List.erase_cons_head, diff_self_eq_nil xs]

/-- Names that are distinct have no repetitions to report. -/
theorem repeats_of_nodup {xs : List String} (h : xs.Nodup) : repeats xs = [] := by
  rw [repeats, eraseDups_of_nodup h, diff_self_eq_nil]

/-- The names kept are the first occurrences of those that are not seen yet. -/
theorem splitRepeated_kept : ∀ seen xs : List String,
    (splitRepeated seen xs).1 = (xs.filter fun x => decide (x ∉ seen)).eraseDups
  | _, [] => rfl
  | seen, x :: xs => by
    unfold splitRepeated
    by_cases hx : x ∈ seen
    · rw [if_pos hx, List.filter_cons_of_neg (by simpa using hx)]
      exact splitRepeated_kept seen xs
    · have hfilter : (xs.filter fun y => decide (y ∉ seen)).filter (fun y => !y == x) =
          xs.filter fun y => decide (y ∉ x :: seen) := by
        rw [List.filter_filter]
        congr 1
        funext y
        by_cases hy : y = x <;> simp [hy]
      rw [if_neg hx, List.filter_cons_of_pos (by simpa using hx), List.eraseDups_cons, hfilter]
      exact congrArg (x :: ·) (splitRepeated_kept (x :: seen) xs)

/-- The names dropped are the other occurrences. -/
theorem splitRepeated_dropped : ∀ seen xs : List String,
    (splitRepeated seen xs).2 = xs.diff (splitRepeated seen xs).1
  | _, [] => rfl
  | seen, x :: xs => by
    unfold splitRepeated
    by_cases hx : x ∈ seen
    · have hkept : x ∉ (splitRepeated seen xs).1 := by
        rw [splitRepeated_kept, List.mem_eraseDups]
        simp [hx]
      rw [if_pos hx]
      simp only
      rw [List.cons_diff_of_not_mem hkept, splitRepeated_dropped seen xs]
    · rw [if_neg hx]
      simp only
      rw [List.diff_cons, List.erase_cons_head]
      exact splitRepeated_dropped (x :: seen) xs

theorem distinctNames_eq (list : String) (xs : List String) :
    distinctNames list xs = (xs.eraseDups, (repeats xs).map (⟨list, ·⟩)) := by
  have hkept : (splitRepeated [] xs).1 = xs.eraseDups := by
    rw [splitRepeated_kept]
    simp
  have hdropped : (splitRepeated [] xs).2 = repeats xs := by rw [splitRepeated_dropped, hkept, repeats]
  rw [distinctNames, ← hkept, ← hdropped]

end CompactSearch

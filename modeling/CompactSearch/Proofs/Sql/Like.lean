/-
What a `LIKE` pattern matches where a backslash is the escape character. A pattern is read unit by unit, and a percent sign
may match any run of characters, so matching is a relation. The pattern that is bound for a value is always read, whatever
characters the value has, and matches the texts that have the value in the place that the wildcards leave it
(`like_exact`).
-/
import CompactSearch.Proofs.Text.Escape
import CompactSearch.Sql.Condition
import Mathlib.Data.List.Infix

namespace CompactSearch.Sql

/-! ## Patterns -/

/-- A unit of a pattern. -/
inductive LikeUnit where
  /-- The percent sign: any run of characters, also none. -/
  | anyRun
  /-- The underscore: any one character. -/
  | anyChar
  | exactly (c : Char)
deriving DecidableEq, Repr

/-- The characters of a pattern that do not stand for themselves. -/
def likeSigns : List Char := ['\\', '%', '_']

/-- The unit of a character without a backslash in front. -/
def likeUnit (c : Char) : LikeUnit := if c = '%' then .anyRun else if c = '_' then .anyChar else .exactly c

/-- Reads a pattern. A backslash makes one of these signs behind it stand for itself, and is an error in front of anything
else. -/
def likeUnits? : List Char → Option (List LikeUnit) := unescape? likeSigns .exactly likeUnit

/-- A text is matched by the units of a pattern from its first character to its last. -/
inductive LikeMatches : List LikeUnit → List Char → Prop
  | nil : LikeMatches [] []
  | anyRun {us : List LikeUnit} {w : List Char} (run : List Char) (h : LikeMatches us w) :
    LikeMatches (.anyRun :: us) (run ++ w)
  | anyChar {us : List LikeUnit} {w : List Char} (c : Char) (h : LikeMatches us w) :
    LikeMatches (.anyChar :: us) (c :: w)
  | exactly {us : List LikeUnit} {w : List Char} (c : Char) (h : LikeMatches us w) :
    LikeMatches (.exactly c :: us) (c :: w)

/-- Where the wildcards of a pattern leave the value `v` in a text: at any place, at the start, at the end, or alone. -/
def Wildcards.Place (w : Wildcards) (v text : List Char) : Prop :=
  match w with
  | ⟨true, true⟩ => v <:+: text
  | ⟨false, true⟩ => v <+: text
  | ⟨true, false⟩ => v <:+ text
  | ⟨false, false⟩ => v = text

/-! ## Reading -/

theorem mem_likeSigns {c : Char} : c ∈ likeSigns ↔ c = '\\' ∨ c = '%' ∨ c = '_' := by
  simp only [likeSigns, List.mem_cons, List.not_mem_nil, or_false]

theorem likeUnit_of_not_mem {c : Char} (h : c ∉ likeSigns) : likeUnit c = .exactly c := by
  simp only [mem_likeSigns, not_or] at h
  rw [likeUnit, if_neg h.2.1, if_neg h.2.2]

theorem escapes_escapeLikeChars : ∀ v : List Char, Escapes likeSigns v (escapeLikeChars v)
  | [] => .nil
  | c :: v => by
    have ih := escapes_escapeLikeChars v
    unfold escapeLikeChars
    split
    · rename_i h
      exact .escaped (mem_likeSigns.2 h) ih
    · rename_i h
      exact .bare (fun hc => h (mem_likeSigns.1 hc)) ih

/-- The units of the wildcard on one side. -/
def sideUnits (wild : Bool) : List LikeUnit := if wild then [.anyRun] else []

/-- The characters of the wildcard on one side. -/
def sideChars (wild : Bool) : List Char := if wild then ['%'] else []

theorem toList_likePattern (w : Wildcards) (v : String) :
    (likePattern w v).toList = sideChars w.leading ++ (escapeLikeChars v.toList ++ sideChars w.trailing) := by
  obtain ⟨leading, trailing⟩ := w
  cases leading <;> cases trailing <;> simp [likePattern, escapeLike, sideChars]

theorem likeUnits?_likePattern (w : Wildcards) (v : String) :
    likeUnits? (likePattern w v).toList =
      some (sideUnits w.leading ++ (v.toList.map .exactly ++ sideUnits w.trailing)) := by
  have hlast : likeUnits? (sideChars w.trailing) = some (sideUnits w.trailing) := by
    cases w.trailing <;> rfl
  have hvalue : likeUnits? (escapeLikeChars v.toList ++ sideChars w.trailing) =
      some (v.toList.map .exactly ++ sideUnits w.trailing) := by
    have hescapes := escapes_escapeLikeChars v.toList
    rw [likeUnits?, unescape?_of_escapes (by decide) (fun _ => likeUnit_of_not_mem) hescapes, ← likeUnits?, hlast,
      Option.map_some]
  rw [toList_likePattern]
  cases w.leading with
  | false => exact hvalue
  | true =>
    show likeUnits? ('%' :: (escapeLikeChars v.toList ++ sideChars w.trailing)) = _
    rw [likeUnits?, unescape?_bare (by decide), ← likeUnits?, hvalue]
    rfl

/-! ## Matching -/

section Matching

variable {us : List LikeUnit} {w : List Char}

theorem likeMatches_nil : LikeMatches [] w ↔ w = [] := by
  constructor
  · rintro ⟨⟩
    rfl
  · rintro rfl
    exact .nil

theorem likeMatches_anyRun : LikeMatches (.anyRun :: us) w ↔ ∃ rest, rest <:+ w ∧ LikeMatches us rest := by
  constructor
  · rintro ⟨⟩
    rename_i rest run h
    exact ⟨rest, ⟨run, rfl⟩, h⟩
  · rintro ⟨rest, ⟨run, rfl⟩, h⟩
    exact .anyRun run h

/-- Characters that stand for themselves match themselves and nothing else. -/
theorem likeMatches_exactly : ∀ {v w : List Char},
    LikeMatches (v.map .exactly ++ us) w ↔ ∃ rest, w = v ++ rest ∧ LikeMatches us rest
  | [], w => by simp
  | c :: v, w => by
    constructor
    · rintro ⟨⟩
      rename_i w h
      obtain ⟨rest, rfl, hr⟩ := likeMatches_exactly.1 h
      exact ⟨rest, rfl, hr⟩
    · rintro ⟨rest, rfl, hr⟩
      exact .exactly c (likeMatches_exactly.2 ⟨rest, rfl, hr⟩)

/-- Behind the value there may be anything, or nothing. -/
theorem likeMatches_trailing {v : List Char} (wild : Bool) :
    LikeMatches (v.map .exactly ++ sideUnits wild) w ↔ if wild then v <+: w else v = w := by
  rw [likeMatches_exactly]
  cases wild with
  | true =>
    constructor
    · rintro ⟨rest, rfl, -⟩
      exact List.prefix_append v rest
    · rintro ⟨rest, rfl⟩
      exact ⟨rest, rfl, likeMatches_anyRun.2 ⟨[], List.nil_suffix, .nil⟩⟩
  | false =>
    constructor
    · rintro ⟨rest, rfl, h⟩
      rw [likeMatches_nil.1 h]
      exact (List.append_nil v).symm
    · rintro rfl
      exact ⟨[], (List.append_nil v).symm, .nil⟩

/-- The wildcards stay at work on both sides, whatever the value starts and ends with. -/
theorem likeMatches_place {v : List Char} (s : Wildcards) :
    LikeMatches (sideUnits s.leading ++ (v.map .exactly ++ sideUnits s.trailing)) w ↔ s.Place v w := by
  obtain ⟨leading, trailing⟩ := s
  cases leading with
  | false =>
    refine (likeMatches_trailing trailing).trans ?_
    cases trailing <;> rfl
  | true =>
    have hrun : LikeMatches (sideUnits true ++ (v.map .exactly ++ sideUnits trailing)) w ↔
        ∃ rest, rest <:+ w ∧ if trailing then v <+: rest else v = rest := by
      simp only [← likeMatches_trailing]
      exact likeMatches_anyRun
    refine hrun.trans ?_
    cases trailing with
    | true =>
      show (∃ rest, rest <:+ w ∧ v <+: rest) ↔ v <:+: w
      rw [List.infix_iff_prefix_suffix]
      exact exists_congr fun rest => and_comm
    | false =>
      constructor
      · rintro ⟨rest, hs, rfl⟩
        exact hs
      · intro hs
        exact ⟨v, hs, rfl⟩

end Matching

/-- The pattern that is bound for a value is well formed, and matches the texts that have the value, character by
character, in the place that the wildcards leave it. -/
theorem like_exact (field v : String) (w : Wildcards) (ids : Placeholders) :
    ∃ name pattern units, (Condition.like field v w ids).1.params = [(name, .text pattern)] ∧
      likeUnits? pattern.toList = some units ∧
      ∀ text : String, LikeMatches units text.toList ↔ w.Place v.toList text.toList :=
  ⟨_, likePattern w v, _, rfl, likeUnits?_likePattern w v, fun _ => likeMatches_place w⟩

end CompactSearch.Sql

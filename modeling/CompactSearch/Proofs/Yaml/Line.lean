/-
Where a line of a YAML text starts. Behind a break, the spaces in front of the first word are skipped, their number is
the column of the word, and a key or an entry may start there (`toToken_newline`). In a text that is written, the line
behind a scalar starts with an entry of a collection, that is with a letter or a dash (`StartsEntry`).
-/
import CompactSearch.Yaml.Reader
import CompactSearch.Yaml.Writer
import Mathlib.Data.List.TakeWhile

namespace CompactSearch.Yaml

/-! ## Characters -/

variable {c : Char} {cs r t : List Char}

theorem isBlank_iff : isBlank c = true ↔ c = ' ' ∨ c = '\t' := by
  simp [isBlank]

theorem isBreak_iff : isBreak c = true ↔ c = '\n' ∨ c = '\u2028' ∨ c = '\u2029' := by
  simp [isBreak, or_assoc]

theorem isBlank_of_isBreak (h : isBreak c = true) : isBlank c = false := by
  rcases isBreak_iff.1 h with rfl | rfl | rfl <;> rfl

/-- A character of one class is none of another. -/
theorem ne_of_class {p : Char → Bool} {d : Char} (h : p c = true) (hd : p d = false) : c ≠ d := by
  rintro rfl
  rw [h] at hd
  cases hd

theorem isBlank_of_isAlpha (h : c.isAlpha = true) : isBlank c = false := by
  rw [Bool.eq_false_iff, ne_eq, isBlank_iff]
  rintro (rfl | rfl) <;> exact absurd h (by decide)

theorem isBreak_of_isAlpha (h : c.isAlpha = true) : isBreak c = false := by
  rw [Bool.eq_false_iff, ne_eq, isBreak_iff]
  rintro (rfl | rfl | rfl) <;> exact absurd h (by decide)

theorem endsWord_append (h : cs ≠ []) (r : List Char) : endsWord (cs ++ r) = endsWord cs := by
  cases cs with
  | nil => exact absurd rfl h
  | cons c cs => rfl

/-! ## Positions -/

namespace Position

theorem after_of_not_isBreak {p : Position} (h : isBreak c = false) : p.after c = p.right 1 := by
  simp [after, h]

theorem after_of_isBreak {p : Position} (h : isBreak c = true) : p.after c = ⟨p.line + 1, 0⟩ := by
  simp [after, h]

@[simp] theorem right_right (p : Position) (m n : Nat) : (p.right m).right n = p.right (m + n) := by
  simp [right, Nat.add_assoc]

@[simp] theorem column_right (p : Position) (n : Nat) : (p.right n).column = p.column + n := rfl

end Position

/-! ## Words -/

/-- The column of the first word of a line. -/
def indentOf (t : List Char) : Nat := (t.takeWhile (· == ' ')).length

/-- A line from its first word on. -/
def wordOf (t : List Char) : List Char := t.dropWhile (· == ' ')

theorem spaces_succ (n : Nat) : spaces (n + 1) = ' ' :: spaces n := List.replicate_succ

theorem spaces_append_wordOf (t : List Char) : spaces (indentOf t) ++ wordOf t = t := by
  have hspaces : spaces (indentOf t) = t.takeWhile (· == ' ') := by
    refine (List.eq_replicate_of_mem ?_).symm
    intro c hc
    simpa using List.mem_takeWhile_imp hc
  rw [hspaces, wordOf, List.takeWhile_append_dropWhile]

theorem indentOf_spaces_cons (hc : c ≠ ' ') (n : Nat) (r : List Char) : indentOf (spaces n ++ c :: r) = n := by
  induction n with
  | zero => simp [indentOf, spaces, hc]
  | succ n ih => simpa [indentOf, spaces_succ] using ih

theorem wordOf_spaces_cons (hc : c ≠ ' ') (n : Nat) (r : List Char) : wordOf (spaces n ++ c :: r) = c :: r := by
  induction n with
  | zero => simp [wordOf, spaces, hc]
  | succ n ih => simpa [wordOf, spaces_succ] using ih

/-- A text that does not start with something to be skipped. -/
def StartsToken (r : List Char) : Prop :=
  ∀ c ∈ r.head?, isBlank c = false ∧ isBreak c = false ∧ c ≠ '#' ∧ c ≠ byteOrderMark

theorem startsToken_of_isAlpha (h : c.isAlpha = true) : StartsToken (c :: r) := by
  rintro _ ⟨⟩
  exact ⟨isBlank_of_isAlpha h, isBreak_of_isAlpha h, ne_of_class h rfl, ne_of_class h (by decide)⟩

theorem startsToken_colon : StartsToken (':' :: r) := by
  rintro _ ⟨⟩
  decide

/-- A line that starts with an entry of a collection, or the end of the text. -/
def StartsEntry (t : List Char) : Prop := ∀ c ∈ (wordOf t).head?, c.isAlpha = true ∨ c = '-'

theorem startsEntry_nil : StartsEntry [] := by
  rintro _ ⟨⟩

theorem startsEntry_spaces_cons (n : Nat) (h : c.isAlpha = true ∨ c = '-') : StartsEntry (spaces n ++ c :: r) := by
  have hc : c ≠ ' ' := by
    rintro rfl
    exact absurd h (by decide)
  rw [StartsEntry, wordOf_spaces_cons hc]
  rintro _ ⟨⟩
  exact h

namespace StartsEntry

theorem startsToken (h : StartsEntry t) : StartsToken (wordOf t) := by
  intro c hc
  rcases h c hc with ha | rfl
  · exact ⟨isBlank_of_isAlpha ha, isBreak_of_isAlpha ha, ne_of_class ha rfl, ne_of_class ha (by decide)⟩
  · decide

theorem head_ne_colon (h : StartsEntry t) : (wordOf t).head? ≠ some ':' := by
  intro hc
  exact absurd (h ':' hc) (by decide)

end StartsEntry

/-! ## Gaps -/

theorem skipGaps_token {p : Position} {fresh : Bool} (h : StartsToken r) :
    skipGaps false false p fresh r = (p, fresh, r) := by
  cases r with
  | nil => rfl
  | cons c r =>
    obtain ⟨hblank, hbreak, hsharp, hmark⟩ := h c rfl
    have hspace : c ≠ ' ' := by
      rintro rfl
      cases hblank
    have htab : c ≠ '\t' := by
      rintro rfl
      cases hblank
    simp [skipGaps, hbreak, hsharp, hmark, hspace, htab]

theorem skipGaps_spaces {fresh : Bool} (h : StartsToken r) : ∀ (n : Nat) (p : Position),
    skipGaps false false p fresh (spaces n ++ r) = (p.right n, fresh, r)
  | 0, _ => skipGaps_token h
  | n + 1, p => by
    have hafter : p.after ' ' = p.right 1 := rfl
    rw [spaces_succ, List.cons_append, skipGaps, if_neg (by decide), if_pos (by simp), hafter, skipGaps_spaces h n,
      Position.right_right, Nat.add_comm]

namespace Cursor

variable {k : Cursor}

/-- The cursor at the first word of a line, where an entry may start. -/
def onLine (k : Cursor) (line : Nat) (t : List Char) : Cursor :=
  { k with rest := wordOf t, position := ⟨line, indentOf t⟩, fresh := true }

theorem onLine_spaces_cons (hc : c ≠ ' ') (line n : Nat) :
    k.onLine line (spaces n ++ c :: r) = { k with rest := c :: r, position := ⟨line, n⟩, fresh := true } := by
  rw [onLine, wordOf_spaces_cons hc, indentOf_spaces_cons hc]

/-- A cursor at a word stays where it is. -/
theorem toToken_of_startsToken (h : StartsToken k.rest) : k.toToken false = k := by
  rw [toToken, skipGaps_token h]

theorem toToken_onLine {line : Nat} (h : StartsEntry t) : (k.onLine line t).toToken false = k.onLine line t :=
  toToken_of_startsToken h.startsToken

/-- A blank in front of a word of the same line. -/
theorem toToken_blank (hk : k.rest = ' ' :: r) (h : StartsToken r) :
    k.toToken false = { k.skip 1 with fresh := k.fresh } := by
  have hspaces : k.rest = spaces 1 ++ r := hk
  rw [toToken, hspaces, skipGaps_spaces h, skip, hk, List.drop_one, List.tail_cons]

/-- The first word of the next line. -/
theorem toToken_newline (hk : k.rest = '\n' :: t) (h : StartsEntry t) :
    k.toToken false = k.onLine (k.position.line + 1) t := by
  -- behind the break a key may start again, whatever was true in front of it
  have hskip : skipGaps false false k.position k.fresh ('\n' :: t) =
      skipGaps false false ⟨k.position.line + 1, 0⟩ true (spaces (indentOf t) ++ wordOf t) := by
    rw [spaces_append_wordOf, skipGaps, if_pos (by decide), Bool.not_false, Bool.or_true]
    rfl
  rw [toToken, hk, hskip, skipGaps_spaces h.startsToken, Position.right, Nat.zero_add]
  rfl

end Cursor

end CompactSearch.Yaml

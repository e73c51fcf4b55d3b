/-
Texts in a notation where a backslash takes the meaning from the character behind it. A reader of such a notation gives
every bare character a meaning and every escaped one to itself, so what it reads of a text with all escapes in place is
the text, character by character (`unescape?_of_escapes`).
-/
import Mathlib.Data.List.Basic

namespace CompactSearch

variable {α : Type} {escapable : List Char} {literal bare : Char → α} {c : Char} {cs v p : List Char}

/-- Reads a text with escapes. A backslash makes the character behind it stand for itself, and it is an error if there is
none or if this character is not one that is escaped. -/
def unescape? (escapable : List Char) (literal bare : Char → α) : List Char → Option (List α)
  | [] => some []
  | ['\\'] => none
  | '\\' :: c :: cs =>
    if c ∈ escapable then (unescape? escapable literal bare cs).map (literal c :: ·) else none
  | c :: cs => (unescape? escapable literal bare cs).map (bare c :: ·)

/-- The second text is the first one with a backslash in front of every character that is escaped, and of no other. -/
inductive Escapes (escapable : List Char) : List Char → List Char → Prop
  | nil : Escapes escapable [] []
  | bare {c : Char} {v p : List Char} (h : c ∉ escapable) (hp : Escapes escapable v p) :
    Escapes escapable (c :: v) (c :: p)
  | escaped {c : Char} {v p : List Char} (h : c ∈ escapable) (hp : Escapes escapable v p) :
    Escapes escapable (c :: v) ('\\' :: c :: p)

theorem unescape?_escaped (h : c ∈ escapable) : unescape? escapable literal bare ('\\' :: c :: cs) =
    (unescape? escapable literal bare cs).map (literal c :: ·) := by
  rw [unescape?, if_pos h]

theorem unescape?_bare (h : c ≠ '\\') : unescape? escapable literal bare (c :: cs) =
    (unescape? escapable literal bare cs).map (bare c :: ·) := by
  rw [unescape?]
  · rintro rfl
    exact absurd rfl h
  · rintro d ds rfl
    exact absurd rfl h

/-- A text with its escapes is read back as its own characters, in front of any rest, if the backslash is escaped too and
the characters that are not escaped stand for themselves. -/
theorem unescape?_of_escapes (hb : '\\' ∈ escapable) (hbare : ∀ c ∉ escapable, bare c = literal c)
    (h : Escapes escapable v p) (rest : List Char) : unescape? escapable literal bare (p ++ rest) =
      (unescape? escapable literal bare rest).map (v.map literal ++ ·) := by
  induction h with
  | nil => exact Option.map_id'.symm
  | @bare c v p hc hp ih =>
    have hne : c ≠ '\\' := by
      rintro rfl
      exact hc hb
    rw [List.cons_append, unescape?_bare hne, ih, Option.map_map, hbare c hc]
    rfl
  | @escaped c v p hc hp ih =>
    rw [List.cons_append, List.cons_append, unescape?_escaped hc, ih, Option.map_map]
    rfl

end CompactSearch

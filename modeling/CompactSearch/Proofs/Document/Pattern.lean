/-
What the patterns of a document filter match. A regular expression is read in two stages, as the notation has it: a
backslash settles first which characters are signs, and what the signs mean follows from a grammar of alternatives,
sequences, repetitions and groups. The pattern that a leaf is compiled to has every sign behind a backslash, so it has
one reading, and a search for it finds the text of the leaf's value and nothing else (`compile_patterns`).
-/
import CompactSearch.Proofs.Document.Meaning
import CompactSearch.Proofs.Text.Escape

namespace CompactSearch.Document

/-! ## Regular expressions -/

/-- A regular expression. -/
inductive Regex where
  | empty
  | char (c : Char)
  | any
  /-- The start of the text. -/
  | start
  /-- The end of the text. -/
  | stop
  | seq (r s : Regex)
  | alt (r s : Regex)
  | star (r : Regex)
deriving DecidableEq, Repr

namespace Regex

/-- The expression matches the middle one of three pieces that a text is made of. -/
inductive Meets : Regex → List Char → List Char → List Char → Prop
  | empty {b a : List Char} : Meets .empty b [] a
  | char {c : Char} {b a : List Char} : Meets (.char c) b [c] a
  | any {c : Char} {b a : List Char} (h : c ≠ '\n') : Meets .any b [c] a
  | start {a : List Char} : Meets .start [] [] a
  | stop {b : List Char} : Meets .stop b [] []
  | seq {r s : Regex} {b v w a : List Char} (hr : Meets r b v (w ++ a)) (hs : Meets s (b ++ v) w a) :
    Meets (.seq r s) b (v ++ w) a
  | left {r s : Regex} {b w a : List Char} (h : Meets r b w a) : Meets (.alt r s) b w a
  | right {r s : Regex} {b w a : List Char} (h : Meets s b w a) : Meets (.alt r s) b w a
  | none {r : Regex} {b a : List Char} : Meets (.star r) b [] a
  | more {r : Regex} {b v w a : List Char} (hr : Meets r b v (w ++ a)) (hs : Meets (.star r) (b ++ v) w a) :
    Meets (.star r) b (v ++ w) a

/-- A search for the expression succeeds: it matches some piece of the text. -/
def Found (r : Regex) (text : List Char) : Prop := ∃ b w a, b ++ w ++ a = text ∧ r.Meets b w a

/-- The characters of a text, one behind the other. -/
def word : List Char → Regex
  | [] => .empty
  | c :: cs => .seq (.char c) (word cs)

end Regex

/-! ## The notation -/

/-- The characters that are escaped: the signs of the notation, the backslash, and what is a sign inside brackets or in a
spaced-out notation. -/
def metaChars : List Char :=
  ['\\', '.', '+', '*', '?', '(', ')', '|', '[', ']', '\x7b', '\x7d', '^', '$', '#', '&', '-', '~']

/-- The signs of the notation. -/
def signs : List Char := ['.', '+', '*', '?', '(', ')', '|', '[', ']', '\x7b', '\x7d', '^', '$']

/-- A character of a regular expression as the grammar sees it. -/
inductive Symbol where
  /-- It stands for itself. -/
  | literal (c : Char)
  | sign (c : Char)
deriving DecidableEq, Repr

/-- A character without a backslash in front. -/
def symbol (c : Char) : Symbol := if c ∈ signs then .sign c else .literal c

/-- Reads the symbols of a regular expression. Behind a backslash only the characters that are escaped stand for
themselves; others mean something else there, or nothing. -/
def symbols? : List Char → Option (List Symbol) := unescape? metaChars .literal symbol

mutual

/-- Sequences with bars between them. -/
inductive Alternatives : List Symbol → Regex → Prop
  | one {p : List Symbol} {r : Regex} (h : Sequence p r) : Alternatives p r
  | more {p q : List Symbol} {r s : Regex} (h : Sequence p r) (ht : Alternatives q s) :
    Alternatives (p ++ .sign '|' :: q) (.alt r s)

/-- Repetitions one behind the other. -/
inductive Sequence : List Symbol → Regex → Prop
  | nil : Sequence [] .empty
  | cons {p q : List Symbol} {r s : Regex} (h : Repetition p r) (ht : Sequence q s) : Sequence (p ++ q) (.seq r s)

/-- An item with or without a sign of repetition. -/
inductive Repetition : List Symbol → Regex → Prop
  | once {p : List Symbol} {r : Regex} (h : Item p r) : Repetition p r
  | star {p : List Symbol} {r : Regex} (h : Item p r) : Repetition (p ++ [.sign '*']) (.star r)
  | plus {p : List Symbol} {r : Regex} (h : Item p r) : Repetition (p ++ [.sign '+']) (.seq r (.star r))
  | optional {p : List Symbol} {r : Regex} (h : Item p r) : Repetition (p ++ [.sign '?']) (.alt r .empty)

/-- A single character, a place in the text, or a group. Classes in brackets and counts in braces are left out: a pattern
with one of these signs has no reading here. -/
inductive Item : List Symbol → Regex → Prop
  | literal {c : Char} : Item [.literal c] (.char c)
  | any : Item [.sign '.'] .any
  | start : Item [.sign '^'] .start
  | stop : Item [.sign '$'] .stop
  | group {p : List Symbol} {r : Regex} (h : Alternatives p r) : Item (.sign '(' :: (p ++ [.sign ')'])) r

end

/-- A pattern is a way to write a regular expression. -/
def Denotes (p : List Char) (r : Regex) : Prop := ∃ symbols, symbols? p = some symbols ∧ Alternatives symbols r

/-- A pattern that is well formed, escapes everything, and finds the text `v` in other texts wherever it occurs. -/
structure FindsLiterally (p v : String) : Prop where
  escapes : Escapes metaChars v.toList p.toList
  wellFormed : ∃ r, Denotes p.toList r
  found_iff : ∀ r, Denotes p.toList r → ∀ text : String, r.Found text.toList ↔ v.toList <:+: text.toList

/-! ## Escaped texts -/

theorem isMeta_iff {c : Char} : isMeta c = true ↔ c ∈ metaChars := by
  have hchars : "\\.+*?()|[]\x7b\x7d^$#&-~".toList = metaChars := by decide
  rw [isMeta, hchars, List.contains_iff_mem]

theorem escapes_escapeChars : ∀ v : List Char, Escapes metaChars v (escapeChars v)
  | [] => .nil
  | c :: v => by
    have ih := escapes_escapeChars v
    unfold escapeChars
    split
    · rename_i h
      exact .escaped (isMeta_iff.1 h) ih
    · rename_i h
      exact .bare (fun hc => h (isMeta_iff.2 hc)) ih

/-- Every sign of the notation is escaped. -/
theorem symbol_of_not_mem {c : Char} (h : c ∉ metaChars) : symbol c = .literal c := by
  have hall : signs.all (· ∈ metaChars) = true := by decide
  have hs : c ∉ signs := fun hc => h (by simpa using List.all_eq_true.1 hall c hc)
  rw [symbol, if_neg hs]

/-- So every character of the text is a literal. -/
theorem symbols?_escapeChars (v : List Char) : symbols? (escapeChars v) = some (v.map .literal) := by
  have h : symbols? (escapeChars v ++ []) = some (v.map .literal ++ []) :=
    unescape?_of_escapes (by decide) (fun _ => symbol_of_not_mem) (escapes_escapeChars v) []
  rwa [List.append_nil, List.append_nil] at h

/-! ## Readings of literals -/

section Readings

variable {p : List Symbol} {r : Regex}

/-- Nothing in a row of symbols is a sign. -/
def NoSign (p : List Symbol) : Prop := ∀ c, .sign c ∉ p

theorem item_of_noSign (h : Item p r) (hp : NoSign p) : ∃ c, p = [.literal c] ∧ r = .char c := by
  cases h with
  | literal => exact ⟨_, rfl, rfl⟩
  | any | start | stop | group => exact absurd List.mem_cons_self (hp _)

theorem repetition_of_noSign (h : Repetition p r) (hp : NoSign p) : ∃ c, p = [.literal c] ∧ r = .char c := by
  cases h with
  | once h => exact item_of_noSign h hp
  | star | plus | optional => exact absurd (List.mem_append_right _ List.mem_cons_self) (hp _)

/-- A sequence without signs is a word. -/
theorem sequence_of_noSign : ∀ {p : List Symbol} {r : Regex}, Sequence p r → NoSign p →
    ∃ cs, p = cs.map .literal ∧ r = .word cs
  | _, _, .nil, _ => ⟨[], rfl, rfl⟩
  | _, _, .cons h ht, hp => by
    obtain ⟨c, rfl, rfl⟩ := repetition_of_noSign h fun c hc => hp c (List.mem_append_left _ hc)
    obtain ⟨cs, rfl, rfl⟩ := sequence_of_noSign ht fun c hc => hp c (List.mem_append_right _ hc)
    exact ⟨c :: cs, rfl, rfl⟩

theorem sequence_literals : ∀ cs : List Char, Sequence (cs.map .literal) (.word cs)
  | [] => .nil
  | _ :: cs => .cons (.once .literal) (sequence_literals cs)

/-- Literals have one reading, which is the word that they spell. -/
theorem alternatives_literals {cs : List Char} : Alternatives (cs.map .literal) r ↔ r = .word cs := by
  have hno : NoSign (cs.map .literal) := by
    intro c hc
    obtain ⟨d, -, hd⟩ := List.mem_map.1 hc
    cases hd
  constructor
  · intro h
    -- A derivation is split by its last rule only when the symbols are a variable.
    generalize hp : cs.map Symbol.literal = p at h hno
    cases h with
    | one h =>
      obtain ⟨ds, rfl, rfl⟩ := sequence_of_noSign h hno
      rw [List.map_injective_iff.2 (fun _ _ h => Symbol.literal.inj h) hp]
    | more => exact absurd (List.mem_append_right _ List.mem_cons_self) (hno _)
  · rintro rfl
    exact .one (sequence_literals cs)

end Readings

/-! ## Searching for a word -/

namespace Regex

theorem meets_word : ∀ {cs b w a : List Char}, (word cs).Meets b w a ↔ w = cs
  | [], b, w, a => by
    constructor
    · rintro ⟨⟩
      rfl
    · rintro rfl
      exact .empty
  | c :: cs, b, w, a => by
    constructor
    · intro h
      cases h with
      | seq hr hs =>
        cases hr
        rw [meets_word.1 hs]
        rfl
    · rintro rfl
      exact .seq (v := [c]) .char (meets_word.2 rfl)

theorem found_word {cs text : List Char} : (word cs).Found text ↔ cs <:+: text := by
  constructor
  · rintro ⟨b, w, a, rfl, h⟩
    rw [meets_word.1 h]
    exact List.infix_append b cs a
  · rintro ⟨b, a, rfl⟩
    exact ⟨b, cs, a, rfl, meets_word.2 rfl⟩

end Regex

theorem denotes_literalPattern {v : String} {r : Regex} :
    Denotes (literalPattern v).toList r ↔ r = .word v.toList := by
  have hs : symbols? (literalPattern v).toList = some (v.toList.map .literal) := by
    rw [literalPattern, String.toList_ofList, symbols?_escapeChars]
  constructor
  · rintro ⟨symbols, h, ha⟩
    rw [hs] at h
    cases h
    exact alternatives_literals.1 ha
  · intro h
    exact ⟨_, hs, alternatives_literals.2 h⟩

theorem findsLiterally_literalPattern (v : String) : FindsLiterally (literalPattern v) v where
  escapes := by
    rw [literalPattern, String.toList_ofList]
    exact escapes_escapeChars v.toList
  wellFormed := ⟨_, denotes_literalPattern.2 rfl⟩
  found_iff := by
    intro r h text
    rw [denotes_literalPattern.1 h]
    exact Regex.found_word

/-! ## Patterns of a filter -/

section Filter

variable {policy : FieldPolicy} {now : Instant}

theorem compared_ne_like (op : Operator) (x : Operand) (p : String) : compared op x ≠ .like p := by
  cases op <;> simp [compared, Operator.comparison?]

theorem like_of_keyedCondition {field p : String} {op : Operator} {v : Value}
    (h : keyedCondition policy now field op v = .like p) : p = literalPattern v.text := by
  rw [keyedCondition_eq] at h
  split at h
  · cases h
  split at h
  · exact absurd h (compared_ne_like _ _ _)
  split at h
  · cases h
    rfl
  · exact absurd h (compared_ne_like _ _ _)

theorem like_of_bareCondition {field p : String} {v : Value} (h : bareCondition policy field v = .like p) :
    p = literalPattern v.text := by
  rw [bareCondition_eq] at h
  split at h
  · cases h
  split at h
  · cases h
    rfl
  · cases h

/-- A leaf of either kind gives no other pattern than that of its value. -/
theorem like_of_leafFilter {l : Leaf} {part : Filter} (h : leafFilter policy now l = .ok part) {pr : Predicate}
    (hpr : pr ∈ part.atoms) {p : String} (hp : pr.condition = .like p) : p = literalPattern l.value.text := by
  cases l with
  | keyed field op v negated =>
    cases h
    rw [Formula.atoms, List.mem_singleton] at hpr
    subst hpr
    exact like_of_keyedCondition hp
  | bare v negated =>
    obtain ⟨fields, -, hatoms⟩ := atoms_leafFilter_bare policy now h
    rw [hatoms] at hpr
    obtain ⟨field, -, rfl⟩ := List.mem_map.1 hpr
    exact like_of_bareCondition hp

end Filter

/-- Patterns match literally. Each leaf of a compiled query has its part of the filter, and every pattern in this part,
of a keyed leaf or a bare one, is well formed, has all signs escaped, and is found in just the texts that the text of the
leaf's value occurs in. -/
theorem compile_patterns (policy : FieldPolicy) (now : Instant) (q : Query) (f : Filter)
    (h : compile policy now q = .ok f) :
    ∃ parts : List Filter, f.atoms = parts.flatMap Formula.atoms ∧
      List.Forall₂ (fun l part => leafFilter policy now l = .ok part ∧
        ∀ pr ∈ part.atoms, ∀ p, pr.condition = .like p → FindsLiterally p l.value.text) q.atoms parts := by
  obtain ⟨parts, hparts, hatoms⟩ := Formula.atoms_expand h
  refine ⟨parts, hatoms, hparts.imp fun l part hl => ⟨hl, fun pr hpr p hp => ?_⟩⟩
  rw [like_of_leafFilter hl hpr hp]
  exact findsLiterally_literalPattern l.value.text

/-- The colon on a field of strings, and a bare value under a sign of negation. -/
theorem compile_patterns_price :
    let policy : FieldPolicy := { any := some ["note"] }
    let q : Query := .all [.atom (.keyed "path" .default (.string "a.b") false), .atom (.bare (.string "$1") true)]
    let f : Filter := .all [.atom ⟨"path", .like "a\\.b", false⟩, .all [.atom ⟨"note", .like "\\$1", true⟩]]
    compile policy ⟨0, 0⟩ q = .ok f ∧ FindsLiterally "a\\.b" "a.b" ∧ FindsLiterally "\\$1" "$1" := by
  intro policy q f
  have hf : compile policy ⟨0, 0⟩ q = .ok f := by decide +kernel
  obtain ⟨parts, -, hparts⟩ := compile_patterns policy ⟨0, 0⟩ q f hf
  have hatoms : q.atoms = [.keyed "path" .default (.string "a.b") false, .bare (.string "$1") true] := rfl
  rw [hatoms] at hparts
  obtain _ | ⟨⟨hpath, hlike⟩, _ | ⟨⟨hnote, hlike'⟩, _⟩⟩ := hparts
  have hpath' : leafFilter policy ⟨0, 0⟩ (.keyed "path" .default (.string "a.b") false) =
      .ok (.atom ⟨"path", .like "a\\.b", false⟩) := by decide +kernel
  have hnote' : leafFilter policy ⟨0, 0⟩ (.bare (.string "$1") true) =
      .ok (.all [.atom ⟨"note", .like "\\$1", true⟩]) := by decide +kernel
  rw [hpath'] at hpath
  rw [hnote'] at hnote
  cases hpath
  cases hnote
  exact ⟨hf, hlike _ List.mem_cons_self _ rfl, hlike' _ List.mem_cons_self _ rfl⟩

end CompactSearch.Document

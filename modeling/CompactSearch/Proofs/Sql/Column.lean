/-
Column names, said without the automaton that checks them: identifiers of ASCII letters, digits and underscores, none
of which starts with a digit, with points between them and nothing in front or behind.
-/
import CompactSearch.Sql.Compile

namespace CompactSearch.Sql

/-- The characters that a column is written with. -/
def isColumnChar (c : Char) : Bool := isNameChar c || c == '.'

/-- A letter or an underscore, then letters, digits and underscores. -/
def IsIdentifier (cs : List Char) : Prop :=
  ∃ c rest, cs = c :: rest ∧ isNameStart c = true ∧ ∀ d ∈ rest, isNameChar d = true

/-- Identifiers with points between them. -/
def IsDotted (cs : List Char) : Prop :=
  ∃ (first : List Char) (more : List (List Char)),
    IsIdentifier first ∧ (∀ id ∈ more, IsIdentifier id) ∧ cs = first ++ more.flatMap ('.' :: ·)

/-- The rest of an identifier, and further ones after points. -/
def IsDottedRest (cs : List Char) : Prop :=
  ∃ (word : List Char) (more : List (List Char)),
    (∀ d ∈ word, isNameChar d = true) ∧ (∀ id ∈ more, IsIdentifier id) ∧ cs = word ++ more.flatMap ('.' :: ·)

theorem isDotted_cons {c : Char} {cs : List Char} : IsDotted (c :: cs) ↔ isNameStart c = true ∧ IsDottedRest cs := by
  constructor
  · rintro ⟨first, more, ⟨d, word, rfl, hd, hw⟩, hm, h⟩
    rw [List.cons_append, List.cons.injEq] at h
    obtain ⟨rfl, rfl⟩ := h
    exact ⟨hd, word, more, hw, hm, rfl⟩
  · rintro ⟨hc, word, more, hw, hm, rfl⟩
    exact ⟨c :: word, more, ⟨c, word, rfl, hc, hw⟩, hm, rfl⟩

theorem isDottedRest_nil : IsDottedRest [] := ⟨[], [], by simp, by simp, rfl⟩

theorem isDottedRest_cons {c : Char} {cs : List Char} :
    IsDottedRest (c :: cs) ↔ (c = '.' ∧ IsDotted cs) ∨ (c ≠ '.' ∧ isNameChar c = true ∧ IsDottedRest cs) := by
  constructor
  · rintro ⟨word, more, hw, hm, h⟩
    cases word with
    | nil =>
      cases more with
      | nil => cases h
      | cons id more =>
        rw [List.nil_append, List.flatMap_cons, List.cons_append, List.cons.injEq] at h
        obtain ⟨rfl, rfl⟩ := h
        exact .inl ⟨rfl, id, more, hm id List.mem_cons_self, fun i hi => hm i (List.mem_cons_of_mem _ hi), rfl⟩
    | cons d word =>
      rw [List.cons_append, List.cons.injEq] at h
      obtain ⟨rfl, rfl⟩ := h
      have hd := hw c List.mem_cons_self
      refine .inr ⟨?_, hd, word, more, fun i hi => hw i (List.mem_cons_of_mem _ hi), hm, rfl⟩
      rintro rfl
      exact absurd hd (by decide)
  · rintro (⟨rfl, first, more, hf, hm, rfl⟩ | ⟨-, hc, word, more, hw, hm, rfl⟩)
    · exact ⟨[], first :: more, by simp, List.forall_mem_cons.2 ⟨hf, hm⟩, rfl⟩
    · exact ⟨c :: word, more, List.forall_mem_cons.2 ⟨hc, hw⟩, hm, rfl⟩

theorem isColumnFrom_iff : ∀ (cs : List Char),
    (isColumnFrom true cs = true ↔ IsDotted cs) ∧ (isColumnFrom false cs = true ↔ IsDottedRest cs)
  | [] => by
    refine ⟨⟨fun h => (by cases h), ?_⟩, fun _ => isDottedRest_nil, fun _ => rfl⟩
    rintro ⟨first, more, ⟨c, rest, rfl, -⟩, -, h⟩
    cases h
  | c :: cs => by
    obtain ⟨ht, hf⟩ := isColumnFrom_iff cs
    rw [isDotted_cons, isDottedRest_cons, ← ht, ← hf, isColumnFrom, isColumnFrom]
    by_cases hc : c = '.' <;> simp [hc]

/-- A column is a list of identifiers with points between them, as a whole. -/
theorem isColumn_iff {field : String} : isColumn field = true ↔ IsDotted field.toList :=
  (isColumnFrom_iff field.toList).1

theorem isColumnChar_of_identifier {cs : List Char} (h : IsIdentifier cs) : ∀ c ∈ cs, isColumnChar c = true := by
  obtain ⟨c, rest, rfl, hc, hr⟩ := h
  intro d hd
  rcases List.mem_cons.1 hd with rfl | hd'
  · rw [isNameStart, Bool.or_eq_true] at hc
    rcases hc with hc | hc <;> simp [isColumnChar, isNameChar, Char.isAlphanum, hc]
  · rw [isColumnChar, hr d hd', Bool.true_or]

theorem isColumnChar_of_isColumn {field : String} (h : isColumn field = true) :
    ∀ c ∈ field.toList, isColumnChar c = true := by
  obtain ⟨first, more, hf, hm, e⟩ := isColumn_iff.1 h
  intro c hc
  rw [e, List.mem_append, List.mem_flatMap] at hc
  rcases hc with hc | ⟨id, hid, hc⟩
  · exact isColumnChar_of_identifier hf c hc
  · rcases List.mem_cons.1 hc with rfl | hc
    · rfl
    · exact isColumnChar_of_identifier (hm id hid) c hc

/-- A column does not start with a parenthesis. -/
theorem column_eq_cons {field : String} (h : isColumn field = true) :
    ∃ c cs, field.toList = c :: cs ∧ isNameStart c = true := by
  obtain ⟨first, more, ⟨c, rest, rfl, hc, -⟩, -, e⟩ := isColumn_iff.1 h
  exact ⟨c, _, e, hc⟩

end CompactSearch.Sql

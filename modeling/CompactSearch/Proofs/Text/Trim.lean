/-
White space at the ends of a text. Trimming takes away all of it and nothing else: a text is what trimming leaves of it, with
white space in front and behind (`exists_padding`), and what has none at its ends is left whatever the padding is
(`trimChars_padded`).
-/
import CompactSearch.Config.Basic
import CompactSearch.Proofs.Text.Run

namespace CompactSearch.Text

variable {cs before after : List Char}

/-- Nothing but white space, or nothing at all. -/
def IsSpace (cs : List Char) : Prop := ∀ c ∈ cs, isBlank c = true

instance (cs : List Char) : Decidable (IsSpace cs) := decidable_of_iff (cs.all isBlank = true) List.all_eq_true

/-- Neither the first nor the last character is white space. -/
structure IsTrimmed (cs : List Char) : Prop where
  first : ∀ c ∈ cs.head?, isBlank c = false
  last : ∀ c ∈ cs.getLast?, isBlank c = false

/-- What follows the white space at the front of a text starts with something else. -/
theorem not_blank_head_dropWhile (cs : List Char) : ∀ c ∈ (cs.dropWhile isBlank).head?, isBlank c = false := by
  intro c hc
  have h := List.head?_dropWhile_not isBlank cs
  rw [Option.mem_def] at hc
  rwa [hc] at h

/-- Taking away white space behind a text leaves a start of it. -/
theorem trimChars_prefix (cs : List Char) : trimChars cs <+: cs.dropWhile isBlank := by
  have h := List.reverse_prefix.2 (List.dropWhile_suffix (l := (cs.dropWhile isBlank).reverse) isBlank)
  rwa [List.reverse_reverse] at h

theorem isTrimmed_trimChars (cs : List Char) : IsTrimmed (trimChars cs) := by
  constructor
  · intro c hc
    obtain ⟨rest, hrest⟩ := trimChars_prefix cs
    refine not_blank_head_dropWhile cs c ?_
    rw [← hrest, List.head?_append, Option.mem_def.1 hc]
    rfl
  · intro c hc
    rw [trimChars, List.getLast?_reverse] at hc
    exact not_blank_head_dropWhile _ c hc

theorem exists_padding (cs : List Char) :
    ∃ before after, IsSpace before ∧ IsSpace after ∧ cs = before ++ (trimChars cs ++ after) := by
  set back := (cs.dropWhile isBlank).reverse
  refine ⟨cs.takeWhile isBlank, (back.takeWhile isBlank).reverse, fun c hc => List.mem_takeWhile_imp hc, ?_, ?_⟩
  · intro c hc
    exact List.mem_takeWhile_imp (List.mem_reverse.1 hc)
  · have hback : trimChars cs ++ (back.takeWhile isBlank).reverse = cs.dropWhile isBlank := by
      rw [trimChars, ← List.reverse_append, List.takeWhile_append_dropWhile, List.reverse_reverse]
    rw [hback, List.takeWhile_append_dropWhile]

theorem trimChars_eq_nil_iff : trimChars cs = [] ↔ IsSpace cs := by
  constructor
  · intro h c hc
    obtain ⟨before, after, hb, ha, hcs⟩ := exists_padding cs
    rw [h, List.nil_append] at hcs
    rw [hcs, List.mem_append] at hc
    exact hc.elim (hb c) (ha c)
  · intro h
    have hnil : cs.dropWhile isBlank = [] := List.dropWhile_eq_nil_iff.2 h
    rw [trimChars, hnil]
    rfl

theorem isBlankText_iff {s : String} : isBlankText s = true ↔ trimChars s.toList = [] := by
  rw [isBlankText, List.all_eq_true, trimChars_eq_nil_iff]
  rfl

/-- Padding is taken away whatever it is. -/
theorem trimChars_padded (hb : IsSpace before) (h : IsTrimmed cs) (ha : IsSpace after) :
    trimChars (before ++ (cs ++ after)) = cs := by
  by_cases hne : cs = []
  · subst hne
    rw [trimChars_eq_nil_iff]
    intro c hc
    exact (List.mem_append.1 hc).elim (hb c) (ha c)
  · have hfront : (before ++ (cs ++ after)).dropWhile isBlank = cs ++ after := by
      refine (span_of_head (cs ++ after) hb ?_).2
      obtain ⟨c, rest, rfl⟩ := List.exists_cons_of_ne_nil hne
      exact h.first
    have hback : (after.reverse ++ cs.reverse).dropWhile isBlank = cs.reverse := by
      refine (span_of_head cs.reverse (fun c hc => ha c (List.mem_reverse.1 hc)) ?_).2
      rw [List.head?_reverse]
      exact h.last
    rw [trimChars, hfront, List.reverse_append, hback, List.reverse_reverse]

theorem IsTrimmed.trimChars_eq (h : IsTrimmed cs) : trimChars cs = cs := by
  have hnone : IsSpace [] := fun c hc => absurd hc List.not_mem_nil
  have htrim := trimChars_padded hnone h hnone
  rwa [List.nil_append, List.append_nil] at htrim

end CompactSearch.Text

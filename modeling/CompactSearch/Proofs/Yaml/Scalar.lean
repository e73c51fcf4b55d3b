/-
Scalars written and read back. Whatever the style that is chosen for a text, its line is read as the text, and
reading goes on with the first word of the next line (`readsScalar_scalarLine`).
-/
import CompactSearch.Proofs.Yaml.Literal
import CompactSearch.Proofs.Yaml.Plain
import CompactSearch.Proofs.Yaml.Quoted

namespace CompactSearch.Yaml

variable {base : Nat} {c : Char} {cs r t : List Char} {k : Cursor}

/-! ## The first character -/

theorem startsPlain_append (hr : endsWord r = true) : startsPlain false c (cs ++ r) = startsPlain false c cs := by
  have hends : endsWord (cs ++ r) = endsWord cs := by
    cases cs with
    | nil => exact hr
    | cons d cs => rfl
  rw [startsPlain, startsPlain, hends]

/-- A character is not among others that are all of a class that it is not of. -/
theorem contains_eq_false_of_class {p : Char → Bool} {l : List Char} (hl : l.all p = true) (hc : p c = false) :
    l.contains c = false := by
  rw [List.contains_eq_mem, decide_eq_false_iff_not]
  intro hmem
  rw [List.all_eq_true.1 hl c hmem] at hc
  cases hc

theorem startsPlain_of_isAlpha (h : c.isAlpha = true) : startsPlain false c r = true := by
  have hdash : c ≠ '-' := ne_of_class h (by decide)
  have hmark : ¬(c = '?' ∨ c = ':') := not_or.2 ⟨ne_of_class h (by decide), ne_of_class h (by decide)⟩
  have hother : ∀ l : List Char, l.all (!·.isAlpha) = true → l.contains c = false := fun l hl =>
    contains_eq_false_of_class hl (by simp [h])
  rw [startsPlain, if_neg hdash, if_neg hmark, isBlank_of_isAlpha h, isBreak_of_isAlpha h, isFlowIndicator,
    hother _ (by decide), hother _ (by decide)]
  rfl

/-- The cursor is in front of a scalar, and not of a collection, an alias or properties. -/
def Cursor.StartsScalar (k : Cursor) : Prop :=
  k.atIndicator '-' = false ∧ k.atIndicator '?' = false ∧ ∀ c ∈ k.next?, c ∉ "&!*[\x7b".toList

theorem Cursor.StartsScalar.next?_ne (h : k.StartsScalar) (hc : c ∈ "&!*[\x7b".toList) : k.next? ≠ some c :=
  fun hk => h.2.2 c hk hc

theorem startsToken_of_startsPlain (h : startsPlain false c r = true) (hmark : c ≠ byteOrderMark) :
    StartsToken (c :: cs) := by
  have hne : ∀ d, startsPlain false d r = false → c ≠ d := by
    rintro d hd rfl
    rw [h] at hd
    cases hd
  rintro _ ⟨⟩
  refine ⟨?_, ?_, hne '#' rfl, hmark⟩
  · simp [isBlank, hne ' ' rfl, hne '\t' rfl]
  · simp [isBreak, hne '\n' rfl, hne '\u2028' rfl, hne '\u2029' rfl]

theorem startsScalar_of_startsPlain (hk : k.rest = c :: r) (h : startsPlain false c r = true) : k.StartsScalar := by
  refine ⟨?_, ?_, ?_⟩
  · by_cases hc : c = '-'
    · subst hc
      simpa [Cursor.atIndicator, Cursor.next?, hk, startsPlain] using h
    · simp [Cursor.atIndicator, Cursor.next?, hk, hc]
  · by_cases hc : c = '?'
    · subst hc
      simpa [Cursor.atIndicator, Cursor.next?, hk, startsPlain] using h
    · simp [Cursor.atIndicator, Cursor.next?, hk, hc]
  · have hall : "&!*[\x7b".toList.all (!startsPlain false · r) = true := by
      simp [startsPlain, isBlank, isBreak, isFlowIndicator]
    rw [Cursor.next?, hk]
    rintro _ ⟨⟩ hmem
    simpa [h] using List.all_eq_true.1 hall c hmem

/-! ## Plain scalars -/

/-- A text of one line that is taken whole when it stands plain. -/
structure IsPlainText (cs : List Char) : Prop where
  line : ∀ c ∈ cs, isBreak c = false
  last : ∀ c ∈ cs.getLast?, isBlank c = false
  inner : hasInnerIndicator false cs = false

theorem hasInnerIndicator_of_isAlpha : ∀ {cs : List Char}, (∀ c ∈ cs, c.isAlpha = true) →
    hasInnerIndicator false cs = false
  | [], _ => rfl
  | c :: cs, h => by
    have hc := h c List.mem_cons_self
    have hcolon : c ≠ ':' := ne_of_class hc (by decide)
    simp [hasInnerIndicator, hcolon, isBlank_of_isAlpha hc, isBreak_of_isAlpha hc,
      hasInnerIndicator_of_isAlpha fun d hd => h d (List.mem_cons_of_mem c hd)]

theorem isPlainText_of_isAlpha (h : ∀ c ∈ cs, c.isAlpha = true) : IsPlainText cs where
  line c hc := isBreak_of_isAlpha (h c hc)
  last c hc := isBlank_of_isAlpha (h c (List.mem_of_getLast? hc))
  inner := hasInnerIndicator_of_isAlpha h

/-- A plain scalar is taken up to what ends it. -/
theorem scalarNode?_plain {s : ScannedPlain} (hk : k.rest = c :: (cs ++ r))
    (hstart : startsPlain false c (cs ++ r) = true) (hplain : IsPlainText (c :: cs))
    (hmarker : k.column = 0 → isMarker k.rest = false)
    (hend : plain false base .empty (k.position.right (c :: cs).length) r = some s) (hs : s.text = []) :
    scalarNode? false base none k = some (.scalar none true (String.ofList (c :: cs)),
      { k with rest := s.rest, position := s.position, fresh := s.crossedBreak }) := by
  have hquote : ∀ d, startsPlain false d (cs ++ r) = false → c ≠ d := by
    rintro d hd rfl
    rw [hstart] at hd
    cases hd
  have hread : plain false base .empty k.position (c :: (cs ++ r)) = some (s.prepend (c :: cs)) := by
    rw [hk] at hmarker
    have happend : plain false base (.inline []) k.position ((c :: cs) ++ r) =
        (plain false base .empty (k.position.right (c :: cs).length) r).map (.prepend (c :: cs)) :=
      plain_append hplain.line (fun _ => rfl) hplain.last hplain.inner hmarker
    rw [hend] at happend
    exact happend
  rw [scalarNode?, hk]
  simp only
  rw [if_neg (not_or.2 ⟨hquote '"' rfl, hquote '\'' rfl⟩),
    if_neg (by simp [hquote '|' rfl, hquote '>' rfl]), if_pos hstart, hread]
  simp [ScannedPlain.prepend, hs]

/-! ## Lines -/

/-- The scalar at the cursor is the text `s`, and the next line is `t`. -/
def Cursor.ReadsScalar (k : Cursor) (base : Nat) (isPlain : Bool) (s : String) (t : List Char) : Prop :=
  k.StartsScalar ∧ ∃ k' l, scalarNode? false base none k = some (.scalar none isPlain s, k') ∧
    k'.toToken false = k.onLine l t

/-- A plain scalar at the end of its line. -/
theorem readsScalar_plain (hk : k.rest = c :: (cs ++ '\n' :: t)) (hstart : startsPlain false c cs = true)
    (hplain : IsPlainText (c :: cs)) (hcolumn : k.column ≠ 0) (ht : StartsEntry t) (hindent : indentOf t < base) :
    k.ReadsScalar base true (String.ofList (c :: cs)) t := by
  rw [← startsPlain_append (r := '\n' :: t) rfl] at hstart
  have hscalar := scalarNode?_plain hk hstart hplain (absurd · hcolumn) (plain_newline ht hindent) rfl
  exact ⟨startsScalar_of_startsPlain hk hstart, k.onLine (k.position.line + 1) t, _, hscalar,
    Cursor.toToken_onLine ht⟩

theorem startsScalar_quote (hk : k.rest = c :: r) (hc : c = '\'' ∨ c = '"' ∨ c = '|') : k.StartsScalar := by
  rcases hc with rfl | rfl | rfl <;> simp [Cursor.StartsScalar, Cursor.atIndicator, Cursor.next?, hk]

theorem readsScalar_quoted {q : Position} (isSingle : Bool) (hk : k.rest = (if isSingle then '\'' else '"') :: r)
    (hread : quoted isSingle .empty (k.position.right 1) r = some ⟨cs, q, '\n' :: t⟩) (ht : StartsEntry t) :
    k.ReadsScalar base false (String.ofList cs) t := by
  have hstart : k.StartsScalar := by
    refine startsScalar_quote hk ?_
    cases isSingle <;> simp
  have hscalar : scalarNode? false base none k = some (.scalar none false (String.ofList cs),
      { k with rest := '\n' :: t, position := q, fresh := false }) := by
    rw [scalarNode?, hk]
    cases isSingle <;> simp_all
  exact ⟨hstart, _, q.line + 1, hscalar, Cursor.toToken_newline rfl ht⟩

theorem readsScalar_literal {l : Nat} (hk : k.rest = '|' :: r)
    (hread : blockScalar false base (k.position.right 1) r = some ⟨cs, ⟨l, indentOf t⟩, wordOf t⟩)
    (ht : StartsEntry t) :
    k.ReadsScalar base false (String.ofList cs) t := by
  have hscalar : scalarNode? false base none k = some (.scalar none false (String.ofList cs), k.onLine l t) := by
    rw [scalarNode?, hk]
    simp [hread, Cursor.onLine]
  exact ⟨startsScalar_quote hk (by simp), _, l, hscalar, Cursor.toToken_onLine ht⟩

/-! ## Styles -/

theorem not_mem_of_needsEscapes {d : Char} (h : needsEscapes cs = false) (hd : isPrintable d = false) : d ∉ cs := by
  intro hmem
  rw [needsEscapes, Bool.or_eq_false_iff, List.any_eq_false] at h
  have hprintable := h.1 d hmem
  rw [hd] at hprintable
  exact hprintable rfl

theorem needsEscapes_of_allowsPlain (htyped : looksTyped cs = false) (h : allowsPlain cs = true) :
    needsEscapes cs = false := by
  cases cs with
  | nil => cases htyped
  | cons c r =>
    simp only [allowsPlain, Bool.not_eq_true', Bool.or_eq_false_iff] at h
    exact h.1.1.1.1.1.2

/-- A text that is written plain stands whole where it is read. -/
theorem isPlainText_of_allowsPlain (htyped : looksTyped cs = false) (h : allowsPlain cs = true) :
    IsPlainText cs ∧ ∃ c r, cs = c :: r ∧ startsPlain false c r = true := by
  cases cs with
  | nil => cases htyped
  | cons c r =>
    simp only [allowsPlain, Bool.not_eq_true', Bool.or_eq_false_iff] at h
    obtain ⟨⟨⟨⟨⟨⟨⟨⟨hspace, hlast⟩, hline⟩, hescapes⟩, -⟩, -⟩, hleading⟩, hmark⟩, hinner⟩ := h
    simp only [looksTyped, Bool.or_eq_false_iff] at htyped
    obtain ⟨⟨⟨⟨-, hdash⟩, -⟩, -⟩, -⟩ := htyped
    have htab : '\t' ∉ c :: r := not_mem_of_needsEscapes hescapes rfl
    have hlines : ∀ d ∈ c :: r, isBreak d = false := by simpa using hline
    refine ⟨⟨hlines, ?_, hinner⟩, c, r, rfl, ?_⟩
    · intro d hd
      rw [Bool.eq_false_iff, ne_eq, isBlank_iff]
      rintro (rfl | rfl)
      · rw [Option.mem_def.1 hd] at hlast
        cases hlast
      · exact htab (List.mem_of_getLast? hd)
    · -- a question mark or a colon may start a plain scalar only where a word goes on behind it
      rw [startsPlain, if_neg (by simpa using hdash)]
      by_cases hc : c = '?' ∨ c = ':'
      · rw [if_pos hc]
        rcases hc with rfl | rfl
        · simpa using hmark
        · simp only [hasInnerIndicator, Bool.or_eq_false_iff] at hinner
          simpa using hinner.1.1
      · have hother : ∀ l : List Char, l.all isLeadingIndicator = true → l.contains c = false := fun l hl =>
          contains_eq_false_of_class hl hleading
        have hblank : isBlank c = false := by
          have hne : c ≠ '\t' := by
            rintro rfl
            exact htab List.mem_cons_self
          simpa [isBlank, hne] using hspace
        rw [if_neg hc, hblank, hlines c List.mem_cons_self, isFlowIndicator, hother _ (by decide), hother _ (by decide)]
        rfl

theorem allows_of_plain (h : styleOf cs = .plain) : looksTyped cs = false ∧ allowsPlain cs = true := by
  unfold styleOf at h
  split_ifs at h with hfeed hescapes hplain hescapes'
  simpa using hplain

theorem allows_of_singleQuoted (h : styleOf cs = .singleQuoted) :
    '\n' ∉ cs ∧ needsEscapes cs = false ∧ hasAdjacent isBreak (· == ' ') cs = false := by
  unfold styleOf at h
  split_ifs at h with hfeed hescapes hplain hescapes'
  exact ⟨by simpa using hfeed, by simpa using hescapes'⟩

theorem allows_of_literal (h : styleOf cs = .literal) : '\n' ∈ cs ∧ needsEscapes cs = false := by
  unfold styleOf at h
  split_ifs at h with hfeed hescapes hplain hescapes'
  rw [Bool.or_eq_true, not_or, Bool.not_eq_true] at hescapes
  exact ⟨by simpa using hfeed, hescapes.1⟩

/-- The line of a text starts with a word. -/
theorem startsToken_scalarLine (n : Nat) (s : String) (t : List Char) : StartsToken (scalarLine n s ++ t) := by
  rw [scalarLine]
  cases hstyle : styleOf s.toList with
  | plain =>
    obtain ⟨htyped, hallows⟩ := allows_of_plain hstyle
    obtain ⟨-, c, r, hcs, hstart⟩ := isPlainText_of_allowsPlain htyped hallows
    have hmark : byteOrderMark ∉ s.toList := not_mem_of_needsEscapes (needsEscapes_of_allowsPlain htyped hallows) rfl
    rw [hcs] at hmark ⊢
    exact startsToken_of_startsPlain hstart fun hc => hmark (hc ▸ List.mem_cons_self)
  | singleQuoted =>
    rintro _ ⟨⟩
    decide
  | doubleQuoted =>
    rintro _ ⟨⟩
    decide
  | literal =>
    rintro _ ⟨⟩
    decide

theorem scalarLine_ne_nil (n : Nat) (s : String) : scalarLine n s ≠ [] := by
  rw [scalarLine]
  cases styleOf s.toList <;> simp

/-- Every text is read back from the line that is written for it. -/
theorem readsScalar_scalarLine {s : String} (hbase : 0 < base) (hk : k.rest = scalarLine (base + 1) s ++ t)
    (hcolumn : k.column ≠ 0) (ht : StartsEntry t) (hindent : indentOf t < base) :
    k.ReadsScalar base (styleOf s.toList == .plain) s t := by
  rw [scalarLine] at hk
  obtain ⟨cs, rfl⟩ : ∃ cs, s = String.ofList cs := ⟨s.toList, String.ofList_toList.symm⟩
  rw [String.toList_ofList] at hk ⊢
  have hright : (k.position.right 1).column ≠ 0 := Nat.succ_ne_zero _
  cases hstyle : styleOf cs with
  | plain =>
    obtain ⟨htyped, hallows⟩ := allows_of_plain hstyle
    obtain ⟨hplain, c, r, rfl, hstart⟩ := isPlainText_of_allowsPlain htyped hallows
    simp only [hstyle] at hk
    refine readsScalar_plain ?_ hstart hplain hcolumn ht hindent
    simpa using hk
  | singleQuoted =>
    -- a tab needs an escape, so the only blanks between the quotes are spaces
    obtain ⟨hfeed, hescapes, hbreak⟩ := allows_of_singleQuoted hstyle
    have htab : '\t' ∉ cs := not_mem_of_needsEscapes hescapes rfl
    have hchars : ∀ c ∈ cs, c ≠ '\n' ∧ c ≠ '\t' := fun c hc =>
      ⟨ne_of_mem_of_not_mem hc hfeed, ne_of_mem_of_not_mem hc htab⟩
    rw [needsEscapes, Bool.or_eq_false_iff] at hescapes
    obtain ⟨q, hread⟩ := quoted_single (t := t) (Nat.succ_pos base) hchars hescapes.2 hbreak Gap.fits_empty
      (.inr hright)
    simp only [hstyle] at hk
    refine readsScalar_quoted true ?_ hread ht
    simpa [Gap.hasBreak, Gap.empty] using hk
  | doubleQuoted =>
    obtain ⟨q, hread⟩ := quoted_double (t := '\n' :: t) cs [] (k.position.right 1) hright
    simp only [hstyle] at hk
    refine readsScalar_quoted false ?_ hread ht
    simpa using hk
  | literal =>
    obtain ⟨hfeed, hescapes⟩ := allows_of_literal hstyle
    have htab : '\t' ∉ cs := not_mem_of_needsEscapes hescapes rfl
    have hne : cs ≠ [] := List.ne_nil_of_mem hfeed
    obtain ⟨l, hread⟩ := blockScalar_text (p := k.position.right 1) hbase hne
      (fun c hc => ne_of_mem_of_not_mem hc htab) ht hindent
    simp only [hstyle] at hk
    refine readsScalar_literal ?_ hread ht
    simpa [lastBreak] using hk

end CompactSearch.Yaml

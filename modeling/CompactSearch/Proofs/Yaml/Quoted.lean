/-
Quoted scalars read back. In single quotes the blanks and breaks between two words are kept if no blank stands beside a
break and no break is a line feed, since the indentation that is written behind a break is skipped (`quoted_single`). In
double quotes every character is written as itself or as an escape, and each form is read as its character
(`quoted_double`).
-/
import CompactSearch.Proofs.Yaml.Line
import Mathlib.Tactic.IntervalCases

namespace CompactSearch.Yaml

/-! ## Characters beside each other -/

theorem hasAdjacent_tail {p q : Char → Bool} {c : Char} {cs : List Char} (h : hasAdjacent p q (c :: cs) = false) :
    hasAdjacent p q cs = false := by
  cases cs with
  | nil => rfl
  | cons d cs =>
    simp only [hasAdjacent, Bool.or_eq_false_iff] at h
    exact h.2

theorem head_of_hasAdjacent {p q : Char → Bool} {c : Char} {cs : List Char} (h : hasAdjacent p q (c :: cs) = false)
    (hc : p c = true) : ∀ d ∈ cs.head?, q d = false := by
  cases cs with
  | nil => rintro _ ⟨⟩
  | cons d cs =>
    rintro _ ⟨⟩
    simp only [hasAdjacent, hc, Bool.true_and, Bool.or_eq_false_iff] at h
    exact h.1

/-! ## One character -/

section

variable {single : Bool} {g : Gap} {p : Position} {c : Char} {r : List Char}

theorem quoted_blank (h : isBlank c = true) :
    quoted single g p (c :: r) = quoted single (g.addBlank c) (p.after c) r := by
  rw [quoted.eq_def]
  simp only [h, if_true]

theorem quoted_break (h : isBreak c = true) :
    quoted single g p (c :: r) = quoted single (g.addBreak c) (p.after c) r := by
  rw [quoted.eq_def]
  simp only [isBlank_of_isBreak h, h, Bool.false_eq_true, if_false, if_true]

/-- The quote that ends a scalar. -/
theorem quoted_end (hp : p.column ≠ 0) (h : single = true → r.head? ≠ some '\'') :
    quoted single g p ((if single then '\'' else '"') :: r) = some ⟨g.text, p.right 1, r⟩ := by
  cases single <;> rw [quoted.eq_def] <;> simp [isBlank, isBreak, hp, Position.after] at h ⊢
  exact fun hquote => absurd hquote h

theorem quoted_twice (hp : p.column ≠ 0) : quoted true g p ('\'' :: '\'' :: r) =
    (quoted true .empty (p.right 2) r).map (.prepend (g.text ++ ['\''])) := by
  rw [quoted.eq_def]
  simp [isBlank, isBreak, hp]

/-- A character that stands for itself. -/
theorem quoted_char (hp : p.column ≠ 0) (hblank : isBlank c = false) (hbreak : isBreak c = false)
    (hquote : c ≠ if single then '\'' else '"') (hslash : single = true ∨ c ≠ '\\') :
    quoted single g p (c :: r) = (quoted single .empty (p.right 1) r).map (.prepend (g.text ++ [c])) := by
  rw [quoted.eq_def]
  have hslash' : ¬((!single) = true ∧ c = '\\') := by
    rintro ⟨hs, rfl⟩
    rcases hslash with rfl | hne
    · cases hs
    · exact hne rfl
  simp only [hblank, hbreak, Bool.false_eq_true, if_false, hp, false_and, if_neg hquote, if_neg hslash',
    Position.after_of_not_isBreak hbreak]

/-- A backslash with what belongs to it. -/
theorem quoted_escape {d x : Char} {n : Nat} (hp : p.column ≠ 0) (hd : isBreak d = false)
    (h : escaped? d r = some (x, n)) : quoted false g p ('\\' :: d :: r) =
      (quoted false .empty (p.right (2 + n)) (r.drop n)).map (.prepend (g.text ++ [x])) := by
  rw [quoted.eq_def]
  simp [isBlank, isBreak.eq_def '\\', hp, hd, h]

end

/-! ## Single quotes -/

namespace Gap

variable {g : Gap} {c : Char} {cs : List Char}

/-- The gap keeps what has been met, and the text behind it can go on without a loss. -/
def Fits (g : Gap) (cs : List Char) : Prop :=
  match g with
  | inline blanks => blanks ≠ [] → ∀ c ∈ cs.head?, isBreak c = false
  | folded first _ => (∃ b, first = some b ∧ b ≠ '\n') ∧ ∀ c ∈ cs.head?, c ≠ ' '

theorem fits_empty : empty.Fits cs := fun h => absurd rfl h

theorem fits_addBlank (h : g.Fits (' ' :: cs)) (hcs : ∀ c ∈ cs.head?, isBreak c = false) :
    (g.addBlank ' ').text = g.text ++ [' '] ∧ (g.addBlank ' ').Fits cs ∧ g.hasBreak = false ∧
      (g.addBlank ' ').hasBreak = false := by
  cases g with
  | inline blanks => exact ⟨List.reverse_cons, fun _ => hcs, rfl, rfl⟩
  | folded first more => exact absurd rfl (h.2 ' ' rfl)

theorem fits_addBreak (h : g.Fits (c :: cs)) (hc : isBreak c = true) (hne : c ≠ '\n') (hcs : ∀ d ∈ cs.head?, d ≠ ' ') :
    (g.addBreak c).text = g.text ++ [c] ∧ (g.addBreak c).Fits cs ∧ (g.addBreak c).hasBreak = true := by
  cases g with
  | inline blanks =>
    -- blanks in front of a break would be lost
    have hblanks : blanks = [] := by
      by_contra hblanks
      have hno := h hblanks c rfl
      rw [hc] at hno
      cases hno
    subst hblanks
    exact ⟨by simp [addBreak, text, hne], ⟨⟨c, rfl, hne⟩, hcs⟩, rfl⟩
  | folded first more =>
    obtain ⟨⟨b, rfl, hb⟩, -⟩ := h
    exact ⟨by simp [addBreak, text, hb], ⟨⟨b, rfl, hb⟩, hcs⟩, rfl⟩

end Gap

/-- Behind a break, spaces are skipped. -/
theorem quoted_spaces {single : Bool} {first : Option Char} {more r : List Char} : ∀ (n : Nat) (p : Position),
    quoted single (.folded first more) p (spaces n ++ r) = quoted single (.folded first more) (p.right n) r
  | 0, _ => rfl
  | n + 1, p => by
    have hafter : p.after ' ' = p.right 1 := rfl
    rw [spaces_succ, List.cons_append, quoted_blank rfl, Gap.addBlank, hafter, quoted_spaces n, Position.right_right,
      Nat.add_comm]

/-- What is written in front of a word leads into a column other than the first. -/
theorem quoted_indentation {n : Nat} {g : Gap} {p : Position} (hn : 0 < n) (hp : g.hasBreak = true ∨ p.column ≠ 0) :
    ∃ p' : Position, p'.column ≠ 0 ∧ ∀ r,
      quoted true g p ((if g.hasBreak then spaces n else []) ++ r) = quoted true g p' r := by
  cases g with
  | inline blanks => exact ⟨p, hp.resolve_left (by simp [Gap.hasBreak]), fun _ => rfl⟩
  | folded first more =>
    refine ⟨p.right n, ?_, fun r => quoted_spaces n p⟩
    rw [Position.column_right]
    omega

/-- A text between single quotes. The induction carries the gap since the last word. -/
theorem quoted_single {n : Nat} {t : List Char} (hn : 0 < n) : ∀ {cs : List Char} {g : Gap} {p : Position},
    (∀ c ∈ cs, c ≠ '\n' ∧ c ≠ '\t') → hasAdjacent (· == ' ') isBreak cs = false →
    hasAdjacent isBreak (· == ' ') cs = false → g.Fits cs → (g.hasBreak = true ∨ p.column ≠ 0) →
      ∃ q, quoted true g p (singleQuotedBody n g.hasBreak cs ++ '\'' :: '\n' :: t) =
        some ⟨g.text ++ cs, q, '\n' :: t⟩
  | [], g, p, _, _, _, _, hp => by
    obtain ⟨p', hcolumn, hskip⟩ := quoted_indentation hn hp
    have hend : quoted true g p' ('\'' :: '\n' :: t) = some ⟨g.text, p'.right 1, '\n' :: t⟩ :=
      quoted_end hcolumn (by simp)
    refine ⟨p'.right 1, ?_⟩
    rw [singleQuotedBody, hskip, List.append_nil]
    exact hend
  | c :: cs, g, p, hcs, hspace, hbreak, hfits, hp => by
    obtain ⟨hfeed, htab⟩ := hcs c List.mem_cons_self
    have hcs' : ∀ d ∈ cs, d ≠ '\n' ∧ d ≠ '\t' := fun d hd => hcs d (List.mem_cons_of_mem c hd)
    have ih {g : Gap} {p : Position} := quoted_single (t := t) hn (g := g) (p := p) hcs' (hasAdjacent_tail hspace)
      (hasAdjacent_tail hbreak)
    by_cases hc : isBreak c = true
    · -- a break that is no line feed stands for itself, and what is skipped behind it is the indentation only
      have hnext : ∀ d ∈ cs.head?, d ≠ ' ' := by simpa using head_of_hasAdjacent hbreak hc
      obtain ⟨htext, hfits', hgap⟩ := Gap.fits_addBreak hfits hc hfeed hnext
      obtain ⟨q, hq⟩ := ih hfits' (p := p.after c) (.inl hgap)
      refine ⟨q, ?_⟩
      rw [hgap] at hq
      rw [singleQuotedBody, if_pos hc, List.cons_append, quoted_break hc, hq, htext, List.append_assoc,
        List.singleton_append]
    by_cases hblank : isBlank c = true
    · obtain rfl : c = ' ' := (isBlank_iff.1 hblank).resolve_right htab
      obtain ⟨htext, hfits', hgap, hgap'⟩ := Gap.fits_addBlank hfits (head_of_hasAdjacent hspace rfl)
      obtain ⟨q, hq⟩ := ih hfits' (p := p.after ' ') (.inr (Nat.succ_ne_zero _))
      refine ⟨q, ?_⟩
      rw [hgap'] at hq
      rw [hgap, singleQuotedBody, if_neg hc, if_neg (by simp), if_neg (by decide), List.nil_append,
        List.singleton_append, List.cons_append, quoted_blank rfl, hq, htext, List.append_assoc, List.singleton_append]
    -- the indentation, the character and what follows it, which starts a new gap
    obtain ⟨p', hcolumn, hskip⟩ := quoted_indentation hn hp
    have hnew {m : Nat} := ih Gap.fits_empty (p := p'.right (m + 1)) (.inr (Nat.succ_ne_zero _))
    rw [singleQuotedBody, if_neg hc, List.append_assoc, List.append_assoc, hskip]
    by_cases hquote : c = '\''
    · subst hquote
      obtain ⟨q, hq⟩ := hnew (m := 1)
      refine ⟨q, ?_⟩
      rw [if_pos rfl, List.cons_append, List.singleton_append, quoted_twice hcolumn]
      exact (congrArg (Option.map _) hq).trans (by simp [Scanned.prepend, Gap.text, Gap.empty])
    · obtain ⟨q, hq⟩ := hnew (m := 0)
      refine ⟨q, ?_⟩
      rw [if_neg hquote, List.singleton_append,
        quoted_char hcolumn (by simpa using hblank) (by simpa using hc) (by simpa using hquote) (.inl rfl)]
      exact (congrArg (Option.map _) hq).trans (by simp [Scanned.prepend, Gap.text, Gap.empty])

/-! ## Hexadecimal codes -/

theorem hexadecimal?_concat {cs : List Char} {n d : Nat} (h : hexadecimal? cs = some n) (hd : d < 16) :
    hexadecimal? (cs ++ [d.digitChar.toUpper]) = some (16 * n + d) := by
  have hdigit : hexadecimal? (cs ++ [d.digitChar.toUpper]) = (hexadecimal? cs).bind fun n => some (16 * n + d) := by
    rw [hexadecimal?, List.foldlM_append]
    refine congrArg (Option.bind _) (funext fun n => ?_)
    interval_cases d <;> rfl
  rw [hdigit, h]
  rfl

theorem hexadecimal?_toDigits : ∀ n : Nat, hexadecimal? ((Nat.toDigits 16 n).map Char.toUpper) = some n := by
  intro n
  induction n using Nat.strongRecOn with
  | ind n ih =>
    by_cases hn : n < 16
    · rw [Nat.toDigits_of_lt_base hn]
      have hnil : hexadecimal? [] = some 0 := rfl
      simpa using hexadecimal?_concat hnil hn
    · have hhigh := ih (n / 16) (by omega)
      rw [Nat.toDigits_of_base_le (by decide) (by omega), List.map_append, List.map_singleton,
        hexadecimal?_concat hhigh (by omega)]
      congr 1
      omega

theorem hexadecimal?_zeros (cs : List Char) : ∀ k : Nat, hexadecimal? (List.replicate k '0' ++ cs) = hexadecimal? cs
  | 0 => rfl
  | k + 1 => hexadecimal?_zeros cs k

theorem hexadecimal?_upperHex (width n : Nat) : hexadecimal? (upperHex width n) = some n := by
  rw [upperHex, hexadecimal?_zeros, hexadecimal?_toDigits]

theorem length_upperHex {width n : Nat} (hwidth : 0 < width) (hn : n < 16 ^ width) :
    (upperHex width n).length = width := by
  have hlength := (Nat.length_toDigits_le_iff (b := 16) (by decide) hwidth).2 hn
  rw [upperHex, List.length_append, List.length_replicate, List.length_map]
  omega

/-! ## Double quotes -/

/-- How a character is written between double quotes. -/
inductive DoubleQuoted : Char → List Char → Prop
  | bare {c : Char} (hquote : c ≠ '"') (hslash : c ≠ '\\') (htab : c ≠ '\t') (hbreak : isBreak c = false) :
    DoubleQuoted c [c]
  | letter {c x : Char} (h : escapeLetters.lookup x = some c) (hx : isBreak x = false) : DoubleQuoted c ['\\', x]
  | code {c x : Char} {width : Nat} (hletter : escapeLetters.lookup x = none) (hx : codeLength? x = some width)
    (hwidth : 0 < width) (hc : c.toNat < 16 ^ width) : DoubleQuoted c ('\\' :: x :: upperHex width c.toNat)

theorem doubleQuoted_form (c : Char) : DoubleQuoted c (doubleQuotedForm c) := by
  unfold doubleQuotedForm
  split
  · -- the reader knows every letter that the writer puts behind a backslash
    rename_i x hx
    have hall : ∀ e ∈ shortEscapes, escapeLetters.lookup e.2 = some e.1 ∧ isBreak e.2 = false := by decide
    obtain ⟨as, bs, hmem, -⟩ := List.lookup_eq_some_iff.1 hx
    obtain ⟨hletter, hbreak⟩ := hall (c, x) (by rw [hmem]; simp)
    exact .letter hletter hbreak
  · rename_i hnone
    have hne : ∀ d, shortEscapes.lookup d ≠ none → c ≠ d := by
      rintro d hd rfl
      exact hd hnone
    -- all breaks have short escapes
    have hbreak : isBreak c = false := by
      rw [Bool.eq_false_iff, ne_eq, isBreak_iff]
      rintro (h | h | h) <;> exact hne _ (by decide) h
    split
    · exact .bare (hne _ (by decide)) (hne _ (by decide)) (hne _ (by decide)) hbreak
    · have hvalid : c.toNat < 16 ^ 8 := by
        have hchar : c.toNat.isValidChar := c.valid
        unfold Nat.isValidChar at hchar
        omega
      split
      · exact .code rfl rfl (by decide) (by omega)
      · split
        · exact .code rfl rfl (by decide) (by omega)
        · exact .code rfl rfl (by decide) hvalid

/-- The form of a character other than a space is read as the character, and reading goes on further to the right. -/
theorem quoted_form {g : Gap} {p : Position} {c : Char} {form : List Char} (h : DoubleQuoted c form) (hspace : c ≠ ' ')
    (hp : p.column ≠ 0) : ∃ n, ∀ r, quoted false g p (form ++ r) =
      (quoted false .empty (p.right (n + 1)) r).map (.prepend (g.text ++ [c])) := by
  cases h with
  | bare hquote hslash htab hbreak =>
    have hblank : isBlank c = false := by simp [isBlank, hspace, htab]
    exact ⟨0, fun r => quoted_char hp hblank hbreak (by simpa using hquote) (.inr hslash)⟩
  | @letter x h hx =>
    refine ⟨1, fun r => ?_⟩
    have hescaped : escaped? x r = some (c, 0) := by rw [escaped?, h]
    exact quoted_escape hp hx hescaped
  | @code x width hletter hx hwidth hc =>
    refine ⟨width + 1, fun r => ?_⟩
    have hlength := length_upperHex hwidth hc
    have hescaped : escaped? x (upperHex width c.toNat ++ r) = some (c, width) := by
      have hvalid : c.toNat.isValidChar := c.valid
      simp [escaped?, hletter, hx, List.take_left' hlength, hlength, hexadecimal?_upperHex, hvalid]
    have hbreak : isBreak x = false := by
      rw [Bool.eq_false_iff, ne_eq, isBreak_iff]
      rintro (rfl | rfl | rfl) <;> cases hx
    rw [List.cons_append, List.cons_append, quoted_escape hp hbreak hescaped, List.drop_left' hlength, Nat.add_comm 2]

/-- A text between double quotes. -/
theorem quoted_double {t : List Char} : ∀ (cs blanks : List Char) (p : Position), p.column ≠ 0 →
    ∃ q, quoted false (.inline blanks) p (cs.flatMap doubleQuotedForm ++ '"' :: t) = some ⟨blanks.reverse ++ cs, q, t⟩
  | [], blanks, p, hp => by
    have hend : quoted false (.inline blanks) p ('"' :: t) = some ⟨blanks.reverse, p.right 1, t⟩ :=
      quoted_end hp (by simp)
    exact ⟨p.right 1, by simpa using hend⟩
  | c :: cs, blanks, p, hp => by
    rw [List.flatMap_cons, List.append_assoc]
    by_cases hspace : c = ' '
    · -- a space is kept open until the word behind it, so it goes into the blanks of the induction
      subst hspace
      have hform : doubleQuotedForm ' ' = [' '] := rfl
      obtain ⟨q, hq⟩ := quoted_double cs (' ' :: blanks) (p.after ' ') (Nat.succ_ne_zero _)
      refine ⟨q, ?_⟩
      rw [hform, List.singleton_append, quoted_blank rfl, Gap.addBlank, hq, List.reverse_cons, List.append_assoc,
        List.singleton_append]
    · obtain ⟨n, hform⟩ := quoted_form (g := .inline blanks) (doubleQuoted_form c) hspace hp
      obtain ⟨q, hq⟩ := quoted_double cs [] (p.right (n + 1)) (Nat.succ_ne_zero _)
      refine ⟨q, ?_⟩
      rw [hform, Gap.empty, hq]
      simp [Scanned.prepend, Gap.text]

end CompactSearch.Yaml

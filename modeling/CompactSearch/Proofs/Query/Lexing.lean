/-
Values and tokens read back from texts. The text of a value is typed as this value again, the lexer takes only spellings
of tokens (`spells_of_cuts`), and it reads a row of tokens back from their plainest spellings, each value between one
pair of quotes (`lexes_of_fits`).
-/
import CompactSearch.Proofs.Query.Cut

namespace CompactSearch

/-! ## Values and their texts -/

/-- Digits, or digits with a point and more digits behind them. -/
def IsDecimal (cs : List Char) : Prop :=
  ∃ whole, IsDigits whole ∧ (cs = whole ∨ ∃ fraction, IsDigits fraction ∧ cs = whole ++ '.' :: fraction)

theorem isNumeral_of_isDecimal {cs : List Char} (h : IsDecimal cs) : isNumeral cs = true := by
  obtain ⟨whole, ⟨hne, hw⟩, rfl | ⟨fraction, ⟨hne', hf⟩, rfl⟩⟩ := h
  · obtain ⟨ht, hd⟩ := span_of_head [] hw (by simp)
    rw [List.append_nil] at ht hd
    simp [isNumeral, ht, hd, hne]
  · obtain ⟨ht, hd⟩ := span_of_head ('.' :: fraction) hw (by rintro c ⟨⟩; rfl)
    simp only [isNumeral, ht, hd]
    simpa [hne, hne'] using hf

theorem isDecimal_of_isNumeral {cs : List Char} (h : isNumeral cs = true) : IsDecimal cs := by
  rw [isNumeral, Bool.and_eq_true] at h
  obtain ⟨hne, h⟩ := h
  have hw : IsDigits (cs.takeWhile Char.isDigit) := ⟨by simpa using hne, fun c hc => List.mem_takeWhile_imp hc⟩
  have hcs := List.takeWhile_append_dropWhile (p := Char.isDigit) (l := cs)
  refine ⟨_, hw, ?_⟩
  cases hd : cs.dropWhile Char.isDigit with
  | nil =>
    rw [hd, List.append_nil] at hcs
    exact .inl hcs.symm
  | cons c fraction =>
    simp only [hd, Bool.and_eq_true, beq_iff_eq, Bool.not_eq_true', List.isEmpty_eq_false_iff, List.all_eq_true] at h
    obtain ⟨⟨rfl, hne'⟩, hf⟩ := h
    rw [hd] at hcs
    exact .inr ⟨fraction, ⟨hne', hf⟩, hcs.symm⟩

theorem isNumeral_iff {cs : List Char} : isNumeral cs = true ↔ IsDecimal cs :=
  ⟨isDecimal_of_isNumeral, isNumeral_of_isDecimal⟩

instance (cs : List Char) : Decidable (IsDecimal cs) := decidable_of_iff (isNumeral cs = true) isNumeral_iff

namespace Value

theorem text_ofRun (run : String) : (ofRun run).text = run := by
  unfold ofRun
  split
  · rename_i h
    exact h.symm
  · unfold Numeral.ofText?
    split <;> rename_i h
    · split at h
      · cases h
        rfl
      · cases h
    · rfl

/-- The value is the one that its own text is typed as. -/
def IsTyped : Value → Prop
  | number n => IsDecimal n.text.toList
  | string s => s ≠ nullText ∧ ¬ IsDecimal s.toList
  | null => True

theorem ofRun_text : ∀ {v : Value}, v.IsTyped → ofRun v.text = v
  | number ⟨s, hs⟩, _ => by
    have hn : s ≠ nullText := by
      rintro rfl
      exact absurd hs (by decide)
    simp [ofRun, text, hn, Numeral.ofText?, hs]
  | string s, ⟨hn, hd⟩ => by
    have hs : isNumeral s.toList = false := Bool.eq_false_iff.2 fun h => hd (isNumeral_iff.1 h)
    simp [ofRun, text, hn, Numeral.ofText?, hs]
  | null, _ => rfl

theorem isTyped_ofRun (run : String) : (ofRun run).IsTyped := by
  unfold ofRun
  split
  · trivial
  · rename_i hn
    unfold Numeral.ofText?
    by_cases hs : isNumeral run.toList = true
    · rw [dif_pos hs]
      exact isNumeral_iff.1 hs
    · rw [dif_neg hs]
      exact ⟨hn, fun h => hs (isNumeral_iff.2 h)⟩

end Value

namespace Lexer

variable {d : Dialect}

/-! ## Spellings -/

theorem spells_of_takes {b : Bool} {t : Token} {w rest : List Char} (h : Takes d b t w rest) : Spells d t w := by
  cases h with
  | quoted k h => exact .value (k + 1) h
  | run h _ _ =>
    have hw := Spells.value 0 h
    rwa [List.replicate_zero, List.append_nil] at hw
  | minus hm =>
    refine .minus ?_
    cases d with
    | document => rfl
    | relational => cases hm
  | op o _ => exact .op o
  | space _ => exact .space
  | or => exact .or
  | openGroup => exact .openGroup
  | closeGroup => exact .closeGroup

/-- Every token of a text is taken by one of its spellings. -/
theorem spells_of_cuts {b b' : Bool} {p : Nat} {v rest : List Char} {ts : List Placed}
    (h : Cuts d b p v rest ts b') : ∀ t ∈ ts, ∃ w, Spells d t.token w := by
  induction h with
  | done => exact fun t ht => absurd ht List.not_mem_nil
  | token ht _ ih => exact List.forall_mem_cons.2 ⟨⟨_, spells_of_takes ht⟩, ih⟩

/-! ## Plain spellings -/

/-- The plainest spelling of a token; a value stands between one pair of quotes. -/
def plainChars : Token → List Char
  | .value v => '"' :: (v.text.toList ++ ['"'])
  | .op o => o.text.toList
  | .space => [' ']
  | .or => [' ', 'O', 'R', ' ']
  | .minus => ['-']
  | .openGroup => ['(']
  | .closeGroup => [')']

/-- The tokens can stand in a row when they are spelled plainly; `leafStart` says whether a leaf can start at the first
one. A dash needs the start of a leaf and an operator a value behind it. -/
def Fits (d : Dialect) : (leafStart : Bool) → List Token → Prop
  | _, [] => True
  | _, .value v :: ts => IsRun d v.text.toList ∧ v.IsTyped ∧ Fits d false ts
  | _, .op _ :: ts => (∃ v us, ts = .value v :: us) ∧ Fits d false ts
  | b, .minus :: ts => d = .document ∧ b = true ∧ Fits d false ts
  | _, t :: ts => Fits d t.precedesLeaf ts

/-- The text is read as the tokens, wherever it stands. -/
def Lexes (d : Dialect) (leafStart : Bool) (cs : List Char) (us : List Token) : Prop :=
  ∀ p, ∃ ts, tokensFrom d leafStart p cs = .ok ts ∧ ts.map (·.token) = us

theorem lexes_cons {b : Bool} {w rest : List Char} {t : Token} {us : List Token} (h : Takes d b t w rest)
    (hr : Lexes d t.precedesLeaf rest us) : Lexes d b (w ++ rest) (t :: us) := by
  intro p
  obtain ⟨ts, hts, rfl⟩ := hr (p + w.length)
  exact ⟨⟨t, p⟩ :: ts, by rw [tokensFrom_of_takes h, hts]; rfl, rfl⟩

/-- A value is read back from one pair of quotes around its text. -/
theorem takes_value {b : Bool} {v : Value} (rest : List Char) (h : IsRun d v.text.toList) (ht : v.IsTyped) :
    Takes d b (.value v) (plainChars (.value v)) rest := by
  have hq : Takes d b (.value (.ofRun (String.ofList v.text.toList))) _ rest := .quoted 0 h
  rwa [String.ofList_toList, Value.ofRun_text ht] at hq

/-- No plain spelling starts with a letter. -/
theorem head?_plainChars (us : List Token) : (us.flatMap plainChars).head? ≠ some 'O' := by
  cases us with
  | nil => simp
  | cons t us =>
    cases t with
    | op o => cases o <;> simp [plainChars, Operator.text]
    | _ => simp [plainChars]

/-- A row of tokens that fits is read back from its plain spellings. -/
theorem lexes_of_fits : ∀ {b : Bool} {us : List Token}, Fits d b us → Lexes d b (us.flatMap plainChars) us
  | _, [], _ => fun p => ⟨[], by rw [List.flatMap_nil, tokensFrom], rfl⟩
  | b, .value v :: us, ⟨hv, ht, hr⟩ => lexes_cons (takes_value _ hv ht) (lexes_of_fits hr)
  | b, .op o :: us, ⟨⟨v, vs, hv⟩, hr⟩ => by
    have hne : (us.flatMap plainChars).head? ≠ some '=' := by simp [hv, plainChars]
    exact lexes_cons (.op o fun _ => hne) (lexes_of_fits hr)
  | true, .minus :: us, ⟨hd, _, hr⟩ => lexes_cons (.minus (by rw [hd]; rfl)) (lexes_of_fits hr)
  | b, .space :: us, h => by
    have hr : Fits d true us := h
    have hor : ¬ ['O', 'R', ' '] <+: us.flatMap plainChars := by
      rintro ⟨rest, ho⟩
      exact head?_plainChars us (ho ▸ rfl)
    exact lexes_cons (.space hor) (lexes_of_fits hr)
  | b, .or :: us, h => by
    have hr : Fits d true us := h
    exact lexes_cons .or (lexes_of_fits hr)
  | b, .openGroup :: us, h => by
    have hr : Fits d true us := h
    exact lexes_cons .openGroup (lexes_of_fits hr)
  | b, .closeGroup :: us, h => by
    have hr : Fits d false us := h
    exact lexes_cons .closeGroup (lexes_of_fits hr)

end Lexer

end CompactSearch

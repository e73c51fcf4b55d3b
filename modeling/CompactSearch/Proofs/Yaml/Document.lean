/-
Documents read back. All that is written can be printed, so nothing is changed or refused before the reading starts
(`normalizeBreaks_of_printable`), and a text that is a mapping is a document of its own (`read?_members`).
-/
import CompactSearch.Proofs.Yaml.Collection
import CompactSearch.Yaml.Document

namespace CompactSearch.Yaml

variable {c : Char} {cs ds : List Char} {n : Nat}

/-! ## Printable texts -/

/-- Every character of the text can be written as it is. -/
def Printable (cs : List Char) : Prop := ∀ c ∈ cs, isPrintable c = true

instance : DecidablePred Printable := fun cs => decidable_of_iff (cs.all isPrintable = true) List.all_eq_true

theorem printable_nil : Printable [] := by
  rintro _ ⟨⟩

theorem printable_cons (hc : isPrintable c = true) (hcs : Printable cs) : Printable (c :: cs) :=
  List.forall_mem_cons.2 ⟨hc, hcs⟩

theorem printable_append (hcs : Printable cs) (hds : Printable ds) : Printable (cs ++ ds) :=
  List.forall_mem_append.2 ⟨hcs, hds⟩

theorem printable_flatMap {α : Type} {f : α → List Char} {xs : List α} (h : ∀ x ∈ xs, Printable (f x)) :
    Printable (xs.flatMap f) := by
  intro c hc
  obtain ⟨x, hx, hc⟩ := List.mem_flatMap.1 hc
  exact h x hx c hc

theorem printable_spaces (n : Nat) : Printable (spaces n) := by
  intro c hc
  rw [List.eq_of_mem_replicate hc]
  rfl

theorem printable_of_needsEscapes (h : needsEscapes cs = false) : Printable cs := by
  rw [needsEscapes, Bool.or_eq_false_iff, List.any_eq_false] at h
  intro c hc
  simpa using h.1 c hc

theorem printable_singleQuotedBody : ∀ {cs : List Char} {afterBreak : Bool}, Printable cs →
    Printable (singleQuotedBody n afterBreak cs)
  | [], afterBreak, _ => by
    cases afterBreak
    · exact printable_nil
    · exact printable_spaces n
  | c :: cs, afterBreak, h => by
    obtain ⟨hc, hcs⟩ := List.forall_mem_cons.1 h
    have hindent : Printable (if afterBreak then spaces n else []) := by
      cases afterBreak
      · exact printable_nil
      · exact printable_spaces n
    have hform : Printable (if c = '\'' then ['\'', '\''] else [c]) := by
      split
      · decide
      · exact printable_cons hc printable_nil
    rw [singleQuotedBody]
    split
    · exact printable_cons hc (printable_singleQuotedBody hcs)
    · exact printable_append (printable_append hindent hform) (printable_singleQuotedBody hcs)

theorem printable_literalBody : ∀ {cs : List Char} {afterBreak : Bool}, Printable cs →
    Printable (literalBody n afterBreak cs)
  | [], _, _ => printable_nil
  | c :: cs, afterBreak, h => by
    obtain ⟨hc, hcs⟩ := List.forall_mem_cons.1 h
    have hindent : Printable (if afterBreak then spaces n else []) := by
      cases afterBreak
      · exact printable_nil
      · exact printable_spaces n
    rw [literalBody]
    split
    · exact printable_cons hc (printable_literalBody hcs)
    · exact printable_append hindent (printable_cons hc (printable_literalBody hcs))

theorem printable_toDigits (n : Nat) : Printable ((Nat.toDigits 16 n).map Char.toUpper) := by
  have hdigit : ∀ d < 16, Printable [d.digitChar.toUpper] := by decide
  induction n using Nat.strongRecOn with
  | ind n ih =>
    by_cases hn : n < 16
    · rw [Nat.toDigits_of_lt_base hn]
      exact hdigit n hn
    · rw [Nat.toDigits_of_base_le (by decide) (by omega), List.map_append]
      exact printable_append (ih (n / 16) (by omega)) (hdigit (n % 16) (by omega))

theorem printable_upperHex (width n : Nat) : Printable (upperHex width n) := by
  refine printable_append ?_ (printable_toDigits n)
  intro c hc
  rw [List.eq_of_mem_replicate hc]
  rfl

theorem printable_doubleQuotedForm (c : Char) : Printable (doubleQuotedForm c) := by
  unfold doubleQuotedForm
  split
  · rename_i x hx
    have hall : ∀ e ∈ shortEscapes, isPrintable e.2 = true := by decide
    obtain ⟨as, bs, hmem, -⟩ := List.lookup_eq_some_iff.1 hx
    exact printable_cons rfl (printable_cons (hall (c, x) (by rw [hmem]; simp)) printable_nil)
  · split_ifs with hc hbyte hshort
    · exact printable_cons hc printable_nil
    · exact printable_cons rfl (printable_cons rfl (printable_upperHex 2 c.toNat))
    · exact printable_cons rfl (printable_cons rfl (printable_upperHex 4 c.toNat))
    · exact printable_cons rfl (printable_cons rfl (printable_upperHex 8 c.toNat))

theorem printable_marks (cs : List Char) : Printable (indentationMark cs ++ chompingMark cs) := by
  refine printable_append ?_ ?_
  · unfold indentationMark
    split
    · exact printable_nil
    · split <;> decide
  · unfold chompingMark
    split
    · decide
    · split_ifs <;> decide

/-- The line of a scalar can be printed, whatever its text is. -/
theorem printable_scalarLine (n : Nat) (s : String) : Printable (scalarLine n s) := by
  rw [scalarLine]
  cases hstyle : styleOf s.toList with
  | plain =>
    obtain ⟨htyped, hallows⟩ := allows_of_plain hstyle
    exact printable_append (printable_of_needsEscapes (needsEscapes_of_allowsPlain htyped hallows)) (by decide)
  | singleQuoted =>
    obtain ⟨-, hescapes, -⟩ := allows_of_singleQuoted hstyle
    exact printable_append (printable_cons rfl (printable_singleQuotedBody (printable_of_needsEscapes hescapes)))
      (by decide)
  | doubleQuoted =>
    exact printable_append (printable_cons rfl (printable_flatMap fun c _ => printable_doubleQuotedForm c)) (by decide)
  | literal =>
    obtain ⟨-, hescapes⟩ := allows_of_literal hstyle
    have hbody : Printable (literalBody n true s.toList) := printable_literalBody (printable_of_needsEscapes hescapes)
    refine printable_append (printable_append (printable_cons rfl ?_) (printable_cons rfl hbody)) ?_
    · exact printable_marks s.toList
    · split <;> decide

theorem printable_itemLines (column : Nat) (ss : List String) : Printable (itemLines column ss) :=
  printable_flatMap fun s _ =>
    printable_append (printable_spaces column)
      (printable_cons rfl (printable_cons rfl (printable_scalarLine (column + 2) s)))

theorem isPrintable_of_isAlpha (h : c.isAlpha = true) : isPrintable c = true := by
  have hrange : 0x20 ≤ c.toNat ∧ c.toNat ≤ 0x7e := by
    rcases Bool.or_eq_true_iff.1 h with hupper | hlower
    · have hbounds : 'A'.val ≤ c.val ∧ c.val ≤ 'Z'.val := of_decide_eq_true hupper
      have hlow : 65 ≤ c.toNat := UInt32.le_iff_toNat_le.1 hbounds.1
      have hhigh : c.toNat ≤ 90 := UInt32.le_iff_toNat_le.1 hbounds.2
      omega
    · obtain ⟨hfrom, hto⟩ := Bool.and_eq_true_iff.1 hlower
      have hlow : 97 ≤ c.toNat := UInt32.le_iff_toNat_le.1 (of_decide_eq_true hfrom)
      have hhigh : c.toNat ≤ 122 := UInt32.le_iff_toNat_le.1 (of_decide_eq_true hto)
      omega
  simp [isPrintable, hrange]

theorem printable_memberLines {ms : List Member} (column : Nat) (hkeys : ∀ m ∈ ms, IsKey m.key)
    (htexts : ∀ m ∈ ms, Printable m.text) : Printable (memberLines column ms) := by
  refine printable_flatMap fun m hm => ?_
  have hkey : Printable m.key := fun c hc => isPrintable_of_isAlpha ((hkeys m hm).isAlpha c hc)
  exact printable_append (printable_spaces column) (printable_append hkey (printable_cons rfl (htexts m hm)))

/-! ## Reading -/

theorem isAllowed_of_isPrintable (h : isPrintable c = true) : isAllowed c = true := by
  simp only [isPrintable, isAllowed, Bool.or_eq_true, Bool.and_eq_true, beq_iff_eq, bne_iff_ne,
    decide_eq_true_eq] at h ⊢
  omega

theorem normalizeBreaks_of_printable : ∀ {cs : List Char}, Printable cs → normalizeBreaks cs = cs
  | [], _ => rfl
  | c :: cs, h => by
    obtain ⟨hc, hcs⟩ := List.forall_mem_cons.1 h
    have hreturn : c ≠ '\r' := ne_of_class hc rfl
    have hnext : c ≠ '\u0085' := ne_of_class hc rfl
    rw [normalizeBreaks, if_neg (not_or.2 ⟨hreturn, hnext⟩), normalizeBreaks_of_printable hcs]
    rintro cs' rfl
    exact absurd rfl hreturn

theorem directives?_none {k : Cursor} {fuel : Nat} (hfuel : 0 < fuel) (hk : k.next? ≠ some '%') (ds : Directives) :
    directives? fuel ds k = some (ds, k) := by
  obtain ⟨fuel, rfl⟩ : ∃ n, fuel = n + 1 := ⟨fuel - 1, by omega⟩
  rw [directives?, if_neg fun h => hk h.2]

theorem onlyEndMarks_nil {k : Cursor} {fuel : Nat} (hfuel : 0 < fuel) (hk : k.rest = []) :
    onlyEndMarks fuel k = true := by
  obtain ⟨fuel, rfl⟩ : ∃ n, fuel = n + 1 := ⟨fuel - 1, by omega⟩
  rw [onlyEndMarks, hk]
  rfl

/-- A text that starts with a letter is a document without directives and marks, if its root takes all of it. -/
theorem read?_of_root {r : List Char} {n : Node} {fuel l : Nat} {k : Cursor}
    (hk : k = ⟨c :: r, .start, true, {}, standardHandles⟩)
    (hc : c.isAlpha = true) (hprintable : Printable (c :: r))
    (hfuel : 8 * ((c :: r).length + 2) = fuel) (hroot : blockNode? fuel 0 false k = some (n, k.onLine l [])) :
    Document.read? (String.ofList (c :: r)) = some (some ⟨n, {}⟩) := by
  have hrest : k.rest = c :: r := congrArg Cursor.rest hk
  have hnonempty : k.rest.isEmpty = false := by
    rw [hrest]
    rfl
  have hallowed : (c :: r).all isAllowed = true :=
    List.all_eq_true.2 fun d hd => isAllowed_of_isPrintable (hprintable d hd)
  have hmark : (c :: r).head? ≠ some byteOrderMark := fun h => ne_of_class hc (by decide) (Option.some.inj h)
  -- a letter is no gap, no directive and no mark, so the cursor is still at the start when the root is read
  have hstart : k.toToken false = k := by
    refine Cursor.toToken_of_startsToken ?_
    rw [hrest]
    exact startsToken_of_isAlpha hc
  have hdirectives : ∀ ds, directives? fuel ds k = some (ds, k) :=
    directives?_none (by omega) (Cursor.next?_ne_of_isAlpha hc hrest (by decide))
  have hend : k.atEnd = false := Cursor.atEnd_of_isAlpha hc hrest
  have hexplicit : startsDocument k.rest = false := by
    have hdash : '-' ≠ c := (ne_of_class hc (by decide)).symm
    simp [hrest, startsDocument, hdash]
  have hlast : (k.onLine l []).toToken false = k.onLine l [] := Cursor.toToken_onLine startsEntry_nil
  have hends : onlyEndMarks fuel (k.onLine l []) = true := onlyEndMarks_nil (by omega) rfl
  have hanchors : (k.onLine l []).anchors = {} := congrArg Cursor.anchors hk
  rw [Document.read?, String.toList_ofList, hallowed]
  simp only [Bool.not_true, Bool.false_eq_true, if_false, normalizeBreaks_of_printable hprintable, if_neg hmark]
  rw [← hk, hfuel, hstart, hdirectives]
  simp only [hexplicit, hnonempty, Bool.and_false, Bool.false_eq_true, false_and, if_false, root?, hend]
  simp [hend, hroot, hlast, hends, hanchors]

/-- A text that is a mapping in the first column. -/
theorem read?_members {m : Member} {ms : List Member} (hms : ∀ m' ∈ m :: ms, m'.Reads 1)
    (hprintable : Printable (memberLines 0 (m :: ms))) :
    Document.read? (String.ofList (memberLines 0 (m :: ms))) =
      some (some ⟨.mapping ((m :: ms).map Member.pair), {}⟩) := by
  have hm := hms m List.mem_cons_self
  obtain ⟨c, cs, hkey, hc⟩ := hm.isKey.cons
  have htext : memberLines 0 (m :: ms) = c :: (cs ++ ':' :: (m.text ++ memberLines 0 ms)) := by
    simp [memberLines, hkey, spaces]
  let k : Cursor := ⟨memberLines 0 (m :: ms), .start, true, {}, standardHandles⟩
  have hfuel : 2 * (memberLines 0 (m :: ms)).length + 8 ≤ 8 * ((memberLines 0 (m :: ms)).length + 2) := by omega
  have hnil : StartsKey [] := by rintro _ ⟨⟩
  obtain ⟨l, hnode⟩ := blockNode?_members hms hnil (.inr rfl) hfuel 0 0 false k
  have hline : k.onLine 0 (memberLines 0 (m :: ms) ++ []) = k := by
    rw [onLine_memberLines hm]
    simp [k, memberLines, spaces, Position.start]
  rw [hline, htext] at hnode
  rw [htext] at hprintable ⊢
  exact read?_of_root (by rw [← htext]) hc hprintable rfl hnode

end CompactSearch.Yaml

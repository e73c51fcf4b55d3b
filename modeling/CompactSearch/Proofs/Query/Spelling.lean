/-
A canonical spelling of queries: every field and value stands between one pair of quotes, and a part stands in
parentheses only where its connective would otherwise be lost. How deeply these parentheses nest is read off the query
(`nesting`), and a query whose characters the dialect leaves free is read back from its spelling (`parse_spelling`).
-/
import CompactSearch.Proofs.Query.Lexing
import CompactSearch.Proofs.Query.Recognition
import CompactSearch.Proofs.Formula

namespace CompactSearch.Grammar

/-! ## Groups that a query needs -/

/-- Whether a part of a conjunction has to stand in parentheses. -/
def groupedInAll : Query → Bool
  | .atom _ => false
  | .all _ | .any _ => true

/-- Whether a part of a disjunction has to stand in parentheses. -/
def groupedInAny : Query → Bool
  | .atom _ | .all _ => false
  | .any _ => true

mutual

/-- The greatest number of groups inside each other that the query needs. -/
def nesting : Query → Nat
  | .atom _ => 0
  | .all ps => nestingOf groupedInAll ps
  | .any ps => nestingOf groupedInAny ps

/-- The greatest number of groups inside each other that the parts need, where `grouped` says which of them are
groups. -/
def nestingOf (grouped : Query → Bool) : List Query → Nat
  | [] => 0
  | p :: ps => max (nesting p + (grouped p).toNat) (nestingOf grouped ps)

end

theorem nestingOf_le_iff {grouped : Query → Bool} {k : Nat} : ∀ {ps : List Query},
    nestingOf grouped ps ≤ k ↔ ∀ p ∈ ps, nesting p + (grouped p).toNat ≤ k
  | [] => by simp [nestingOf]
  | p :: ps => by rw [nestingOf, Nat.max_le, nestingOf_le_iff, List.forall_mem_cons]

/-! ## Spelling -/

def leafTokens : Leaf → List Token
  | .bare v negated => dash negated ++ [.value v]
  | .keyed field op v negated => dash negated ++ [.value (.ofRun field), .op op, .value v]

/-- The tokens, in parentheses if they are a group. -/
def enclose (group : Bool) (ts : List Token) : List Token :=
  if group then .openGroup :: (ts ++ [.closeGroup]) else ts

mutual

def tokensOf : Query → List Token
  | .atom l => leafTokens l
  | .all ps => separated .space groupedInAll ps
  | .any ps => separated .or groupedInAny ps

/-- The parts in order with a separator between two of them. -/
def separated (sep : Token) (grouped : Query → Bool) : List Query → List Token
  | [] => []
  | [p] => enclose (grouped p) (tokensOf p)
  | p :: q :: ps => enclose (grouped p) (tokensOf p) ++ sep :: separated sep grouped (q :: ps)

end

/-- The canonical spelling of a query. -/
def spelling (q : Query) : String := String.ofList ((tokensOf q).flatMap Lexer.plainChars)

theorem ne_nil_of_two_le {ps : List Query} (h : 2 ≤ ps.length) : ps ≠ [] := List.ne_nil_of_length_pos (by omega)

/-! ## The spelling derives the query -/

theorem derives_leafTokens : ∀ l : Leaf, DerivesLeaf (leafTokens l) l
  | .bare v negated => .bare negated v
  | .keyed field op v negated => by
    have h := DerivesLeaf.keyed negated (.ofRun field) op v
    rwa [Value.text_ofRun] at h

theorem derivesAtom_enclose {q : Query} (h : DerivesDisjunction (tokensOf q) q) :
    DerivesAtom (enclose (groupedInAll q) (tokensOf q)) q := by
  cases q with
  | atom l => exact .leaf (derives_leafTokens l)
  | all ps => exact .group h
  | any ps => exact .group h

/-- A conjunction needs no group in a disjunction: it is derived as one of the conjunctions. -/
theorem derivesConjunction_enclose {q : Query} (h : DerivesDisjunction (tokensOf q) q) :
    DerivesConjunction (enclose (groupedInAny q) (tokensOf q)) q := by
  cases q with
  | atom l => exact .single (.leaf (derives_leafTokens l))
  | all ps =>
    cases h with
    | single h => exact h
  | any ps => exact .single (.group h)

mutual

theorem derives_tokensOf : ∀ {q : Query}, q.Branching → DerivesDisjunction (tokensOf q) q
  | .atom l, _ => .single (.single (.leaf (derives_leafTokens l)))
  | .all _, ⟨h2, hb⟩ => .single (.flat (derivesConjuncts_separated (ne_nil_of_two_le h2) hb) h2)
  | .any _, ⟨h2, hb⟩ => .flat (derivesDisjuncts_separated (ne_nil_of_two_le h2) hb) h2

theorem derivesConjuncts_separated : ∀ {ps : List Query}, ps ≠ [] → Formula.BranchingList ps →
    DerivesConjuncts (separated .space groupedInAll ps) ps
  | [_], _, ⟨hp, _⟩ => .one (derivesAtom_enclose (derives_tokensOf hp))
  | _ :: q :: ps, _, ⟨hp, hps⟩ =>
    derivesConjuncts_cons (derivesAtom_enclose (derives_tokensOf hp))
      (derivesConjuncts_separated (List.cons_ne_nil q ps) hps)

theorem derivesDisjuncts_separated : ∀ {ps : List Query}, ps ≠ [] → Formula.BranchingList ps →
    DerivesDisjuncts (separated .or groupedInAny ps) ps
  | [_], _, ⟨hp, _⟩ => .one (derivesConjunction_enclose (derives_tokensOf hp))
  | _ :: q :: ps, _, ⟨hp, hps⟩ =>
    derivesDisjuncts_cons (derivesConjunction_enclose (derives_tokensOf hp))
      (derivesDisjuncts_separated (List.cons_ne_nil q ps) hps)

end

/-! ## The spelling nests as deeply as the query needs -/

theorem nestsWithin_leafTokens (k : Nat) (l : Leaf) : NestsWithin k (leafTokens l) := by
  intro pre hp
  have h : (leafTokens l).count .openGroup = 0 := by
    cases l with
    | bare v negated => cases negated <;> simp [leafTokens, dash]
    | keyed field op v negated => cases negated <;> simp [leafTokens, dash]
  have := hp.sublist.count_le .openGroup
  omega

theorem Balanced.enclose {ts : List Token} (h : Balanced ts) (group : Bool) : Balanced (enclose group ts) := by
  cases group with
  | false => exact h
  | true => exact h.group

theorem nestsWithin_enclose {ts : List Token} {group : Bool} {n k : Nat} (hb : Balanced ts)
    (h : ∀ j, n ≤ j → NestsWithin j ts) (hk : n + group.toNat ≤ k) : NestsWithin k (enclose group ts) := by
  cases group with
  | false => exact h k hk
  | true =>
    simp only [Bool.toNat_true] at hk
    exact (nestsWithin_group hb).2 ⟨k - 1, by omega, h (k - 1) (by omega)⟩

mutual

theorem nestsWithin_tokensOf : ∀ {q : Query}, q.Branching → ∀ k, nesting q ≤ k → NestsWithin k (tokensOf q)
  | .atom l, _, k, _ => nestsWithin_leafTokens k l
  | .all ps, ⟨_, hb⟩, k, hk => nestsWithin_parts (by decide) (by decide) hb k hk
  | .any ps, ⟨_, hb⟩, k, hk => nestsWithin_parts (by decide) (by decide) hb k hk

theorem nestsWithin_parts {sep : Token} {grouped : Query → Bool} (ho : sep ≠ .openGroup)
    (hc : sep ≠ .closeGroup) : ∀ {ps : List Query}, Formula.BranchingList ps → ∀ k, nestingOf grouped ps ≤ k →
      NestsWithin k (separated sep grouped ps)
  | [], _, k, _ => nestsWithin_nil k
  | [p], ⟨hp, _⟩, k, hk =>
    nestsWithin_enclose (balanced_disjunction (derives_tokensOf hp)) (nestsWithin_tokensOf hp)
      (Nat.max_le.1 hk).1
  | p :: q :: ps, ⟨hp, hps⟩, k, hk => by
    have hb := balanced_disjunction (derives_tokensOf hp)
    obtain ⟨hk, hks⟩ := Nat.max_le.1 hk
    exact (nestsWithin_separated (hb.enclose _) ho hc).2
      ⟨nestsWithin_enclose hb (nestsWithin_tokensOf hp) hk, nestsWithin_parts ho hc hps k hks⟩

end

/-! ## Queries that can be spelled -/

variable {d : Dialect}

/-- A value that can be typed as what it is. -/
def SpellableValue (d : Dialect) : Value → Prop
  | .number n => IsDecimal n.text.toList
  | .string s => Lexer.IsRun d s.toList ∧ s ≠ Value.nullText ∧ ¬ IsDecimal s.toList
  | .null => True

instance (d : Dialect) : ∀ v : Value, Decidable (SpellableValue d v)
  | .number n => inferInstanceAs (Decidable (IsDecimal n.text.toList))
  | .string s => inferInstanceAs (Decidable (Lexer.IsRun d s.toList ∧ s ≠ Value.nullText ∧ ¬ IsDecimal s.toList))
  | .null => isTrue trivial

def SpellableLeaf (d : Dialect) : Leaf → Prop
  | .bare v negated => SpellableValue d v ∧ (d = .relational → negated = false)
  | .keyed field _ v negated =>
    Lexer.IsRun d field.toList ∧ SpellableValue d v ∧ (d = .relational → negated = false)

instance (d : Dialect) : ∀ l : Leaf, Decidable (SpellableLeaf d l)
  | .bare v negated => inferInstanceAs (Decidable (SpellableValue d v ∧ (d = .relational → negated = false)))
  | .keyed field _ v negated => inferInstanceAs (Decidable
    (Lexer.IsRun d field.toList ∧ SpellableValue d v ∧ (d = .relational → negated = false)))

/-- The trees that a text of the dialect can spell. -/
structure Spellable (d : Dialect) (q : Query) : Prop where
  branching : q.Branching
  leaves : ∀ l ∈ q.atoms, SpellableLeaf d l
  nesting : nesting q ≤ maxDepth

theorem spellable_iff {q : Query} :
    Spellable d q ↔ q.Branching ∧ (∀ l ∈ q.atoms, SpellableLeaf d l) ∧ nesting q ≤ maxDepth :=
  ⟨fun h => ⟨h.branching, h.leaves, h.nesting⟩, fun h => ⟨h.1, h.2.1, h.2.2⟩⟩

instance (q : Query) : Decidable (Spellable d q) := decidable_of_iff' _ spellable_iff

theorem isReserved_of_isDigit {c : Char} (h : c.isDigit = true) : d.isReserved c = false := by
  rw [Bool.eq_false_iff]
  intro hr
  cases d <;> simp only [Dialect.isReserved, Bool.or_eq_true, Bool.and_eq_true, beq_iff_eq] at hr <;>
    rcases hr with (((((((rfl | rfl) | rfl) | rfl) | rfl) | rfl) | rfl) | rfl) | ⟨rfl, _⟩ <;> cases h

theorem isRun_of_isDecimal {cs : List Char} (h : IsDecimal cs) : Lexer.IsRun d cs := by
  obtain ⟨whole, ⟨hne, hw⟩, rfl | ⟨fraction, ⟨_, hf⟩, rfl⟩⟩ := h
  · exact ⟨hne, fun c hc => isReserved_of_isDigit (hw c hc)⟩
  · refine ⟨by simp, fun c hc => ?_⟩
    rcases List.mem_append.1 hc with hc | hc
    · exact isReserved_of_isDigit (hw c hc)
    · rcases List.mem_cons.1 hc with rfl | hc
      · cases d <;> rfl
      · exact isReserved_of_isDigit (hf c hc)

theorem spellableValue_iff {v : Value} : SpellableValue d v ↔ Lexer.IsRun d v.text.toList ∧ v.IsTyped := by
  cases v with
  | number n => exact ⟨fun h => ⟨isRun_of_isDecimal h, h⟩, fun h => h.2⟩
  | string s => exact Iff.rfl
  | null =>
    have hrun : Lexer.IsRun d Value.nullText.toList := by cases d <;> decide
    exact ⟨fun _ => ⟨hrun, trivial⟩, fun _ => trivial⟩

/-! ## The spelling is read back -/

theorem fits_value {v : Value} {ts : List Token} {b : Bool} (h : SpellableValue d v) (ht : Lexer.Fits d false ts) :
    Lexer.Fits d b (.value v :: ts) :=
  ⟨(spellableValue_iff.1 h).1, (spellableValue_iff.1 h).2, ht⟩

theorem fits_dash {negated : Bool} {ts : List Token} (hd : d = .relational → negated = false)
    (h : ∀ b, Lexer.Fits d b ts) : Lexer.Fits d true (dash negated ++ ts) := by
  cases negated with
  | false => exact h true
  | true =>
    refine ⟨?_, rfl, h false⟩
    cases d with
    | document => rfl
    | relational => cases hd rfl

theorem fits_leafTokens {l : Leaf} {ts : List Token} (hl : SpellableLeaf d l) (ht : Lexer.Fits d false ts) :
    Lexer.Fits d true (leafTokens l ++ ts) := by
  cases l with
  | bare v negated =>
    obtain ⟨hv, hd⟩ := hl
    rw [leafTokens, List.append_assoc]
    exact fits_dash hd fun b => fits_value hv ht
  | keyed field op v negated =>
    obtain ⟨hf, hv, hd⟩ := hl
    rw [leafTokens, List.append_assoc]
    refine fits_dash hd fun b => ⟨?_, Value.isTyped_ofRun field, ⟨v, ts, rfl⟩, fits_value hv ht⟩
    rwa [Value.text_ofRun]

theorem fits_enclose {us ts : List Token} {group : Bool}
    (h : ∀ {ts}, Lexer.Fits d false ts → Lexer.Fits d true (us ++ ts)) (ht : Lexer.Fits d false ts) :
    Lexer.Fits d true (enclose group us ++ ts) := by
  cases group with
  | false => exact h ht
  | true =>
    have hclose : Lexer.Fits d false (.closeGroup :: ts) := ht
    have hus := h hclose
    rw [enclose, if_pos rfl, List.cons_append, List.append_assoc]
    exact hus

mutual

theorem fits_tokensOf : ∀ {q : Query}, q.Branching → (∀ l ∈ q.atoms, SpellableLeaf d l) → ∀ {ts : List Token},
    Lexer.Fits d false ts → Lexer.Fits d true (tokensOf q ++ ts)
  | .atom l, _, hl, _, ht => fits_leafTokens (hl l (List.mem_singleton_self l)) ht
  | .all ps, ⟨h2, hb⟩, hl, _, ht => by
    have hsep : ∀ ts, Lexer.Fits d true ts → Lexer.Fits d false (.space :: ts) := fun _ h => h
    exact fits_separated hsep (ne_nil_of_two_le h2) hb hl ht
  | .any ps, ⟨h2, hb⟩, hl, _, ht => by
    have hsep : ∀ ts, Lexer.Fits d true ts → Lexer.Fits d false (.or :: ts) := fun _ h => h
    exact fits_separated hsep (ne_nil_of_two_le h2) hb hl ht

theorem fits_separated {sep : Token} {grouped : Query → Bool}
    (hsep : ∀ ts, Lexer.Fits d true ts → Lexer.Fits d false (sep :: ts)) :
    ∀ {ps : List Query}, ps ≠ [] → Formula.BranchingList ps →
      (∀ l ∈ Formula.atomsList ps, SpellableLeaf d l) → ∀ {ts : List Token}, Lexer.Fits d false ts →
        Lexer.Fits d true (separated sep grouped ps ++ ts)
  | [p], _, ⟨hp, _⟩, hl, _, ht =>
    fits_enclose (fits_tokensOf hp fun l h => hl l (List.mem_append_left _ h)) ht
  | p :: q :: ps, _, ⟨hp, hps⟩, hl, ts, ht => by
    rw [separated, List.append_assoc, List.cons_append]
    refine fits_enclose (fits_tokensOf hp fun l h => hl l (List.mem_append_left _ h)) (hsep _ ?_)
    exact fits_separated hsep (List.cons_ne_nil q ps) hps (fun l h => hl l (List.mem_append_right _ h)) ht

end

/-- The canonical spelling is read as the query that it spells. -/
theorem parse_spelling {q : Query} (h : Spellable d q) : parse d (spelling q) = .ok q := by
  have hend : Lexer.Fits d false [] := trivial
  have hfits := fits_tokensOf h.branching h.leaves hend
  rw [List.append_nil] at hfits
  obtain ⟨ts, hlex, hts⟩ := Lexer.lexes_of_fits hfits 0
  have hd := derives_tokensOf h.branching
  have hn := nestsWithin_tokensOf h.branching maxDepth h.nesting
  rw [← hts] at hd hn
  rw [parse, Lexer.tokens, spelling, String.toList_ofList, hlex]
  exact parseTokens_of_derives hd hn

end CompactSearch.Grammar

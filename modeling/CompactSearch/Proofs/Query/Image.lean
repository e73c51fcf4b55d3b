/-
The queries that texts spell. Whatever text a query is read from, its connectives have two parts or more, its fields
and values could be typed, and the groups that it needs were there in the text; and every such query has a text, its
canonical spelling (`parse_image`). The bound on the groups bounds the height of the query.
-/
import CompactSearch.Proofs.Query.Reading
import CompactSearch.Proofs.Query.Spelling

namespace CompactSearch.Grammar

variable {d : Dialect}

/-! ## From spellings of tokens to leaves -/

theorem spellableValue_of_spells {v : Value} (h : ∃ w, Lexer.Spells d (.value v) w) : SpellableValue d v := by
  obtain ⟨w, h⟩ := h
  cases h with
  | @value run k hrun =>
    refine spellableValue_iff.2 ⟨?_, Value.isTyped_ofRun _⟩
    rwa [Value.text_ofRun, String.toList_ofList]

theorem unnegated_of_spells {negated : Bool} {ts : List Token}
    (h : ∀ t ∈ dash negated ++ ts, ∃ w, Lexer.Spells d t w) : d = .relational → negated = false := by
  rintro rfl
  cases negated with
  | false => rfl
  | true =>
    obtain ⟨w, hw⟩ := h .minus List.mem_cons_self
    cases hw with
    | minus hd => cases hd

theorem spellableLeaf_of_derives {ts : List Token} {l : Leaf} (h : DerivesLeaf ts l)
    (hs : ∀ t ∈ ts, ∃ w, Lexer.Spells d t w) : SpellableLeaf d l := by
  cases h with
  | bare negated v => exact ⟨spellableValue_of_spells (hs _ (by simp)), unnegated_of_spells hs⟩
  | keyed negated f op v =>
    have hf : SpellableValue d f := spellableValue_of_spells (hs _ (by simp))
    exact ⟨(spellableValue_iff.1 hf).1, spellableValue_of_spells (hs _ (by simp)), unnegated_of_spells hs⟩

/-! ## From derivations to queries -/

/-- The query can be spelled inside `k` groups, its own counted where `grouped` asks for one. -/
structure SpellableIn (d : Dialect) (k : Nat) (grouped : Query → Bool) (q : Query) : Prop where
  branching : q.Branching
  leaves : ∀ l ∈ q.atoms, SpellableLeaf d l
  nesting : nesting q + (grouped q).toNat ≤ k

/-- A part that stands alone needs no group. -/
def ungrouped (_ : Query) : Bool := false

namespace SpellableIn

theorem atom {l : Leaf} {k : Nat} (h : SpellableLeaf d l) : SpellableIn d k groupedInAll (.atom l) :=
  ⟨trivial, fun _ hl => List.mem_singleton.1 hl ▸ h, Nat.zero_le k⟩

theorem leaves_of_parts {qs : List Query} {k : Nat} {grouped : Query → Bool}
    (h : ∀ q ∈ qs, SpellableIn d k grouped q) : ∀ l ∈ Formula.atomsList qs, SpellableLeaf d l := by
  intro l hl
  obtain ⟨q, hq, hl⟩ := Formula.mem_atomsList.1 hl
  exact (h q hq).leaves l hl

theorem all {qs : List Query} {k : Nat} (h2 : 2 ≤ qs.length) (h : ∀ q ∈ qs, SpellableIn d k groupedInAll q) :
    SpellableIn d k groupedInAny (.all qs) :=
  ⟨⟨h2, Formula.branchingList_iff.2 fun q hq => (h q hq).branching⟩, leaves_of_parts h,
    nestingOf_le_iff.2 fun q hq => (h q hq).nesting⟩

theorem any {qs : List Query} {k : Nat} (h2 : 2 ≤ qs.length) (h : ∀ q ∈ qs, SpellableIn d k groupedInAny q) :
    SpellableIn d k ungrouped (.any qs) :=
  ⟨⟨h2, Formula.branchingList_iff.2 fun q hq => (h q hq).branching⟩, leaves_of_parts h,
    nestingOf_le_iff.2 fun q hq => (h q hq).nesting⟩

/-- A group makes room for any query that fits inside it. -/
theorem group {q : Query} {k : Nat} (h : SpellableIn d k ungrouped q) : SpellableIn d (k + 1) groupedInAll q :=
  ⟨h.branching, h.leaves, Nat.add_le_add h.nesting (Bool.toNat_le _)⟩

/-- What needs no group as a conjunct needs none as a disjunct. -/
theorem conjunct {q : Query} {k : Nat} (h : SpellableIn d k groupedInAll q) : SpellableIn d k groupedInAny q := by
  have hle : (groupedInAny q).toNat ≤ (groupedInAll q).toNat := by cases q <;> simp [groupedInAny, groupedInAll]
  exact ⟨h.branching, h.leaves, (Nat.add_le_add_left hle _).trans h.nesting⟩

theorem disjunct {q : Query} {k : Nat} (h : SpellableIn d k groupedInAny q) : SpellableIn d k ungrouped q :=
  ⟨h.branching, h.leaves, (Nat.le_add_right _ _).trans h.nesting⟩

end SpellableIn

mutual

theorem spellable_atom : ∀ {ts : List Token} {q : Query}, DerivesAtom ts q → ∀ {k : Nat}, NestsWithin k ts →
    (∀ t ∈ ts, ∃ w, Lexer.Spells d t w) → SpellableIn d k groupedInAll q
  | _, _, .leaf h, _, _, hs => .atom (spellableLeaf_of_derives h hs)
  | _, _, .group h, _, hn, hs => by
    obtain ⟨j, rfl, hj⟩ := (nestsWithin_group (balanced_disjunction h)).1 hn
    rw [List.forall_mem_cons, List.forall_mem_append] at hs
    exact (spellable_disjunction h hj hs.2.1).group

theorem spellable_conjuncts : ∀ {ts : List Token} {qs : List Query}, DerivesConjuncts ts qs → ∀ {k : Nat},
    NestsWithin k ts → (∀ t ∈ ts, ∃ w, Lexer.Spells d t w) → ∀ q ∈ qs, SpellableIn d k groupedInAll q
  | _, _, .one h, _, hn, hs => List.forall_mem_singleton.2 (spellable_atom h hn hs)
  | _, _, .more h h', _, hn, hs => by
    obtain ⟨hn, hn'⟩ := (nestsWithin_separated (balanced_conjuncts h) (by decide) (by decide)).1 hn
    rw [List.forall_mem_append, List.forall_mem_cons] at hs
    rw [List.forall_mem_append, List.forall_mem_singleton]
    exact ⟨spellable_conjuncts h hn hs.1, spellable_atom h' hn' hs.2.2⟩

theorem spellable_conjunction : ∀ {ts : List Token} {q : Query}, DerivesConjunction ts q → ∀ {k : Nat},
    NestsWithin k ts → (∀ t ∈ ts, ∃ w, Lexer.Spells d t w) → SpellableIn d k groupedInAny q
  | _, _, .single h, _, hn, hs => (spellable_atom h hn hs).conjunct
  | _, _, .flat h h2, _, hn, hs => .all h2 (spellable_conjuncts h hn hs)

theorem spellable_disjuncts : ∀ {ts : List Token} {qs : List Query}, DerivesDisjuncts ts qs → ∀ {k : Nat},
    NestsWithin k ts → (∀ t ∈ ts, ∃ w, Lexer.Spells d t w) → ∀ q ∈ qs, SpellableIn d k groupedInAny q
  | _, _, .one h, _, hn, hs => List.forall_mem_singleton.2 (spellable_conjunction h hn hs)
  | _, _, .more h h', _, hn, hs => by
    obtain ⟨hn, hn'⟩ := (nestsWithin_separated (balanced_disjuncts h) (by decide) (by decide)).1 hn
    rw [List.forall_mem_append, List.forall_mem_cons] at hs
    rw [List.forall_mem_append, List.forall_mem_singleton]
    exact ⟨spellable_disjuncts h hn hs.1, spellable_conjunction h' hn' hs.2.2⟩

theorem spellable_disjunction : ∀ {ts : List Token} {q : Query}, DerivesDisjunction ts q → ∀ {k : Nat},
    NestsWithin k ts → (∀ t ∈ ts, ∃ w, Lexer.Spells d t w) → SpellableIn d k ungrouped q
  | _, _, .single h, _, hn, hs => (spellable_conjunction h hn hs).disjunct
  | _, _, .flat h h2, _, hn, hs => .any h2 (spellable_disjuncts h hn hs)

end

/-- A query that is read from some text can be spelled. -/
theorem spellable_of_parse {s : String} {q : Query} (h : parse d s = .ok q) : Spellable d q := by
  obtain ⟨ts, b, hcut, hd, hn⟩ := parse_eq_ok_iff.1 h
  have hs := spellable_disjunction hd hn (List.forall_mem_map.2 (Lexer.spells_of_cuts hcut))
  exact ⟨hs.branching, hs.leaves, hs.nesting⟩

/-! ## Height -/

mutual

/-- Between two groups there is room for one conjunction inside one disjunction. -/
theorem height_le : ∀ q : Query,
    q.height ≤ 2 * nesting q + (groupedInAll q).toNat + (groupedInAny q).toNat
  | .atom _ => Nat.zero_le _
  | .all ps => Nat.succ_le_succ (heightList_le_all ps)
  | .any ps => Nat.succ_le_succ (heightList_le_any ps)

theorem heightList_le_all : ∀ ps : List Query, Formula.heightList ps ≤ 2 * nestingOf groupedInAll ps
  | [] => Nat.zero_le _
  | p :: ps => by
    have hp := height_le p
    have hps := heightList_le_all ps
    have hle : (groupedInAny p).toNat ≤ (groupedInAll p).toNat := by cases p <;> simp [groupedInAny, groupedInAll]
    rw [Formula.heightList, nestingOf]
    omega

theorem heightList_le_any : ∀ ps : List Query, Formula.heightList ps ≤ 2 * nestingOf groupedInAny ps + 1
  | [] => Nat.zero_le _
  | p :: ps => by
    have hp := height_le p
    have hps := heightList_le_any ps
    have hle : (groupedInAll p).toNat ≤ (groupedInAny p).toNat + 1 := (Bool.toNat_le _).trans (Nat.le_add_left _ _)
    rw [Formula.heightList, nestingOf]
    omega

end

/-- The texts of a dialect spell exactly the queries whose connectives have two parts or more, whose fields and values
can be typed, that are negated only where the dialect has negation, and that need no more than `maxDepth` groups inside
each other. Each of them is read back from its canonical spelling, and no text makes a query higher than 258. -/
theorem parse_image (d : Dialect) :
    (∀ q, (∃ s, parse d s = .ok q) ↔ Spellable d q) ∧
      (∀ q, Spellable d q → parse d (spelling q) = .ok q) ∧
      ∀ s q, parse d s = .ok q → q.height ≤ 258 := by
  refine ⟨fun q => ⟨fun ⟨s, h⟩ => spellable_of_parse h, fun h => ⟨_, parse_spelling h⟩⟩, fun q => parse_spelling, ?_⟩
  intro s q h
  have hn := (spellable_of_parse h).nesting
  have hall := Bool.toNat_le (groupedInAll q)
  have hany := Bool.toNat_le (groupedInAny q)
  calc q.height
    _ ≤ 2 * nesting q + (groupedInAll q).toNat + (groupedInAny q).toNat := height_le q
    _ ≤ 2 * maxDepth + 1 + 1 := by omega

/-- A negated leaf, a group, and texts that only quotes keep from being read as something else. -/
theorem parse_image_negated_group :
    let q : Query := .any [
      .all [.atom (.bare (.string "OR") true),
        .any [.atom (.bare (.string "a") false), .atom (.keyed "-b" .lte .null false)]],
      .atom (.bare (.string "c") false)]
    Spellable .document q ∧ spelling q = "-\"OR\" (\"a\" OR \"-b\"<=\"NULL\") OR \"c\"" ∧
      parse .document (spelling q) = .ok q ∧ q.height ≤ 258 := by
  intro q
  have hq : Spellable .document q := by decide
  have hp := (parse_image .document).2.1 q hq
  exact ⟨hq, by decide, hp, (parse_image .document).2.2 _ q hp⟩

end CompactSearch.Grammar

/-
Derivations of queries, said without the machine that reads them: which lists of tokens the grammar derives, and which
formula each derivation stands for. One conjunct or disjunct stands for itself, two or more make one flat formula with
the parts in order, and a group stands for what it encloses. How deeply groups nest is a property of the tokens alone.

Every derivable list closes exactly the groups that it opens, so the depth of a list put together from derivable parts
is decided part by part.
-/
import CompactSearch.Query.Grammar
import Mathlib.Data.List.Infix

namespace CompactSearch.Grammar

/-! ## Derivations -/

/-- The sign in front of a leaf. -/
def dash (negated : Bool) : List Token := if negated then [.minus] else []

/-- `leaf = ["-"] value [operator value]`. The text of the first value is the field of a keyed leaf. -/
inductive DerivesLeaf : List Token → Leaf → Prop
  | bare (negated : Bool) (v : Value) : DerivesLeaf (dash negated ++ [.value v]) (.bare v negated)
  | keyed (negated : Bool) (f : Value) (op : Operator) (v : Value) :
    DerivesLeaf (dash negated ++ [.value f, .op op, .value v]) (.keyed f.text op v negated)

mutual

/-- `atom = "(" disjunction ")" | leaf`. -/
inductive DerivesAtom : List Token → Query → Prop
  | leaf {ts : List Token} {l : Leaf} : DerivesLeaf ts l → DerivesAtom ts (.atom l)
  | group {ts : List Token} {q : Query} :
    DerivesDisjunction ts q → DerivesAtom (.openGroup :: (ts ++ [.closeGroup])) q

/-- `atom (" " atom)*`, with the formulas of the atoms in order. -/
inductive DerivesConjuncts : List Token → List Query → Prop
  | one {ts : List Token} {q : Query} : DerivesAtom ts q → DerivesConjuncts ts [q]
  | more {ts us : List Token} {qs : List Query} {q : Query} :
    DerivesConjuncts ts qs → DerivesAtom us q → DerivesConjuncts (ts ++ .space :: us) (qs ++ [q])

/-- A conjunction: one atom as it is, or two and more as one formula. -/
inductive DerivesConjunction : List Token → Query → Prop
  | single {ts : List Token} {q : Query} : DerivesAtom ts q → DerivesConjunction ts q
  | flat {ts : List Token} {qs : List Query} :
    DerivesConjuncts ts qs → 2 ≤ qs.length → DerivesConjunction ts (.all qs)

/-- `conjunction (" OR " conjunction)*`, with the formulas of the conjunctions in order. -/
inductive DerivesDisjuncts : List Token → List Query → Prop
  | one {ts : List Token} {q : Query} : DerivesConjunction ts q → DerivesDisjuncts ts [q]
  | more {ts us : List Token} {qs : List Query} {q : Query} :
    DerivesDisjuncts ts qs → DerivesConjunction us q → DerivesDisjuncts (ts ++ .or :: us) (qs ++ [q])

/-- A disjunction: one conjunction as it is, or two and more as one formula. -/
inductive DerivesDisjunction : List Token → Query → Prop
  | single {ts : List Token} {q : Query} : DerivesConjunction ts q → DerivesDisjunction ts q
  | flat {ts : List Token} {qs : List Query} :
    DerivesDisjuncts ts qs → 2 ≤ qs.length → DerivesDisjunction ts (.any qs)

end

theorem conjoin_of_two_le : ∀ {qs : List Query}, 2 ≤ qs.length → conjoin qs = .all qs
  | _ :: _ :: _, _ => rfl

theorem disjoin_of_two_le : ∀ {qs : List Query}, 2 ≤ qs.length → disjoin qs = .any qs
  | _ :: _ :: _, _ => rfl

theorem derivesConjunction_conjoin {ts : List Token} {qs : List Query} (h : DerivesConjuncts ts qs) :
    DerivesConjunction ts (conjoin qs) := by
  by_cases h2 : 2 ≤ qs.length
  · rw [conjoin_of_two_le h2]
    exact .flat h h2
  · cases h with
    | one h => exact .single h
    | more h hq => exact absurd (by cases h <;> simp) h2

theorem derivesDisjunction_disjoin {ts : List Token} {qs : List Query} (h : DerivesDisjuncts ts qs) :
    DerivesDisjunction ts (disjoin qs) := by
  by_cases h2 : 2 ≤ qs.length
  · rw [disjoin_of_two_le h2]
    exact .flat h h2
  · cases h with
    | one h => exact .single h
    | more h hq => exact absurd (by cases h <;> simp) h2

/-! ## Parts in front -/

theorem derivesConjuncts_cons {ts us : List Token} {q : Query} {qs : List Query} (hq : DerivesAtom ts q)
    (h : DerivesConjuncts us qs) : DerivesConjuncts (ts ++ .space :: us) (q :: qs) := by
  cases h with
  | one h => exact .more (.one hq) h
  | more h h' =>
    have := DerivesConjuncts.more (derivesConjuncts_cons hq h) h'
    rwa [List.append_assoc, List.cons_append] at this
termination_by us.length
decreasing_by
  rw [List.length_append, List.length_cons]
  omega

theorem derivesDisjuncts_cons {ts us : List Token} {q : Query} {qs : List Query} (hq : DerivesConjunction ts q)
    (h : DerivesDisjuncts us qs) : DerivesDisjuncts (ts ++ .or :: us) (q :: qs) := by
  cases h with
  | one h => exact .more (.one hq) h
  | more h h' =>
    have := DerivesDisjuncts.more (derivesDisjuncts_cons hq h) h'
    rwa [List.append_assoc, List.cons_append] at this
termination_by us.length
decreasing_by
  rw [List.length_append, List.length_cons]
  omega

/-! ## Groups opened and closed -/

/-- The list closes as many groups as it opens. -/
def Balanced (ts : List Token) : Prop := ts.count .openGroup = ts.count .closeGroup

theorem balanced_nil : Balanced [] := rfl

theorem Balanced.append {ts us : List Token} (h : Balanced ts) (h' : Balanced us) : Balanced (ts ++ us) := by
  unfold Balanced at *
  rw [List.count_append, List.count_append, h, h']

theorem Balanced.separated {ts us : List Token} (h : Balanced ts) (h' : Balanced us) {sep : Token}
    (ho : sep ≠ .openGroup) (hc : sep ≠ .closeGroup) : Balanced (ts ++ sep :: us) := by
  refine h.append ?_
  unfold Balanced at *
  rw [List.count_cons_of_ne ho, List.count_cons_of_ne hc, h']

theorem Balanced.group {ts : List Token} (h : Balanced ts) : Balanced (.openGroup :: (ts ++ [.closeGroup])) := by
  unfold Balanced at *
  simp [h]

theorem balanced_leaf {ts : List Token} {l : Leaf} (h : DerivesLeaf ts l) : Balanced ts := by
  cases h with
  | bare negated v => cases negated <;> simp [Balanced, dash]
  | keyed negated f op v => cases negated <;> simp [Balanced, dash]

mutual

theorem balanced_atom : ∀ {ts : List Token} {q : Query}, DerivesAtom ts q → Balanced ts
  | _, _, .leaf h => balanced_leaf h
  | _, _, .group h => (balanced_disjunction h).group

theorem balanced_conjuncts : ∀ {ts : List Token} {qs : List Query}, DerivesConjuncts ts qs → Balanced ts
  | _, _, .one h => balanced_atom h
  | _, _, .more h h' => (balanced_conjuncts h).separated (balanced_atom h') (by decide) (by decide)

theorem balanced_conjunction : ∀ {ts : List Token} {q : Query}, DerivesConjunction ts q → Balanced ts
  | _, _, .single h => balanced_atom h
  | _, _, .flat h _ => balanced_conjuncts h

theorem balanced_disjuncts : ∀ {ts : List Token} {qs : List Query}, DerivesDisjuncts ts qs → Balanced ts
  | _, _, .one h => balanced_conjunction h
  | _, _, .more h h' => (balanced_disjuncts h).separated (balanced_conjunction h') (by decide) (by decide)

theorem balanced_disjunction : ∀ {ts : List Token} {q : Query}, DerivesDisjunction ts q → Balanced ts
  | _, _, .single h => balanced_conjunction h
  | _, _, .flat h _ => balanced_disjuncts h

end

/-! ## Depth -/

/-- No token lies inside more than `k` open groups: no prefix opens more than `k` groups that it does not close. -/
def NestsWithin (k : Nat) (ts : List Token) : Prop :=
  ∀ pre, pre <+: ts → pre.count .openGroup ≤ pre.count .closeGroup + k

instance (k : Nat) (ts : List Token) : Decidable (NestsWithin k ts) :=
  decidable_of_iff (∀ pre ∈ ts.inits, pre.count .openGroup ≤ pre.count .closeGroup + k)
    (by simp only [NestsWithin, List.mem_inits])

theorem nestsWithin_nil (k : Nat) : NestsWithin k [] := by
  intro pre h
  rw [List.prefix_nil.1 h]
  simp

/-- Reading one more token keeps the depth if the whole list does. -/
theorem NestsWithin.concat {k : Nat} {ts : List Token} {t : Token} (h : NestsWithin k ts)
    (hk : (ts ++ [t]).count .openGroup ≤ (ts ++ [t]).count .closeGroup + k) : NestsWithin k (ts ++ [t]) := by
  intro pre hp
  rcases List.prefix_concat_iff.1 hp with rfl | hp
  · exact hk
  · exact h pre hp

theorem nestsWithin_append {k : Nat} {ts us : List Token} (hb : Balanced ts) :
    NestsWithin k (ts ++ us) ↔ NestsWithin k ts ∧ NestsWithin k us := by
  constructor
  · intro h
    refine ⟨fun pre hp => h pre (List.prefix_append_of_prefix hp), fun pre hp => ?_⟩
    have := h (ts ++ pre) ((List.prefix_append_right_inj ts).2 hp)
    rw [List.count_append, List.count_append] at this
    unfold Balanced at hb
    omega
  · rintro ⟨h1, h2⟩ pre hp
    rcases List.prefix_or_prefix_of_prefix hp (List.prefix_append ts us) with h | ⟨rest, rfl⟩
    · exact h1 pre h
    · have := h2 rest ((List.prefix_append_right_inj ts).1 hp)
      rw [List.count_append, List.count_append]
      unfold Balanced at hb
      omega

theorem nestsWithin_cons {k : Nat} {sep : Token} {ts : List Token} (ho : sep ≠ .openGroup)
    (hc : sep ≠ .closeGroup) : NestsWithin k (sep :: ts) ↔ NestsWithin k ts := by
  constructor
  · intro h pre hp
    have := h (sep :: pre) ((List.prefix_cons_inj sep).2 hp)
    rwa [List.count_cons_of_ne ho, List.count_cons_of_ne hc] at this
  · intro h pre hp
    rcases List.prefix_cons_iff.1 hp with rfl | ⟨rest, rfl, hr⟩
    · simp
    · rw [List.count_cons_of_ne ho, List.count_cons_of_ne hc]
      exact h rest hr

theorem nestsWithin_separated {k : Nat} {ts us : List Token} (hb : Balanced ts) {sep : Token}
    (ho : sep ≠ .openGroup) (hc : sep ≠ .closeGroup) :
    NestsWithin k (ts ++ sep :: us) ↔ NestsWithin k ts ∧ NestsWithin k us := by
  rw [nestsWithin_append hb, nestsWithin_cons ho hc]

/-- A group nests one deeper than what it encloses. -/
theorem nestsWithin_group {k : Nat} {ts : List Token} (hb : Balanced ts) :
    NestsWithin k (.openGroup :: (ts ++ [.closeGroup])) ↔ ∃ j, k = j + 1 ∧ NestsWithin j ts := by
  constructor
  · intro h
    have h1 := h [.openGroup] ⟨ts ++ [.closeGroup], rfl⟩
    simp at h1
    refine ⟨k - 1, by omega, fun pre hp => ?_⟩
    have := h (.openGroup :: pre) ((List.prefix_cons_inj _).2 (List.prefix_append_of_prefix hp))
    simp at this
    omega
  · rintro ⟨j, rfl, h⟩ pre hp
    rcases List.prefix_cons_iff.1 hp with rfl | ⟨rest, rfl, hr⟩
    · simp
    rcases List.prefix_concat_iff.1 hr with rfl | hr
    · unfold Balanced at hb
      simp [hb]
    · have := h rest hr
      simp
      omega

end CompactSearch.Grammar

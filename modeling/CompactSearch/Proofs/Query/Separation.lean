/-
The leaves of a text and what stands between them. Apart from the parentheses, a query is a row of leaves with one
separator between any two neighbours (`LeafRow`). The leaves are the atoms of the formula in the same order, and each
separator says which connective the formula has at the meet of the two atoms beside it (`parse_separators`).

Parentheses are dropped token by token, so that a group is the same row as what it encloses. The row of a derivation is
then put together in the same way as the gaps of its formula, which is why the induction is on the derivation.
-/
import CompactSearch.Proofs.Formula.Address
import CompactSearch.Proofs.Query.Image
import CompactSearch.Proofs.Query.Lossless

namespace CompactSearch

/-! ## Separators -/

/-- The token that joins with the connective. -/
def Connective.separator : Connective → Token
  | .all => .space
  | .any => .or

namespace Token

/-- The connective that a token joins with, if it is a separator. -/
def connective? : Token → Option Connective
  | space => some .all
  | or => some .any
  | _ => none

/-- The token opens or closes a group. -/
def isParenthesis : Token → Bool
  | openGroup | closeGroup => true
  | _ => false

theorem connective?_eq_some_iff {t : Token} {k : Connective} : t.connective? = some k ↔ t = k.separator := by
  cases t <;> cases k <;> simp [connective?, Connective.separator]

end Token

namespace Grammar

variable {d : Dialect} {k : Connective} {t : Token} {ts us : List Token} {l : Leaf} {ls ms : List Leaf}
  {ks js : List Connective} {q : Query} {qs : List Query}

/-- The tokens without parentheses. -/
def withoutParentheses (ts : List Token) : List Token := ts.filter (!·.isParenthesis)

theorem withoutParentheses_append (ts us : List Token) :
    withoutParentheses (ts ++ us) = withoutParentheses ts ++ withoutParentheses us := List.filter_append ..

theorem withoutParentheses_separator (k : Connective) (us : List Token) :
    withoutParentheses (k.separator :: us) = k.separator :: withoutParentheses us := by
  cases k <;> rfl

theorem withoutParentheses_group (ts : List Token) :
    withoutParentheses (.openGroup :: (ts ++ [.closeGroup])) = withoutParentheses ts := by
  have hopen : withoutParentheses (.openGroup :: (ts ++ [.closeGroup])) = withoutParentheses (ts ++ [.closeGroup]) :=
    rfl
  have hclose : withoutParentheses [.closeGroup] = [] := rfl
  rw [hopen, withoutParentheses_append, hclose, List.append_nil]

theorem withoutParentheses_of_forall_ne (h : ∀ t ∈ ts, t.isParenthesis = false) : withoutParentheses ts = ts := by
  unfold withoutParentheses
  rw [List.filter_eq_self]
  intro t ht
  rw [h t ht]
  rfl

/-! ## Rows of leaves -/

/-- The tokens are those of the leaves, with one separator between any two neighbours. -/
inductive LeafRow : List Token → List Leaf → List Connective → Prop
  | one {ts : List Token} {l : Leaf} (h : DerivesLeaf ts l) : LeafRow ts [l] []
  | more {ts us : List Token} {l : Leaf} {ls : List Leaf} {k : Connective} {ks : List Connective}
    (h : DerivesLeaf ts l) (hr : LeafRow us ls ks) : LeafRow (ts ++ k.separator :: us) (l :: ls) (k :: ks)

theorem LeafRow.append (h : LeafRow ts ls ks) (k : Connective) (h' : LeafRow us ms js) :
    LeafRow (ts ++ k.separator :: us) (ls ++ ms) (ks ++ k :: js) := by
  -- on the first row, since a row grows at its front
  induction h with
  | one h => exact .more h h'
  | more h _ ih =>
    rw [List.append_assoc, List.cons_append]
    exact .more h ih

/-- A leaf consists of neither parentheses nor separators. -/
theorem token_of_leaf (h : DerivesLeaf ts l) : ∀ t ∈ ts, t.isParenthesis = false ∧ t.connective? = none := by
  cases h with
  | bare negated v => cases negated <;> simp [dash, Token.isParenthesis, Token.connective?]
  | keyed negated f op v => cases negated <;> simp [dash, Token.isParenthesis, Token.connective?]

/-- The separators of a row are all that it has. -/
theorem LeafRow.separators (h : LeafRow ts ls ks) : ts.filterMap Token.connective? = ks := by
  have hleaf : ∀ {ts : List Token} {l : Leaf}, DerivesLeaf ts l → ts.filterMap Token.connective? = [] := by
    intro ts l h
    rw [List.filterMap_eq_nil_iff]
    exact fun t ht => (token_of_leaf h t ht).2
  induction h with
  | one h => exact hleaf h
  | @more _ _ _ _ k _ h _ ih =>
    have hk : k.separator.connective? = some k := Token.connective?_eq_some_iff.2 rfl
    rw [List.filterMap_append, hleaf h, List.nil_append, List.filterMap_cons_some hk, ih]

theorem leafRow_more (k : Connective) (hqs : qs ≠ [])
    (h : LeafRow (withoutParentheses ts) (Formula.atomsList qs) (Formula.gapsList k qs))
    (hq : LeafRow (withoutParentheses us) q.atoms q.gaps) :
    LeafRow (withoutParentheses (ts ++ k.separator :: us)) (Formula.atomsList (qs ++ [q]))
      (Formula.gapsList k (qs ++ [q])) := by
  have hatoms : Formula.atomsList [q] = q.atoms := List.append_nil _
  rw [withoutParentheses_append, withoutParentheses_separator, Formula.atomsList_append, hatoms,
    Formula.gapsList_concat k q hqs]
  exact h.append k hq

theorem leafRow_one (k : Connective) (h : LeafRow (withoutParentheses ts) q.atoms q.gaps) :
    LeafRow (withoutParentheses ts) (Formula.atomsList [q]) (Formula.gapsList k [q]) := by
  have hatoms : Formula.atomsList [q] = q.atoms := List.append_nil _
  rw [hatoms, Formula.gapsList]
  exact h

theorem ne_nil_of_conjuncts (h : DerivesConjuncts ts qs) : qs ≠ [] := by
  cases h with
  | one => exact List.cons_ne_nil _ _
  | more => simp

theorem ne_nil_of_disjuncts (h : DerivesDisjuncts ts qs) : qs ≠ [] := by
  cases h with
  | one => exact List.cons_ne_nil _ _
  | more => simp

mutual

theorem leafRow_atom : ∀ {ts : List Token} {q : Query}, DerivesAtom ts q →
    LeafRow (withoutParentheses ts) q.atoms q.gaps
  | _, _, .leaf h => by
    rw [withoutParentheses_of_forall_ne fun t ht => (token_of_leaf h t ht).1]
    exact .one h
  | _, _, .group h => by
    rw [withoutParentheses_group]
    exact leafRow_disjunction h

theorem leafRow_conjuncts : ∀ {ts : List Token} {qs : List Query}, DerivesConjuncts ts qs →
    LeafRow (withoutParentheses ts) (Formula.atomsList qs) (Formula.gapsList .all qs)
  | _, _, .one h => leafRow_one .all (leafRow_atom h)
  | _, _, .more h h' => leafRow_more .all (ne_nil_of_conjuncts h) (leafRow_conjuncts h) (leafRow_atom h')

theorem leafRow_conjunction : ∀ {ts : List Token} {q : Query}, DerivesConjunction ts q →
    LeafRow (withoutParentheses ts) q.atoms q.gaps
  | _, _, .single h => leafRow_atom h
  | _, _, .flat h _ => leafRow_conjuncts h

theorem leafRow_disjuncts : ∀ {ts : List Token} {qs : List Query}, DerivesDisjuncts ts qs →
    LeafRow (withoutParentheses ts) (Formula.atomsList qs) (Formula.gapsList .any qs)
  | _, _, .one h => leafRow_one .any (leafRow_conjunction h)
  | _, _, .more h h' => leafRow_more .any (ne_nil_of_disjuncts h) (leafRow_disjuncts h) (leafRow_conjunction h')

theorem leafRow_disjunction : ∀ {ts : List Token} {q : Query}, DerivesDisjunction ts q →
    LeafRow (withoutParentheses ts) q.atoms q.gaps
  | _, _, .single h => leafRow_conjunction h
  | _, _, .flat h _ => leafRow_disjuncts h

end

/-! ## Queries and their texts -/

open Lexer

theorem separators_withoutParentheses (ts : List Token) :
    (withoutParentheses ts).filterMap Token.connective? = ts.filterMap Token.connective? := by
  induction ts with
  | nil => rfl
  | cons t ts ih =>
    cases t with
    | openGroup | closeGroup => exact ih
    | space | or => exact congrArg (_ :: ·) ih
    | value | op | minus => exact ih

/-- A text without spaces has no separator. -/
theorem separators_of_no_space {xs : List Placed} {cs : List Char} {b b' : Bool} {p : Nat}
    (h : Cuts d b p cs [] xs b') (hs : ' ' ∉ cs) : (xs.map (·.token)).filterMap Token.connective? = [] := by
  rw [List.filterMap_eq_nil_iff]
  intro t ht
  obtain ⟨x, hx, rfl⟩ := List.mem_map.1 ht
  obtain ⟨xs₁, xs₂, rfl⟩ := List.append_of_mem hx
  obtain ⟨v, w, b₁, rfl, -, hback⟩ := h.split
  cases hback with
  | @token _ _ _ t u _ _ _ htakes _ =>
    have hu : ' ' ∉ u := fun hmem => hs (List.mem_append_right v (List.mem_append_left _ hmem))
    cases t with
    | space => cases htakes; simp at hu
    | or => cases htakes; simp at hu
    | value | op | minus | openGroup | closeGroup => rfl

/-- A separator tells the connective at a place from the other one. -/
theorem separator_eq_iff {a : List Nat} (hk : q.HasAt a k) (j : Connective) :
    k.separator = j.separator ↔ q.HasAt a j := by
  constructor
  · intro h
    cases k <;> cases j
    · exact hk
    · cases h
    · cases h
    · exact hk
  · intro hj
    rw [Formula.hasAt_unique hk hj]

/-- A query with one atom is this atom. -/
theorem atom_of_atomCount (hq : q.Branching) (h : q.atomCount = 1) : ∃ l, q = .atom l := by
  cases q with
  | atom l => exact ⟨l, rfl⟩
  | all ps | any ps =>
    have hle := Formula.length_le_atomsList hq.2
    have h2 := hq.1
    simp only [Formula.atomCount, Formula.atoms] at h
    omega

/-- The atoms of a query are the leaves of its text in the same order. Apart from parentheses, any two neighbours have
one separator between them, which is ` OR ` exactly if their lowest common connective is a disjunction, and a space
exactly if it is a conjunction. So there is one atom more than separators, and a text without spaces is one leaf. -/
theorem parse_separators {s : String} (h : parse d s = .ok q) :
    ∃ xs ks, tokens d s = .ok xs ∧
      List.Forall₂ (fun x w => Spells d x.token w) xs (cutAt s.toList (xs.map (·.position))) ∧
      LeafRow (withoutParentheses (xs.map (·.token))) q.atoms ks ∧
      List.Forall₂ (fun x l => q.part? x = some (.atom l)) q.addresses q.atoms ∧
      Formula.Between (fun x k y => (∃ a, Formula.IsMeet a x y) ∧ ∀ a, Formula.IsMeet a x y →
        (k.separator = .or ↔ ∃ ps, q.part? a = some (.any ps)) ∧
          (k.separator = .space ↔ ∃ ps, q.part? a = some (.all ps))) q.addresses ks ∧
      q.atomCount = ((xs.map (·.token)).filterMap Token.connective?).length + 1 ∧
      (' ' ∉ s.toList → ∃ l, q = .atom l) := by
  obtain ⟨xs, b, hcut, hderives, -⟩ := parse_eq_ok_iff.1 h
  have hbranching : q.Branching := (spellable_of_parse h).branching
  have hrow := leafRow_disjunction hderives
  have hbetween := Formula.between_addresses hbranching
  have haddresses := Formula.forall₂_addresses q
  -- a separator stands between any two neighbours and nowhere else, and a parenthesis is none
  have hcount : q.atomCount = ((xs.map (·.token)).filterMap Token.connective?).length + 1 := by
    rw [← separators_withoutParentheses, hrow.separators, ← hbetween.length]
    exact haddresses.length_eq.symm
  refine ⟨xs, q.gaps, tokensFrom_eq_ok_iff.2 ⟨b, hcut⟩, spells_cutAt (u := []) hcut rfl, hrow, haddresses, ?_, hcount,
    ?_⟩
  · refine hbetween.imp ?_
    rintro x k y ⟨a, hmeet, hk⟩
    refine ⟨⟨a, hmeet⟩, ?_⟩
    intro a' hmeet'
    obtain rfl := Formula.isMeet_unique hmeet hmeet'
    exact ⟨separator_eq_iff hk .any, separator_eq_iff hk .all⟩
  · intro hs
    rw [separators_of_no_space hcut hs] at hcount
    exact atom_of_atomCount hbranching hcount

/-- In `-a (b OR c>1)` a space stands in front of the group, and an ` OR ` inside of it. -/
theorem parse_separators_group :
    parse .document "-a (b OR c>1)" = .ok (.all [.atom (.bare (.string "a") true),
        .any [.atom (.bare (.string "b") false), .atom (.keyed "c" .gt (.number ⟨"1", by decide⟩) false)]]) ∧
      ∃ xs, tokens .document "-a (b OR c>1)" = .ok xs ∧
        LeafRow (withoutParentheses (xs.map (·.token))) [.bare (.string "a") true, .bare (.string "b") false,
          .keyed "c" .gt (.number ⟨"1", by decide⟩) false] [.all, .any] := by
  have h : parse .document "-a (b OR c>1)" = .ok (.all [.atom (.bare (.string "a") true),
      .any [.atom (.bare (.string "b") false), .atom (.keyed "c" .gt (.number ⟨"1", by decide⟩) false)]]) := by
    decide +kernel
  have htok : tokens .document "-a (b OR c>1)" = .ok [⟨.minus, 0⟩, ⟨.value (.string "a"), 1⟩, ⟨.space, 2⟩,
      ⟨.openGroup, 3⟩, ⟨.value (.string "b"), 4⟩, ⟨.or, 5⟩, ⟨.value (.string "c"), 9⟩, ⟨.op .gt, 10⟩,
      ⟨.value (.number ⟨"1", by decide⟩), 11⟩, ⟨.closeGroup, 12⟩] := by decide +kernel
  obtain ⟨xs, ks, hxs, -, hrow, -⟩ := parse_separators h
  rw [htok] at hxs
  cases hxs
  have hks : ks = [.all, .any] := hrow.separators.symm
  subst hks
  exact ⟨h, _, htok, hrow⟩

end Grammar

end CompactSearch

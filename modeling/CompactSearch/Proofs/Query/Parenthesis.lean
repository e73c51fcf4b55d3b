/-
Parentheses of a text. Parentheses are reserved, so that each of them is a token of its own and none stands in a value:
how deeply the parentheses of a text nest is how deeply the groups of its tokens do.
-/
import CompactSearch.Proofs.Query.Cut
import CompactSearch.Proofs.Query.Derivation

namespace CompactSearch

/-- No character of the text lies inside more than `k` open parentheses. -/
def ParensWithin (k : Nat) (cs : List Char) : Prop := ∀ pre, pre <+: cs → pre.count '(' ≤ pre.count ')' + k

instance (k : Nat) (cs : List Char) : Decidable (ParensWithin k cs) :=
  decidable_of_iff (∀ pre ∈ cs.inits, pre.count '(' ≤ pre.count ')' + k) (by simp only [ParensWithin, List.mem_inits])

namespace Lexer

variable {d : Dialect} {b b' : Bool} {p : Nat} {t : Token} {w v rest : List Char} {ts : List Placed}

/-- The parentheses of a text are the group signs among the tokens. -/
structure SameParens (cs : List Char) (us : List Token) : Prop where
  opening : cs.count '(' = us.count .openGroup
  closing : cs.count ')' = us.count .closeGroup

theorem SameParens.append {cs cs' : List Char} {us us' : List Token} (h : SameParens cs us) (h' : SameParens cs' us') :
    SameParens (cs ++ cs') (us ++ us') :=
  ⟨by rw [List.count_append, List.count_append, h.opening, h'.opening],
    by rw [List.count_append, List.count_append, h.closing, h'.closing]⟩

theorem count_run {c : Char} (h : IsRun d w) (hc : d.isReserved c = true) : w.count c = 0 := by
  refine List.count_eq_zero.2 fun hm => ?_
  rw [h.free c hm] at hc
  cases hc

theorem sameParens_takes (h : Takes d b t w rest) : SameParens w [t] := by
  cases h with
  | quoted k h =>
    have ho := count_run h (c := '(') (by cases d <;> rfl)
    have hc := count_run h (c := ')') (by cases d <;> rfl)
    constructor <;> simp [quotes, List.count_replicate, ho, hc]
  | run h _ _ =>
    have ho := count_run h (c := '(') (by cases d <;> rfl)
    have hc := count_run h (c := ')') (by cases d <;> rfl)
    constructor <;> simp [ho, hc]
  | op o _ => cases o <;> exact ⟨rfl, rfl⟩
  | minus | space | or | openGroup | closeGroup => exact ⟨rfl, rfl⟩

theorem sameParens_cuts (h : Cuts d b p v rest ts b') : SameParens v (ts.map (·.token)) := by
  induction h with
  | done => exact ⟨rfl, rfl⟩
  | token ht _ ih => exact (sameParens_takes ht).append ih

/-- Parentheses that nest within a bound make groups that do. -/
theorem nestsWithin_of_cuts {k : Nat} (h : Cuts d b p v rest ts b') (hv : ParensWithin k v) :
    Grammar.NestsWithin k (ts.map (·.token)) := by
  rintro pre ⟨post, hpost⟩
  obtain ⟨ts₁, ts₂, rfl, rfl, -⟩ := List.map_eq_append_iff.1 hpost.symm
  obtain ⟨v₁, v₂, _, rfl, h₁, -⟩ := h.split
  have hcount := sameParens_cuts h₁
  rw [← hcount.opening, ← hcount.closing]
  exact hv v₁ (List.prefix_append ..)

/-- An opening parenthesis is a token of its own. -/
theorem takes_of_mem (h : Takes d b t w rest) (hm : '(' ∈ w) : t = .openGroup ∧ w = ['('] := by
  have hmem : .openGroup ∈ [t] := List.count_pos_iff.1 ((sameParens_takes h).opening ▸ List.count_pos_iff.2 hm)
  obtain rfl := List.mem_singleton.1 hmem
  cases h
  exact ⟨rfl, rfl⟩

/-- A text is cut in front of each opening parenthesis and behind it. -/
theorem Cuts.at_openGroup {pre post : List Char} (h : Cuts d b p (pre ++ '(' :: post) rest ts b') :
    ∃ ts₁ ts₂, ts = ts₁ ++ ⟨.openGroup, p + pre.length⟩ :: ts₂ ∧
      Cuts d true (p + pre.length + 1) post rest ts₂ b' := by
  generalize hv : pre ++ '(' :: post = v at h
  induction h generalizing pre with
  | done => exact absurd hv (by simp)
  | @token b b' p t w v rest ts ht h ih =>
    rcases List.append_eq_append_iff.1 hv with ⟨x, rfl, hx⟩ | ⟨x, rfl, rfl⟩
    · cases x with
      | nil =>
        have hv : [] ++ '(' :: post = v := hx
        obtain ⟨ts₁, ts₂, rfl, hcut⟩ := ih hv
        refine ⟨⟨t, p⟩ :: ts₁, ts₂, by simp, by simpa using hcut⟩
      | cons c x =>
        rw [List.cons_append, List.cons.injEq] at hx
        obtain ⟨rfl, rfl⟩ := hx
        obtain ⟨rfl, hw⟩ := takes_of_mem ht (by simp)
        obtain ⟨rfl, rfl⟩ : pre = [] ∧ x = [] := by
          cases pre with
          | nil => simpa using hw
          | cons y pre => simp at hw
        exact ⟨[], ts, rfl, h⟩
    · obtain ⟨ts₁, ts₂, rfl, hcut⟩ := ih rfl
      refine ⟨⟨t, p⟩ :: ts₁, ts₂, by simp [Nat.add_assoc], ?_⟩
      rwa [List.length_append, ← Nat.add_assoc]

/-- A token that is read in part has no parentheses. -/
theorem sameParens_part {x : List Char} (h : Takes d b t w rest) (hx : x <+: w) :
    ∃ us, us <+: [t] ∧ SameParens x us := by
  by_cases ht : t = .openGroup ∨ t = .closeGroup
  · have hw : w.length = 1 := by rcases ht with rfl | rfl <;> cases h <;> rfl
    rcases List.eq_nil_or_concat x with rfl | ⟨y, c, rfl⟩
    · exact ⟨[], List.nil_prefix, rfl, rfl⟩
    · have hlen := hx.length_le
      rw [hx.eq_of_length (by simp at hlen ⊢; omega)]
      exact ⟨[t], List.prefix_refl _, sameParens_takes h⟩
  · rw [not_or] at ht
    obtain ⟨ho, hc⟩ := sameParens_takes h
    rw [List.count_singleton, if_neg (by simpa using ht.1), List.count_eq_zero] at ho
    rw [List.count_singleton, if_neg (by simpa using ht.2), List.count_eq_zero] at hc
    exact ⟨[], List.nil_prefix, List.count_eq_zero.2 fun hm => ho (hx.subset hm),
      List.count_eq_zero.2 fun hm => hc (hx.subset hm)⟩

/-- As far as a text is read, its parentheses are those of the tokens read so far. -/
theorem sameParens_of_prefix {x : List Char} (h : Cuts d b p v rest ts b') (hx : x <+: v) :
    ∃ us, us <+: ts.map (·.token) ∧ SameParens x us := by
  induction h generalizing x with
  | done => exact ⟨[], List.nil_prefix, by rw [List.prefix_nil.1 hx]; exact ⟨rfl, rfl⟩⟩
  | @token b b' p t w v rest ts ht h ih =>
    rcases List.prefix_or_prefix_of_prefix hx (List.prefix_append w v) with hw | ⟨y, rfl⟩
    · obtain ⟨us, hus, hs⟩ := sameParens_part ht hw
      exact ⟨us, hus.trans (by simp), hs⟩
    · obtain ⟨us, hus, hy⟩ := ih ((List.prefix_append_right_inj w).1 hx)
      exact ⟨t :: us, by simpa using hus, (sameParens_takes ht).append hy⟩

end Lexer

end CompactSearch

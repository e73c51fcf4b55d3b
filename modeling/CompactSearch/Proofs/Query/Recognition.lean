/-
The machine that reads queries accepts exactly what the grammar derives, and answers the formula that the derivation
stands for.

One direction is an invariant of the machine: after every list of tokens its stack splits the list into the tokens
before each open group and those of the innermost one, and the level kept for each holds derivations of its part
(`Reads`). The other runs the machine along a derivation: from a state in which an atom has to follow, the tokens of
an atom lead to a state in which the atom may end and that differs by this atom only (`run_atom`).
-/
import CompactSearch.Proofs.Query.Derivation

namespace CompactSearch.Grammar

/-! ## Transitions -/

/-- The current atom may end here. -/
def State.AtomEnds (s : State) : Prop := s.phase = .complete ∨ ∃ negated v, s.phase = .first negated v

/-- What one token can do to a state. -/
inductive Moves : State → Placed → State → Prop
  | openGroup {l : Level} {e : List (Nat × Level)} {p : Nat} (h : e.length ≠ maxDepth) :
    Moves ⟨.start, l, e⟩ ⟨.openGroup, p⟩ ⟨.start, .empty, (p, l) :: e⟩
  | minus {l : Level} {e : List (Nat × Level)} {p : Nat} : Moves ⟨.start, l, e⟩ ⟨.minus, p⟩ ⟨.negated, l, e⟩
  | value {l : Level} {e : List (Nat × Level)} {p : Nat} {v : Value} :
    Moves ⟨.start, l, e⟩ ⟨.value v, p⟩ ⟨.first false v, l, e⟩
  | negatedValue {l : Level} {e : List (Nat × Level)} {p : Nat} {v : Value} :
    Moves ⟨.negated, l, e⟩ ⟨.value v, p⟩ ⟨.first true v, l, e⟩
  | op {l : Level} {e : List (Nat × Level)} {p : Nat} {negated : Bool} {v : Value} {op : Operator} :
    Moves ⟨.first negated v, l, e⟩ ⟨.op op, p⟩ ⟨.keyed negated v.text op, l, e⟩
  | keyedValue {l : Level} {e : List (Nat × Level)} {p : Nat} {negated : Bool} {field : String} {op : Operator}
      {v : Value} :
    Moves ⟨.keyed negated field op, l, e⟩ ⟨.value v, p⟩
      ⟨.complete, l.addAtom (.atom (.keyed field op v negated)), e⟩
  | space {s : State} {p : Nat} (h : s.AtomEnds) : Moves s ⟨.space, p⟩ ⟨.start, s.closedLevel, s.enclosing⟩
  | or {s : State} {p : Nat} (h : s.AtomEnds) : Moves s ⟨.or, p⟩ ⟨.start, s.closedLevel.endDisjunct, s.enclosing⟩
  | closeGroup {s : State} {p p' : Nat} {outer : Level} {rest : List (Nat × Level)} (h : s.AtomEnds)
      (he : s.enclosing = (p', outer) :: rest) :
    Moves s ⟨.closeGroup, p⟩ ⟨.complete, outer.addAtom s.closedLevel.formula, rest⟩

theorem moves_of_afterAtom {s s' : State} {t : Placed} (ha : s.AtomEnds) (h : s.afterAtom t = .ok s') :
    Moves s t s' := by
  obtain ⟨tok, p⟩ := t
  unfold State.afterAtom at h
  split at h
  · rename_i ht; cases ht; cases h; exact .space ha
  · rename_i ht; cases ht; cases h; exact .or ha
  · rename_i ht he; cases ht; cases h; exact .closeGroup ha he
  · cases h
  · cases h

theorem moves_of_step {s s' : State} {t : Placed} (h : s.step t = .ok s') : Moves s t s' := by
  obtain ⟨phase, l, e⟩ := s
  obtain ⟨tok, p⟩ := t
  unfold State.step at h
  split at h
  · rename_i hp ht
    cases hp; cases ht
    split at h
    · cases h
    · rename_i hd; cases h; exact .openGroup hd
  · rename_i hp ht; cases hp; cases ht; cases h; exact .minus
  · rename_i hp ht; cases hp; cases ht; cases h; exact .value
  · rename_i hp ht; cases hp; cases ht; cases h; exact .negatedValue
  · rename_i hp ht; cases hp; cases ht; cases h; exact .op
  · rename_i hp ht; cases hp; cases ht; cases h; exact .keyedValue
  · cases h
  · cases h
  · cases h
  · rename_i hp _; exact moves_of_afterAtom (.inr ⟨_, _, hp⟩) h
  · rename_i hp; exact moves_of_afterAtom (.inl hp) h

theorem afterAtom_eq_step {s : State} {t : Placed} (ha : s.AtomEnds) (ht : ∀ op, t.token ≠ .op op) :
    s.step t = s.afterAtom t := by
  obtain ⟨phase, l, e⟩ := s
  obtain ⟨tok, p⟩ := t
  rcases ha with rfl | ⟨negated, v, rfl⟩
  · cases tok <;> rfl
  · cases tok with
    | op op => exact absurd rfl (ht op)
    | _ => rfl

theorem step_of_moves {s s' : State} {t : Placed} (h : Moves s t s') : s.step t = .ok s' := by
  cases h with
  | openGroup hd => simp only [State.step, if_neg hd]
  | minus | value | negatedValue | op | keyedValue => rfl
  | space ha | or ha => rw [afterAtom_eq_step ha (by simp)]; rfl
  | closeGroup ha he =>
    rw [afterAtom_eq_step ha (by simp)]
    simp only [State.afterAtom, he]

theorem step_eq_ok_iff {s s' : State} {t : Placed} : s.step t = .ok s' ↔ Moves s t s' :=
  ⟨moves_of_step, step_of_moves⟩

theorem run_cons_ok {s s' : State} {t : Placed} {ts : List Placed} :
    s.run (t :: ts) = .ok s' ↔ ∃ s₁, Moves s t s₁ ∧ s₁.run ts = .ok s' := by
  rw [State.run]
  cases h : s.step t with
  | error e =>
    simp only [reduceCtorEq, false_iff, not_exists, not_and]
    intro s₁ hm
    rw [step_eq_ok_iff.2 hm] at h
    cases h
  | ok s₁ =>
    constructor
    · exact fun hr => ⟨s₁, step_eq_ok_iff.1 h, hr⟩
    · rintro ⟨s₂, hm, hr⟩
      rw [step_eq_ok_iff.2 hm] at h
      cases h
      exact hr

theorem run_append_ok {s s₁ s₂ : State} {ts us : List Placed} (h : s.run ts = .ok s₁) (h' : s₁.run us = .ok s₂) :
    s.run (ts ++ us) = .ok s₂ := by
  induction ts generalizing s with
  | nil => cases h; exact h'
  | cons t ts ih =>
    obtain ⟨s₃, hm, hr⟩ := run_cons_ok.1 h
    exact run_cons_ok.2 ⟨s₃, hm, ih hr⟩

/-! ## What the levels hold -/

/-- Finished parts of a list, each followed by its separator; none if the list has just begun. -/
inductive Before (sep : Token) (P : List Token → List Query → Prop) : List Token → List Query → Prop
  | none : Before sep P [] []
  | some {ts : List Token} {qs : List Query} : P ts qs → Before sep P (ts ++ [sep]) qs

theorem derivesConjuncts_concat {ts us : List Token} {qs : List Query} {q : Query}
    (h : Before .space DerivesConjuncts ts qs) (hq : DerivesAtom us q) : DerivesConjuncts (ts ++ us) (qs ++ [q]) := by
  cases h with
  | none => exact .one hq
  | some h => rw [List.append_assoc]; exact .more h hq

theorem derivesDisjuncts_concat {ts us : List Token} {qs : List Query} {q : Query}
    (h : Before .or DerivesDisjuncts ts qs) (hq : DerivesConjunction us q) :
    DerivesDisjuncts (ts ++ us) (qs ++ [q]) := by
  cases h with
  | none => exact .one hq
  | some h => rw [List.append_assoc]; exact .more h hq

theorem balanced_before {sep : Token} {P : List Token → List Query → Prop} {ts : List Token} {qs : List Query}
    (ho : sep ≠ .openGroup) (hc : sep ≠ .closeGroup) (hP : ∀ {ts qs}, P ts qs → Balanced ts)
    (h : Before sep P ts qs) : Balanced ts := by
  cases h with
  | none => exact balanced_nil
  | some h => exact (hP h).separated balanced_nil ho hc

/-- The level after the tokens `ts`, where an atom has to follow. -/
def Level.OpenAfter (l : Level) (ts : List Token) : Prop :=
  ∃ us vs, Before .or DerivesDisjuncts us l.disjuncts.reverse ∧ Before .space DerivesConjuncts vs l.conjuncts.reverse ∧
    ts = us ++ vs

/-- The level after the tokens `ts`, which end with an atom. -/
def Level.FullAfter (l : Level) (ts : List Token) : Prop :=
  ∃ us vs, Before .or DerivesDisjuncts us l.disjuncts.reverse ∧ DerivesConjuncts vs l.conjuncts.reverse ∧ ts = us ++ vs

namespace Level

theorem openAfter_empty : empty.OpenAfter [] := ⟨[], [], .none, .none, rfl⟩

theorem OpenAfter.addAtom {l : Level} {ts us : List Token} {q : Query} (h : l.OpenAfter ts) (hq : DerivesAtom us q) :
    (l.addAtom q).FullAfter (ts ++ us) := by
  obtain ⟨vs, ws, hv, hw, rfl⟩ := h
  refine ⟨vs, ws ++ us, hv, ?_, List.append_assoc ..⟩
  rw [Level.addAtom, List.reverse_cons]
  exact derivesConjuncts_concat hw hq

theorem FullAfter.space {l : Level} {ts : List Token} (h : l.FullAfter ts) : l.OpenAfter (ts ++ [.space]) := by
  obtain ⟨us, vs, hu, hv, rfl⟩ := h
  exact ⟨us, vs ++ [.space], hu, .some hv, List.append_assoc ..⟩

theorem FullAfter.disjuncts {l : Level} {ts : List Token} (h : l.FullAfter ts) :
    DerivesDisjuncts ts l.endDisjunct.disjuncts.reverse := by
  obtain ⟨us, vs, hu, hv, rfl⟩ := h
  rw [endDisjunct, List.reverse_cons]
  exact derivesDisjuncts_concat hu (derivesConjunction_conjoin hv)

theorem FullAfter.or {l : Level} {ts : List Token} (h : l.FullAfter ts) : l.endDisjunct.OpenAfter (ts ++ [.or]) :=
  ⟨ts ++ [.or], [], .some h.disjuncts, .none, (List.append_nil _).symm⟩

theorem FullAfter.formula {l : Level} {ts : List Token} (h : l.FullAfter ts) : DerivesDisjunction ts l.formula :=
  derivesDisjunction_disjoin h.disjuncts

theorem OpenAfter.balanced {l : Level} {ts : List Token} (h : l.OpenAfter ts) : Balanced ts := by
  obtain ⟨us, vs, hu, hv, rfl⟩ := h
  exact (balanced_before (by decide) (by decide) balanced_disjuncts hu).append
    (balanced_before (by decide) (by decide) balanced_conjuncts hv)

end Level

/-! ## What a state holds -/

/-- The level and the phase after the tokens `ts` of the innermost group. -/
def Inner : Phase → Level → List Token → Prop
  | .start, l, ts => l.OpenAfter ts
  | .negated, l, ts => ∃ us, l.OpenAfter us ∧ ts = us ++ dash true
  | .first negated v, l, ts => ∃ us, l.OpenAfter us ∧ ts = us ++ (dash negated ++ [.value v])
  | .keyed negated field op, l, ts =>
    ∃ us f, f.text = field ∧ l.OpenAfter us ∧ ts = us ++ (dash negated ++ [.value f, .op op])
  | .complete, l, ts => l.FullAfter ts

/-- The stack after the tokens before the innermost group, its parenthesis included. -/
inductive Enclosing : List (Nat × Level) → List Token → Prop
  | none : Enclosing [] []
  | group {e : List (Nat × Level)} {ts us : List Token} {l : Level} {p : Nat} :
    Enclosing e ts → l.OpenAfter us → Enclosing ((p, l) :: e) (ts ++ us ++ [.openGroup])

/-- The state after the tokens `ts`. -/
structure Reads (s : State) (ts : List Token) : Prop where
  split : ∃ outer inner, Enclosing s.enclosing outer ∧ Inner s.phase s.level inner ∧ ts = outer ++ inner
  depth : s.enclosing.length ≤ maxDepth
  nests : NestsWithin maxDepth ts

theorem reads_initial : Reads .initial [] :=
  ⟨⟨[], [], .none, Level.openAfter_empty, rfl⟩, Nat.zero_le _, nestsWithin_nil _⟩

/-- A stack of `n` open groups stands for `n` parentheses that are not closed. -/
theorem count_enclosing : ∀ {e : List (Nat × Level)} {ts : List Token}, Enclosing e ts →
    ts.count .openGroup = ts.count .closeGroup + e.length
  | _, _, .none => rfl
  | _, _, @Enclosing.group e ts us l p h hl => by
    have := count_enclosing h
    have hb := hl.balanced
    unfold Balanced at hb
    simp only [List.count_append, List.length_cons]
    simp
    omega

theorem balanced_inner : ∀ {ph : Phase} {l : Level} {ts : List Token}, Inner ph l ts → Balanced ts
  | .start, _, _, h => h.balanced
  | .negated, _, _, ⟨_, h, rfl⟩ => h.balanced.append rfl
  | .first negated v, _, _, ⟨_, h, rfl⟩ => h.balanced.append (balanced_leaf (.bare negated v))
  | .keyed negated _ op, _, _, ⟨_, f, _, h, rfl⟩ => by
    refine h.balanced.append ?_
    cases negated <;> simp [Balanced, dash]
  | .complete, _, _, h => balanced_disjunction h.formula

/-- Where the atom may end, the level with this atom holds all of the innermost group. -/
theorem fullAfter_closedLevel {s : State} {ts : List Token} (ha : s.AtomEnds) (h : Inner s.phase s.level ts) :
    s.closedLevel.FullAfter ts := by
  obtain ⟨phase, l, e⟩ := s
  rcases ha with rfl | ⟨negated, v, rfl⟩
  · exact h
  · obtain ⟨us, hu, rfl⟩ := h
    exact hu.addAtom (.leaf (.bare negated v))

/-- One more token, where the stack and the tokens of the innermost group are known after it. -/
theorem reads_concat {s : State} {ts outer inner : List Token} {t : Token} (hn : NestsWithin maxDepth ts)
    (he : Enclosing s.enclosing outer) (hi : Inner s.phase s.level inner) (ht : ts ++ [t] = outer ++ inner)
    (hd : s.enclosing.length ≤ maxDepth) : Reads s (ts ++ [t]) := by
  refine ⟨⟨outer, inner, he, hi, ht⟩, hd, hn.concat ?_⟩
  have hcount := count_enclosing he
  have hb := balanced_inner hi
  unfold Balanced at hb
  rw [ht, List.count_append, List.count_append]
  omega

/-- Every transition keeps the split of the tokens read. -/
theorem reads_move {s s' : State} {t : Placed} {ts : List Token} (h : Reads s ts) (hm : Moves s t s') :
    Reads s' (ts ++ [t.token]) := by
  obtain ⟨⟨outer, inner, he, hi, rfl⟩, hd, hn⟩ := h
  cases hm with
  | openGroup hl =>
    refine reads_concat hn (.group he hi) Level.openAfter_empty (by simp) ?_
    simp only [List.length_cons] at hd ⊢
    omega
  | minus => exact reads_concat hn he ⟨inner, hi, rfl⟩ (List.append_assoc ..) hd
  | value => exact reads_concat hn he ⟨inner, hi, rfl⟩ (List.append_assoc ..) hd
  | negatedValue =>
    obtain ⟨us, hu, rfl⟩ := hi
    exact reads_concat hn he ⟨us, hu, rfl⟩ (by simp) hd
  | op =>
    obtain ⟨us, hu, rfl⟩ := hi
    exact reads_concat hn he ⟨us, _, rfl, hu, rfl⟩ (by simp) hd
  | keyedValue =>
    obtain ⟨us, f, rfl, hu, rfl⟩ := hi
    exact reads_concat hn he (hu.addAtom (.leaf (.keyed ..))) (by simp) hd
  | space ha =>
    exact reads_concat hn he (fullAfter_closedLevel ha hi).space (List.append_assoc ..) hd
  | or ha =>
    exact reads_concat hn he (fullAfter_closedLevel ha hi).or (List.append_assoc ..) hd
  | closeGroup ha hs =>
    rw [hs] at he hd
    cases he with
    | group he hl =>
      refine reads_concat hn he (hl.addAtom (.group (fullAfter_closedLevel ha hi).formula)) (by simp) ?_
      exact Nat.le_of_succ_le hd

theorem reads_run {s s' : State} {ts : List Token} {us : List Placed} (h : Reads s ts) (hr : s.run us = .ok s') :
    Reads s' (ts ++ us.map (·.token)) := by
  induction us generalizing s ts with
  | nil => cases hr; simpa using h
  | cons u us ih =>
    obtain ⟨s₁, hm, hr⟩ := run_cons_ok.1 hr
    simpa using ih (reads_move h hm) hr

/-! ## Running along a derivation -/

/-- From `s`, the tokens lead to the end of an atom in the same group, where the level is `l`. -/
def Completes (s : State) (ts : List Placed) (l : Level) : Prop :=
  ∃ s', s.run ts = .ok s' ∧ s'.AtomEnds ∧ s'.enclosing = s.enclosing ∧ s'.closedLevel = l

theorem completes_of_run {s s₁ : State} {ts us : List Placed} {l : Level} (h : s.run ts = .ok s₁)
    (he : s₁.enclosing = s.enclosing) (h' : Completes s₁ us l) : Completes s (ts ++ us) l := by
  obtain ⟨s', hr, ha, he', hl⟩ := h'
  exact ⟨s', run_append_ok h hr, ha, he'.trans he, hl⟩

theorem run_one {s s' : State} {t : Placed} (h : Moves s t s') : s.run [t] = .ok s' :=
  run_cons_ok.2 ⟨s', h, rfl⟩

/-- After an atom and a separator the next atom starts with `next` of the level. -/
theorem completes_separated {s : State} {ts us : List Placed} {t : Placed} {l l' : Level}
    (h : Completes s ts l) (next : Level → Level)
    (hm : ∀ s', s'.AtomEnds → Moves s' t ⟨.start, next s'.closedLevel, s'.enclosing⟩)
    (h' : Completes ⟨.start, next l, s.enclosing⟩ us l') : Completes s (ts ++ t :: us) l' := by
  obtain ⟨s', hr, ha, he, rfl⟩ := h
  rw [← he] at h'
  have hrun := run_append_ok hr (run_one (hm s' ha))
  rw [List.append_cons]
  exact completes_of_run hrun he h'

theorem map_token_append {ts : List Placed} {us vs : List Token} (h : ts.map (·.token) = us ++ vs) :
    ∃ us' vs', ts = us' ++ vs' ∧ us'.map (·.token) = us ∧ vs'.map (·.token) = vs :=
  List.map_eq_append_iff.1 h

theorem map_token_cons {ts : List Placed} {t : Token} {us : List Token} (h : ts.map (·.token) = t :: us) :
    ∃ p us', ts = ⟨t, p⟩ :: us' ∧ us'.map (·.token) = us := by
  obtain ⟨⟨_, p⟩, us', rfl, rfl, hu⟩ := List.map_eq_cons_iff.1 h
  exact ⟨p, us', rfl, hu⟩

/-- The sign and the first value of a leaf. -/
theorem run_first {ts : List Placed} {us : List Token} {negated : Bool} {v : Value} {l : Level}
    {e : List (Nat × Level)} (h : ts.map (·.token) = dash negated ++ .value v :: us) :
    ∃ ts' us', ts = ts' ++ us' ∧ us'.map (·.token) = us ∧
      State.run ⟨.start, l, e⟩ ts' = .ok ⟨.first negated v, l, e⟩ := by
  cases negated with
  | false =>
    obtain ⟨p, us', rfl, hu⟩ := map_token_cons h
    exact ⟨[⟨.value v, p⟩], us', rfl, hu, run_one .value⟩
  | true =>
    obtain ⟨p, us₁, rfl, hu₁⟩ := map_token_cons h
    obtain ⟨p', us₂, rfl, hu₂⟩ := map_token_cons hu₁
    exact ⟨[⟨.minus, p⟩, ⟨.value v, p'⟩], us₂, rfl, hu₂, run_cons_ok.2 ⟨_, .minus, run_one .negatedValue⟩⟩

theorem run_leaf {ts : List Placed} {us : List Token} {lf : Leaf} {l : Level} {e : List (Nat × Level)}
    (h : DerivesLeaf us lf) (hts : ts.map (·.token) = us) :
    Completes ⟨.start, l, e⟩ ts (l.addAtom (.atom lf)) := by
  cases h with
  | bare negated v =>
    obtain ⟨ts₁, rest, rfl, hrest, hr⟩ := run_first hts
    obtain rfl := List.map_eq_nil_iff.1 hrest
    rw [List.append_nil]
    exact ⟨_, hr, .inr ⟨negated, v, rfl⟩, rfl, rfl⟩
  | keyed negated f op v =>
    obtain ⟨ts₁, rest, rfl, hrest, hr⟩ := run_first hts
    obtain ⟨p, rest₁, rfl, hrest₁⟩ := map_token_cons hrest
    obtain ⟨p', rest₂, rfl, hrest₂⟩ := map_token_cons hrest₁
    obtain rfl := List.map_eq_nil_iff.1 hrest₂
    exact ⟨_, run_append_ok hr (run_cons_ok.2 ⟨_, .op, run_one .keyedValue⟩), .inl rfl, rfl, rfl⟩

mutual

theorem run_atom : ∀ {us : List Token} {q : Query}, DerivesAtom us q →
    ∀ {ts : List Placed} {k : Nat} {l : Level} {e : List (Nat × Level)}, ts.map (·.token) = us →
      NestsWithin k us → e.length + k ≤ maxDepth → Completes ⟨.start, l, e⟩ ts (l.addAtom q)
  | _, _, .leaf h, _, _, _, _, hts, _, _ => run_leaf h hts
  | _, _, @DerivesAtom.group us q h, ts, k, l, e, hts, hn, hk => by
    obtain ⟨j, rfl, hj⟩ := (nestsWithin_group (balanced_disjunction h)).1 hn
    obtain ⟨p, ts₁, rfl, hts₁⟩ := map_token_cons hts
    obtain ⟨ts₂, cs, rfl, hts₂, hc⟩ := map_token_append hts₁
    obtain ⟨p', cs₁, rfl, hc₁⟩ := map_token_cons hc
    obtain rfl := List.map_eq_nil_iff.1 hc₁
    have hopen : Moves ⟨.start, l, e⟩ ⟨.openGroup, p⟩ ⟨.start, .empty, (p, l) :: e⟩ := .openGroup (by omega)
    obtain ⟨l', ⟨s', hr, ha, he, rfl⟩, hl⟩ := run_disjunction h (k := j) (e := (p, l) :: e) hts₂ hj
      (by rw [List.length_cons]; omega)
    have hclose := Moves.closeGroup (p := p') ha he
    rw [hl] at hclose
    exact ⟨_, run_cons_ok.2 ⟨_, hopen, run_append_ok hr (run_one hclose)⟩, .inl rfl, rfl, rfl⟩

theorem run_conjuncts : ∀ {us : List Token} {qs : List Query}, DerivesConjuncts us qs →
    ∀ {ts : List Placed} {k : Nat} {l : Level} {e : List (Nat × Level)}, ts.map (·.token) = us →
      NestsWithin k us → e.length + k ≤ maxDepth →
        Completes ⟨.start, l, e⟩ ts ⟨l.disjuncts, qs.reverse ++ l.conjuncts⟩
  | _, _, .one h, _, _, _, _, hts, hn, hk => run_atom h hts hn hk
  | _, _, @DerivesConjuncts.more us vs qs q h hq, ts, k, l, e, hts, hn, hk => by
    obtain ⟨hn, hn'⟩ := (nestsWithin_separated (balanced_conjuncts h) (by decide) (by decide)).1 hn
    obtain ⟨ts₁, ts₂, rfl, hts₁, hts₂⟩ := map_token_append hts
    obtain ⟨p, ts₃, rfl, hts₃⟩ := map_token_cons hts₂
    rw [List.reverse_append]
    exact completes_separated (run_conjuncts h hts₁ hn hk) id (fun s' ha => .space ha) (run_atom hq hts₃ hn' hk)

theorem run_conjunction : ∀ {us : List Token} {q : Query}, DerivesConjunction us q →
    ∀ {ts : List Placed} {k : Nat} {d : List Query} {e : List (Nat × Level)}, ts.map (·.token) = us →
      NestsWithin k us → e.length + k ≤ maxDepth →
        ∃ l', Completes ⟨.start, ⟨d, []⟩, e⟩ ts l' ∧ l'.endDisjunct = ⟨q :: d, []⟩
  | _, _, .single h, _, _, _, _, hts, hn, hk => ⟨_, run_atom h hts hn hk, rfl⟩
  | _, _, @DerivesConjunction.flat us qs h h2, _, _, d, _, hts, hn, hk => by
    refine ⟨_, run_conjuncts h hts hn hk, ?_⟩
    rw [Level.endDisjunct, List.append_nil, List.reverse_reverse, conjoin_of_two_le h2]

theorem run_disjuncts : ∀ {us : List Token} {qs : List Query}, DerivesDisjuncts us qs →
    ∀ {ts : List Placed} {k : Nat} {d : List Query} {e : List (Nat × Level)}, ts.map (·.token) = us →
      NestsWithin k us → e.length + k ≤ maxDepth →
        ∃ l', Completes ⟨.start, ⟨d, []⟩, e⟩ ts l' ∧ l'.endDisjunct = ⟨qs.reverse ++ d, []⟩
  | _, _, .one h, _, _, _, _, hts, hn, hk => run_conjunction h hts hn hk
  | _, _, @DerivesDisjuncts.more us vs qs q h hq, ts, k, d, e, hts, hn, hk => by
    obtain ⟨hn, hn'⟩ := (nestsWithin_separated (balanced_disjuncts h) (by decide) (by decide)).1 hn
    obtain ⟨ts₁, ts₂, rfl, hts₁, hts₂⟩ := map_token_append hts
    obtain ⟨p, ts₃, rfl, hts₃⟩ := map_token_cons hts₂
    obtain ⟨l₁, hl₁, hend₁⟩ := run_disjuncts h (d := d) hts₁ hn hk
    obtain ⟨l₂, hl₂, hend₂⟩ := run_conjunction hq (d := qs.reverse ++ d) hts₃ hn' hk
    rw [← hend₁] at hl₂
    refine ⟨l₂, completes_separated hl₁ Level.endDisjunct (fun s' ha => .or ha) hl₂, ?_⟩
    rw [hend₂, List.reverse_append]
    rfl

theorem run_disjunction : ∀ {us : List Token} {q : Query}, DerivesDisjunction us q →
    ∀ {ts : List Placed} {k : Nat} {e : List (Nat × Level)}, ts.map (·.token) = us →
      NestsWithin k us → e.length + k ≤ maxDepth →
        ∃ l', Completes ⟨.start, .empty, e⟩ ts l' ∧ l'.formula = q
  | _, _, .single h, _, _, _, hts, hn, hk => by
    obtain ⟨l', hc, hend⟩ := run_conjunction h (d := []) hts hn hk
    refine ⟨l', hc, ?_⟩
    rw [Level.formula, hend]
    rfl
  | _, _, @DerivesDisjunction.flat us qs h h2, _, _, _, hts, hn, hk => by
    obtain ⟨l', hc, hend⟩ := run_disjuncts h (d := []) hts hn hk
    refine ⟨l', hc, ?_⟩
    rw [Level.formula, hend, List.append_nil, List.reverse_reverse, disjoin_of_two_le h2]

end

/-! ## Whole lists -/

theorem finish_eq_ok_iff {s : State} {q : Query} :
    s.finish = .ok q ↔ s.AtomEnds ∧ s.enclosing = [] ∧ s.closedLevel.formula = q := by
  obtain ⟨phase, l, e⟩ := s
  cases phase with
  | start | negated | keyed =>
    simp [State.finish, State.AtomEnds]
  | first negated v =>
    cases e <;> simp [State.finish, State.AtomEnds]
  | complete =>
    cases e <;> simp [State.finish, State.AtomEnds]

theorem parseTokens_eq_ok {ts : List Placed} {q : Query} :
    parseTokens ts = .ok q ↔ ∃ s, State.initial.run ts = .ok s ∧ s.finish = .ok q := by
  cases ts with
  | nil => simp [parseTokens, State.run, State.initial, State.finish]
  | cons t ts =>
    simp only [parseTokens]
    cases State.initial.run (t :: ts) with
    | error e => simp
    | ok s => simp

theorem derives_of_parseTokens {ts : List Placed} {q : Query} (h : parseTokens ts = .ok q) :
    DerivesDisjunction (ts.map (·.token)) q ∧ NestsWithin maxDepth (ts.map (·.token)) := by
  obtain ⟨s, hr, hf⟩ := parseTokens_eq_ok.1 h
  obtain ⟨ha, he, rfl⟩ := finish_eq_ok_iff.1 hf
  have hreads := reads_run reads_initial hr
  refine ⟨?_, hreads.nests⟩
  obtain ⟨outer, inner, ho, hi, hsplit⟩ := hreads.split
  rw [he] at ho
  cases ho
  rw [List.nil_append] at hsplit
  rw [← List.nil_append (List.map _ ts), hsplit]
  exact (fullAfter_closedLevel ha hi).formula

theorem parseTokens_of_derives {ts : List Placed} {q : Query} (h : DerivesDisjunction (ts.map (·.token)) q)
    (hn : NestsWithin maxDepth (ts.map (·.token))) : parseTokens ts = .ok q := by
  obtain ⟨l', ⟨s', hr, ha, he, hl⟩, hq⟩ := run_disjunction h (e := []) rfl hn (Nat.le_of_eq (Nat.zero_add _))
  exact parseTokens_eq_ok.2 ⟨s', hr, finish_eq_ok_iff.2 ⟨ha, he, hl ▸ hq⟩⟩

/-! ## Groups side by side -/

/-- The tokens of a list of groups, side by side. -/
def groupsSideBySide (groups : List (List Token × Query)) : List Token :=
  [Token.space].intercalate (groups.map fun g => .openGroup :: (g.1 ++ [.closeGroup]))

theorem groupsSideBySide_cons (g g' : List Token × Query) (gs : List (List Token × Query)) :
    groupsSideBySide (g :: g' :: gs) =
      (.openGroup :: (g.1 ++ [.closeGroup])) ++ .space :: groupsSideBySide (g' :: gs) := by
  simp [groupsSideBySide, List.intercalate]

/-- Leaving a group restores the depth: groups side by side derive a conjunction that nests no deeper than each. -/
theorem derives_groups : ∀ (g : List Token × Query) (gs : List (List Token × Query)),
    (∀ x ∈ g :: gs, DerivesDisjunction x.1 x.2 ∧ NestsWithin (maxDepth - 1) x.1) →
      DerivesConjuncts (groupsSideBySide (g :: gs)) ((g :: gs).map (·.2)) ∧
        NestsWithin maxDepth (groupsSideBySide (g :: gs))
  | g, gs, h => by
    obtain ⟨hd, hn⟩ := h g List.mem_cons_self
    have hnest : NestsWithin maxDepth (.openGroup :: (g.1 ++ [.closeGroup])) :=
      (nestsWithin_group (balanced_disjunction hd)).2 ⟨_, rfl, hn⟩
    cases gs with
    | nil =>
      have : groupsSideBySide [g] = .openGroup :: (g.1 ++ [.closeGroup]) := by
        simp [groupsSideBySide, List.intercalate]
      rw [this]
      exact ⟨.one (.group hd), hnest⟩
    | cons g' gs =>
      obtain ⟨hds, hns⟩ := derives_groups g' gs fun x hx => h x (List.mem_cons_of_mem g hx)
      rw [groupsSideBySide_cons]
      refine ⟨derivesConjuncts_cons (.group hd) hds, ?_⟩
      exact (nestsWithin_separated (balanced_disjunction hd).group (by decide) (by decide)).2 ⟨hnest, hns⟩

/-- The machine accepts a list of tokens with a formula exactly if the grammar derives the formula from it and no token
lies inside more than `maxDepth` open groups. So a list has one formula at most, and there is no bound on the number
of groups side by side. -/
theorem parseTokens_recognises :
    (∀ (ts : List Placed) (q : Query), parseTokens ts = .ok q ↔
      DerivesDisjunction (ts.map (·.token)) q ∧ NestsWithin maxDepth (ts.map (·.token))) ∧
    (∀ (ts : List Token) (q q' : Query), NestsWithin maxDepth ts →
      DerivesDisjunction ts q → DerivesDisjunction ts q' → q = q') ∧
    ∀ (groups : List (List Token × Query)) (ts : List Placed), groups ≠ [] →
      (∀ g ∈ groups, DerivesDisjunction g.1 g.2 ∧ NestsWithin (maxDepth - 1) g.1) →
      ts.map (·.token) = groupsSideBySide groups → parseTokens ts = .ok (conjoin (groups.map (·.2))) := by
  refine ⟨fun ts q => ⟨derives_of_parseTokens, fun h => parseTokens_of_derives h.1 h.2⟩, ?_, ?_⟩
  · intro ts q q' hn h h'
    -- any positions will do: the grammar does not see them
    have hts : (ts.map (Placed.mk · 0)).map (·.token) = ts := by
      rw [List.map_map]
      exact List.map_id ts
    rw [← hts] at hn h h'
    have := (parseTokens_of_derives h hn).symm.trans (parseTokens_of_derives h' hn)
    cases this
    rfl
  · intro groups ts hne hg hts
    cases groups with
    | nil => exact absurd rfl hne
    | cons g gs =>
      obtain ⟨hd, hn⟩ := derives_groups g gs hg
      rw [← hts] at hd hn
      exact parseTokens_of_derives (.single (derivesConjunction_conjoin hd)) hn

/-- The tokens of `(a OR b) (c)`. -/
theorem parseTokens_recognises_two_groups :
    let a : Value := .string "a"
    let b : Value := .string "b"
    let c : Value := .string "c"
    let either : List Token := [.value a, .or, .value b]
    DerivesDisjunction either (.any [.atom (.bare a false), .atom (.bare b false)]) ∧
      NestsWithin (maxDepth - 1) either ∧
      parseTokens [⟨.openGroup, 0⟩, ⟨.value a, 1⟩, ⟨.or, 2⟩, ⟨.value b, 6⟩, ⟨.closeGroup, 7⟩, ⟨.space, 8⟩,
          ⟨.openGroup, 9⟩, ⟨.value c, 10⟩, ⟨.closeGroup, 11⟩] =
        .ok (.all [.any [.atom (.bare a false), .atom (.bare b false)], .atom (.bare c false)]) := by
  intro a b c either
  have leaf : ∀ v : Value, DerivesConjunction [.value v] (.atom (.bare v false)) :=
    fun v => .single (.leaf (.bare false v))
  have hor : DerivesDisjunction either (.any [.atom (.bare a false), .atom (.bare b false)]) :=
    .flat (.more (.one (leaf a)) (leaf b)) (by decide)
  have hn : NestsWithin (maxDepth - 1) either := by decide
  refine ⟨hor, hn, ?_⟩
  refine parseTokens_recognises.2.2 [(either, _), ([.value c], _)] _ (by simp) ?_ rfl
  intro g hg
  rcases List.mem_pair.1 hg with rfl | rfl
  · exact ⟨hor, hn⟩
  · exact ⟨.single (leaf c), by decide⟩

end CompactSearch.Grammar

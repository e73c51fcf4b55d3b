/-
Texts cut into lexemes. A text is cut from its front, and how far it is cut says nothing about what follows (`Cuts`), so
that the lexer can be followed up to any token and gone on with from there (`tokensFrom_of_cuts`). What follows may be
replaced by a text that starts with the same character, or by one that no lexeme runs into, and the cut stays the same.
-/
import CompactSearch.Proofs.Query.Lexeme

namespace CompactSearch.Lexer

variable {d : Dialect} {b b' : Bool} {p : Nat} {t : Token} {w v rest cs : List Char} {ts us : List Placed}
  {e : ParseError}

/-- The text `v` at position `p` is cut into the tokens `ts` in front of `rest`. A leaf can start at `p` if the first
flag is set, and behind `v` if the second one is. -/
inductive Cuts (d : Dialect) : Bool → Nat → List Char → List Char → List Placed → Bool → Prop
  | done {b : Bool} {p : Nat} {rest : List Char} : Cuts d b p [] rest [] b
  | token {b b' : Bool} {p : Nat} {t : Token} {w v rest : List Char} {ts : List Placed}
    (ht : Takes d b t w (v ++ rest)) (h : Cuts d t.precedesLeaf (p + w.length) v rest ts b') :
    Cuts d b p (w ++ v) rest (⟨t, p⟩ :: ts) b'

/-! ## Cuts and the lexer -/

theorem tokensFrom_of_takes (h : Takes d b t w rest) :
    tokensFrom d b p (w ++ rest) = (tokensFrom d t.precedesLeaf (p + w.length) rest).map (⟨t, p⟩ :: ·) := by
  obtain ⟨c, v, rfl, hf⟩ := firstToken_of_takes h
  rw [List.cons_append, tokensFrom, hf p]
  simp only [List.drop_left, List.length_cons]
  rw [Nat.add_assoc, Nat.add_comm 1]

theorem tokensFrom_of_refuses (h : Refuses d p cs e) : tokensFrom d b p cs = .error e := by
  obtain ⟨c, r, rfl, hf⟩ := firstToken_of_refuses h
  rw [tokensFrom, hf b]

theorem tokensFrom_of_cuts (h : Cuts d b p v rest ts b') :
    tokensFrom d b p (v ++ rest) = (tokensFrom d b' (p + v.length) rest).map (ts ++ ·) := by
  induction h with
  | @done b p rest => cases htok : tokensFrom d b p rest <;> simp [htok, Except.map]
  | @token b b' p t w v rest ts ht _ ih =>
    rw [List.append_assoc, tokensFrom_of_takes ht, ih, List.length_append, Nat.add_assoc]
    cases tokensFrom d b' (p + (w.length + v.length)) rest <;> rfl

theorem ne_nil_of_takes (h : Takes d b t w rest) : w ≠ [] := by
  obtain ⟨c, v, rfl, -⟩ := firstToken_of_takes h
  exact List.cons_ne_nil c v

theorem rest_lt_of_takes {c : Char} {r : List Char} (h : Takes d b t w rest) (hcs : c :: r = w ++ rest) :
    rest.length < r.length + 1 := by
  have hpos := List.length_pos_iff.2 (ne_nil_of_takes h)
  have hlen := congrArg List.length hcs
  rw [List.length_cons, List.length_append] at hlen
  omega

/-- Every text is cut to its end, or up to a place where no token starts. -/
theorem cuts_or_refuses (d : Dialect) (b : Bool) (p : Nat) (cs : List Char) :
    (∃ ts b', Cuts d b p cs [] ts b') ∨
      ∃ v rest ts b' e, cs = v ++ rest ∧ Cuts d b p v rest ts b' ∧ Refuses d (p + v.length) rest e := by
  match cs with
  | [] => exact .inl ⟨[], b, .done⟩
  | c :: r =>
    rcases takes_or_refuses d b p c r with ⟨t, w, rest, hcs, ht⟩ | ⟨e, he⟩
    · have hlen := rest_lt_of_takes ht hcs
      rw [hcs]
      rcases cuts_or_refuses d t.precedesLeaf (p + w.length) rest with ⟨ts, b', h⟩ | ⟨v, rest', ts, b', e, rfl, h, he⟩
      · exact .inl ⟨_, b', .token (by rwa [List.append_nil]) h⟩
      · refine .inr ⟨w ++ v, rest', _, b', e, (List.append_assoc ..).symm, .token ht h, ?_⟩
        rwa [List.length_append, ← Nat.add_assoc]
    · exact .inr ⟨[], c :: r, [], b, e, rfl, .done, he⟩
termination_by cs.length

theorem tokensFrom_eq_ok_iff : tokensFrom d b p cs = .ok ts ↔ ∃ b', Cuts d b p cs [] ts b' := by
  have hok : ∀ {us b'}, Cuts d b p cs [] us b' → tokensFrom d b p cs = .ok us := by
    intro us b' h
    have heq := tokensFrom_of_cuts h
    rw [List.append_nil, tokensFrom] at heq
    simpa [Except.map] using heq
  constructor
  · intro h
    rcases cuts_or_refuses d b p cs with ⟨us, b', hc⟩ | ⟨v, rest, us, b', e, rfl, hc, he⟩
    · rw [hok hc] at h
      cases h
      exact ⟨b', hc⟩
    · rw [tokensFrom_of_cuts hc, tokensFrom_of_refuses he] at h
      cases h
  · rintro ⟨b', h⟩
    exact hok h

theorem tokensFrom_eq_error_iff : tokensFrom d b p cs = .error e ↔
    ∃ v rest ts b', cs = v ++ rest ∧ Cuts d b p v rest ts b' ∧ Refuses d (p + v.length) rest e := by
  constructor
  · intro h
    rcases cuts_or_refuses d b p cs with ⟨us, b', hc⟩ | ⟨v, rest, us, b', e', rfl, hc, he⟩
    · rw [tokensFrom_eq_ok_iff.2 ⟨b', hc⟩] at h
      cases h
    · rw [tokensFrom_of_cuts hc, tokensFrom_of_refuses he] at h
      cases h
      exact ⟨v, rest, us, b', rfl, hc, he⟩
  · rintro ⟨v, rest, us, b', rfl, hc, he⟩
    rw [tokensFrom_of_cuts hc, tokensFrom_of_refuses he]
    rfl

theorem Cuts.eq_of_whole {b'' : Bool} (h : Cuts d b p cs [] ts b') (h' : Cuts d b p cs [] us b'') : us = ts := by
  have htok := tokensFrom_eq_ok_iff.2 ⟨b', h⟩
  rw [tokensFrom_eq_ok_iff.2 ⟨b'', h'⟩] at htok
  cases htok
  rfl

/-! ## Parts of a cut -/

theorem Cuts.append {b'' : Bool} (h : Cuts d b p v (w ++ rest) ts b') (h' : Cuts d b' (p + v.length) w rest us b'') :
    Cuts d b p (v ++ w) rest (ts ++ us) b'' := by
  generalize hr : w ++ rest = r at h
  induction h with
  | done => simpa using h'
  | @token b b₁ p t x v r ts ht _ ih =>
    subst hr
    rw [List.append_assoc]
    refine .token (by rwa [List.append_assoc]) (ih ?_ rfl)
    rwa [List.length_append, ← Nat.add_assoc] at h'

theorem Cuts.split {b'' : Bool} : ∀ {ts : List Placed} {b : Bool} {p : Nat} {v : List Char},
    Cuts d b p v rest (ts ++ us) b'' → ∃ v₁ v₂ b', v = v₁ ++ v₂ ∧ Cuts d b p v₁ (v₂ ++ rest) ts b' ∧
      Cuts d b' (p + v₁.length) v₂ rest us b''
  | [], b, p, v, h => ⟨[], v, b, rfl, .done, h⟩
  | _ :: ts, _, _, _, .token (w := w) ht h => by
    obtain ⟨v₁, v₂, b', rfl, h₁, h₂⟩ := Cuts.split h
    refine ⟨w ++ v₁, v₂, b', (List.append_assoc ..).symm, .token (by rwa [← List.append_assoc]) h₁, ?_⟩
    rwa [List.length_append, ← Nat.add_assoc]

/-- A text that is cut up to a place is cut from there on. -/
theorem Cuts.rest_of_whole {b'' : Bool} (h : Cuts d b p v rest ts b') (h' : Cuts d b p (v ++ rest) [] us b'') :
    ∃ us' b₁, us = ts ++ us' ∧ Cuts d b' (p + v.length) rest [] us' b₁ := by
  have htok := tokensFrom_of_cuts h
  rw [tokensFrom_eq_ok_iff.2 ⟨b'', h'⟩] at htok
  cases hrest : tokensFrom d b' (p + v.length) rest with
  | error e => rw [hrest] at htok; cases htok
  | ok us' =>
    rw [hrest] at htok
    cases htok
    obtain ⟨b₁, hcut⟩ := tokensFrom_eq_ok_iff.1 hrest
    exact ⟨us', b₁, rfl, hcut⟩

/-- A text is cut in the same way wherever it stands. -/
theorem Cuts.shift (h : Cuts d b p v rest ts b') (q : Nat) :
    ∃ us, Cuts d b q v rest us b' ∧ us.map (·.token) = ts.map (·.token) := by
  induction h generalizing q with
  | done => exact ⟨[], .done, rfl⟩
  | @token b b' p t w v rest ts ht _ ih =>
    obtain ⟨us, hus, htok⟩ := ih (q + w.length)
    exact ⟨⟨t, q⟩ :: us, .token ht hus, by simp [htok]⟩

/-! ## Other texts behind a cut -/

/-- What a lexeme asks of the text behind it. -/
theorem Takes.congr {x y : List Char} (h : Takes d b t w x) (hends : EndsRun d x → EndsRun d y)
    (heq : x.head? ≠ some '=' → y.head? ≠ some '=')
    (hor : t = .space → ['O', 'R', ' '] <+: y → ['O', 'R', ' '] <+: x) : Takes d b t w y := by
  cases h with
  | quoted k h => exact .quoted k h
  | run h hm hr => exact .run h hm (hends hr)
  | minus hm => exact .minus hm
  | op o h => exact .op o fun ho => heq (h ho)
  | space h => exact .space fun ho => h (hor rfl ho)
  | or => exact .or
  | openGroup => exact .openGroup
  | closeGroup => exact .closeGroup

/-- A text has one first token. -/
theorem Takes.unique {t' : Token} {w' rest' : List Char} (h : Takes d b t w rest) (h' : Takes d b t' w' rest')
    (heq : w ++ rest = w' ++ rest') : t = t' ∧ w = w' ∧ rest = rest' := by
  obtain ⟨c, v, rfl, hf⟩ := firstToken_of_takes h
  obtain ⟨c', v', rfl, hf'⟩ := firstToken_of_takes h'
  rw [List.cons_append, List.cons_append, List.cons.injEq] at heq
  obtain ⟨rfl, heq⟩ := heq
  have hok := hf 0
  rw [heq, hf' 0, Except.ok.injEq, Prod.mk.injEq] at hok
  obtain ⟨rfl, hlen⟩ := hok
  obtain ⟨rfl, rfl⟩ := List.append_inj heq hlen.symm
  exact ⟨rfl, rfl, rfl⟩

/-- A free character that is no sign of negation starts a run. -/
theorem Takes.run_of_free {c : Char} (h : Takes d b t (c :: w) rest) (hc : d.isReserved c = false)
    (hm : c = '-' → (d.hasNegation && b) = false) :
    t = .value (.ofRun (String.ofList (c :: w))) ∧ IsRun d (c :: w) ∧ EndsRun d rest := by
  obtain ⟨run, tail, heq, hrun, hends⟩ := exists_run (w ++ rest) hc
  have htake : Takes d b _ (c :: run) tail := .run hrun (fun hh => hm (Option.some.inj hh)) hends
  obtain ⟨rfl, hw, rfl⟩ := h.unique htake heq
  cases hw
  exact ⟨rfl, hrun, hends⟩

theorem Cuts.flag_of_nil (h : Cuts d b p [] rest ts b') : b' = b := by
  generalize hv : [] = v at h
  cases h with
  | done => rfl
  | token ht _ => exact absurd (List.append_eq_nil_iff.1 hv.symm).1 (ne_nil_of_takes ht)

/-- A run does not end in front of a free character. -/
theorem not_cuts_run {x c : Char} {r : List Char} (hx : d.isReserved x = false)
    (hm : x = '-' → (d.hasNegation && b) = false) (hc : d.isReserved c = false) :
    ¬ Cuts d b p [x] (c :: r) ts b' := by
  intro h
  generalize hv : [x] = v at h
  cases h with
  | done => cases hv
  | token ht _ =>
    obtain ⟨y, w, rfl, -⟩ := firstToken_of_takes ht
    rw [List.cons_append, List.cons.injEq] at hv
    obtain ⟨rfl, hv⟩ := hv
    obtain ⟨rfl, rfl⟩ := List.append_eq_nil_iff.1 hv.symm
    have hends := (ht.run_of_free hx hm).2.2 c rfl
    rw [hc] at hends
    cases hends

/-- An `OR` that reaches beyond the first character behind a cut is there whatever follows this character: it does not
start behind the cut, and not with a run that is cut before its `R`. -/
theorem or_prefix_of_cuts {c : Char} {r r' : List Char} (h : Cuts d true p v (c :: r) ts b')
    (hb : b' = true → c ≠ 'O') (hor : ['O', 'R', ' '] <+: v ++ c :: r') : ['O', 'R', ' '] <+: v ++ c :: r := by
  rcases v with _ | ⟨x, _ | ⟨y, _ | ⟨z, v⟩⟩⟩
  · obtain ⟨hc, -⟩ := List.cons_prefix_cons.1 hor
    exact absurd hc.symm (hb h.flag_of_nil)
  · obtain ⟨rfl, hr⟩ := List.cons_prefix_cons.1 hor
    obtain ⟨rfl, -⟩ := List.cons_prefix_cons.1 hr
    exact absurd h (not_cuts_run (by cases d <;> rfl) (by simp) (by cases d <;> rfl))
  · simpa using hor
  · simpa using hor

/-- Behind a cut, only the first character of what follows is looked at. -/
theorem Cuts.congr_head {c : Char} {r : List Char} (r' : List Char) (h : Cuts d b p v (c :: r) ts b')
    (hc : b' = true → c ≠ 'O') : Cuts d b p v (c :: r') ts b' := by
  generalize hr : c :: r = x at h
  induction h with
  | done => exact .done
  | @token b b' p t w v x ts ht h ih =>
    subst hr
    have hhead : (v ++ c :: r).head? = (v ++ c :: r').head? := by cases v <;> rfl
    refine .token (ht.congr (fun hends x hx => hends x (hhead ▸ hx)) (hhead ▸ id) ?_) (ih hc rfl)
    rintro rfl hor
    exact or_prefix_of_cuts h hc hor

/-- No lexeme runs into the text: it starts with a reserved character other than a space and an equals sign. -/
def Stops (d : Dialect) (cs : List Char) : Prop := ∀ c ∈ cs.head?, d.isReserved c = true ∧ c ≠ ' ' ∧ c ≠ '='

/-- A cut stays the same in front of a text that no lexeme runs into. -/
theorem Cuts.congr_stops {rest' : List Char} (h : Cuts d b p v rest ts b') (hs : Stops d rest') :
    Cuts d b p v rest' ts b' := by
  induction h with
  | done => exact .done
  | @token b b' p t w v x ts ht h ih =>
    refine .token (ht.congr ?_ ?_ ?_) ih
    · intro hends
      cases v with
      | nil => exact fun c hc => (hs c hc).1
      | cons y v => exact hends
    · intro heq
      cases v with
      | nil => exact fun hc => (hs '=' hc).2.2 rfl
      | cons y v => exact heq
    · intro _ hor
      rcases List.prefix_or_prefix_of_prefix hor (List.prefix_append v rest') with hv | ⟨u, hu⟩
      · exact List.prefix_append_of_prefix hv
      · rw [← hu]
        cases u with
        | nil => simp
        | cons c u =>
          -- the first character of `rest'` would be one of the three
          have hmem : c ∈ ['O', 'R', ' '] := hu ▸ List.mem_append_right v List.mem_cons_self
          rw [← hu, List.prefix_append_right_inj] at hor
          obtain ⟨r, hr⟩ := hor
          obtain ⟨hc, hspace, -⟩ := hs c (by rw [← hr]; rfl)
          simp only [List.mem_cons, List.not_mem_nil, or_false, hspace] at hmem
          rcases hmem with rfl | rfl <;> cases d <;> cases hc

end CompactSearch.Lexer

/-
Readings of a whole text. A query is cut to its end into tokens that the grammar derives (`parse_eq_ok_iff`). Any other
text fails at a place where no token starts, at a token that cannot follow those in front of it, or at its end
(`fails_of_parse`). Up to there the lexer cuts the text and the machine reads its tokens, so every statement about an
error is one about a cut, a state and the reason that ends them.
-/
import CompactSearch.Proofs.Query.Cut
import CompactSearch.Proofs.Query.Recognition

namespace CompactSearch

namespace Grammar

variable {s s' : State} {t : Placed} {ts us : List Placed} {e : ParseError}

/-! ## Tokens that a state does not take -/

/-- Why a state does not take a token. -/
inductive Blocks (s : State) (t : Placed) : ParseError → Prop
  | tooDeep (h : s.phase = .start) (hd : s.enclosing.length = maxDepth) (ht : t.token = .openGroup) :
    Blocks s t (.tooDeep t.position)
  | noValue (h : ¬ s.AtomEnds) : Blocks s t (.unexpected t.position (.token t.token) .value)
  | trailing (h : s.AtomEnds) (he : s.enclosing = []) : Blocks s t (.trailingInput t.position (.token t.token))
  | noClose (h : s.AtomEnds) (he : s.enclosing ≠ []) : Blocks s t (.unexpected t.position (.token t.token) .closeGroup)

theorem blocks_of_afterAtom (ha : s.AtomEnds) (h : s.afterAtom t = .error e) : Blocks s t e := by
  unfold State.afterAtom at h
  split at h
  · cases h
  · cases h
  · cases h
  · rename_i he _ _; cases h; exact .trailing ha he
  · rename_i he _ _ _; cases h; exact .noClose ha (by simp [he])

theorem blocks_of_step (h : s.step t = .error e) : Blocks s t e := by
  unfold State.step at h
  split at h
  · rename_i hp ht
    split at h
    · rename_i hd; cases h; exact .tooDeep hp hd ht
    · cases h
  · cases h
  · cases h
  · cases h
  · cases h
  · cases h
  · rename_i hp _ _ _; cases h; exact .noValue (by simp [State.AtomEnds, hp])
  · rename_i hp _; cases h; exact .noValue (by simp [State.AtomEnds, hp])
  · rename_i hp _; cases h; exact .noValue (by simp [State.AtomEnds, hp])
  · rename_i hp _; exact blocks_of_afterAtom (.inr ⟨_, _, hp⟩) h
  · rename_i hp; exact blocks_of_afterAtom (.inl hp) h

/-! ## Runs that fail -/

theorem run_append (s : State) (ts us : List Placed) : s.run (ts ++ us) = (s.run ts).bind (·.run us) := by
  induction ts generalizing s with
  | nil => rfl
  | cons t ts ih =>
    rw [List.cons_append, State.run, State.run]
    cases s.step t with
    | error e => rfl
    | ok s' => exact ih s'

theorem run_append_eq_ok : s.run (ts ++ us) = .ok s' ↔ ∃ s₁, s.run ts = .ok s₁ ∧ s₁.run us = .ok s' := by
  rw [run_append]
  cases s.run ts <;> simp [Except.bind]

/-- A run fails at its first token that is not taken. -/
theorem run_eq_error (h : s.run ts = .error e) :
    ∃ ts₁ t ts₂ s', ts = ts₁ ++ t :: ts₂ ∧ s.run ts₁ = .ok s' ∧ s'.step t = .error e := by
  induction ts generalizing s with
  | nil => cases h
  | cons t ts ih =>
    rw [State.run] at h
    cases hs : s.step t with
    | error e' =>
      rw [hs] at h
      cases h
      exact ⟨[], t, ts, s, rfl, rfl, hs⟩
    | ok s₁ =>
      rw [hs] at h
      obtain ⟨ts₁, t', ts₂, s', rfl, hr, he⟩ := ih h
      exact ⟨t :: ts₁, t', ts₂, s', rfl, run_cons_ok.2 ⟨s₁, step_eq_ok_iff.1 hs, hr⟩, he⟩

theorem finish_eq_error (h : s.finish = .error e) :
    (¬ s.AtomEnds ∧ e = .unexpectedEnd .value) ∨
      (s.AtomEnds ∧ ∃ p l rest, s.enclosing = (p, l) :: rest ∧ e = .unclosedGroup p) := by
  obtain ⟨phase, l, enclosing⟩ := s
  cases phase with
  | start | negated | keyed => cases h; exact .inl ⟨by simp [State.AtomEnds], rfl⟩
  | first negated v =>
    cases enclosing with
    | nil => cases h
    | cons x rest => cases h; exact .inr ⟨.inr ⟨_, _, rfl⟩, _, _, _, rfl, rfl⟩
  | complete =>
    cases enclosing with
    | nil => cases h
    | cons x rest => cases h; exact .inr ⟨.inl rfl, _, _, _, rfl, rfl⟩

theorem parseTokens_eq_error (h : parseTokens ts = .error e) : State.initial.run ts = .error e ∨
    ∃ st, State.initial.run ts = .ok st ∧ (st.finish = .error e ∨ ts = [] ∧ e = .empty) := by
  cases ts with
  | nil =>
    cases h
    exact .inr ⟨_, rfl, .inr ⟨rfl, rfl⟩⟩
  | cons t ts =>
    simp only [parseTokens] at h
    cases hrun : State.initial.run (t :: ts) with
    | error e' =>
      rw [hrun] at h
      cases h
      exact .inl rfl
    | ok st =>
      rw [hrun] at h
      exact .inr ⟨st, rfl, .inl h⟩

/-! ## Places where a leaf can start -/

theorem phase_of_moves (h : Moves s t s') : t.token.precedesLeaf = true ↔ s'.phase = .start := by
  cases h <;> simp [Token.precedesLeaf]

/-- A leaf can start behind a cut exactly if the machine waits for an atom there. -/
theorem phase_of_cuts {d : Dialect} {b b' : Bool} {p : Nat} {v rest : List Char} (h : Lexer.Cuts d b p v rest ts b')
    (hr : s.run ts = .ok s') (hb : b = true ↔ s.phase = .start) : b' = true ↔ s'.phase = .start := by
  induction h generalizing s with
  | done => cases hr; exact hb
  | token ht h ih =>
    obtain ⟨s₁, hm, hr⟩ := run_cons_ok.1 hr
    exact ih hr (phase_of_moves hm)

end Grammar

/-! ## Readings -/

open Lexer Grammar

variable {d : Dialect} {s : String} {q : Query} {e : ParseError}

theorem parse_of_cuts {ts : List Placed} {b : Bool} (h : Cuts d true 0 s.toList [] ts b) :
    parse d s = parseTokens ts := by
  rw [parse, tokens, tokensFrom_eq_ok_iff.2 ⟨b, h⟩]

theorem parse_eq_ok_iff : parse d s = .ok q ↔ ∃ ts b, Cuts d true 0 s.toList [] ts b ∧
    DerivesDisjunction (ts.map (·.token)) q ∧ NestsWithin maxDepth (ts.map (·.token)) := by
  constructor
  · intro h
    cases htok : tokens d s with
    | error e => rw [parse, htok] at h; cases h
    | ok ts =>
      obtain ⟨b, hcut⟩ := tokensFrom_eq_ok_iff.1 htok
      rw [parse_of_cuts hcut] at h
      exact ⟨ts, b, hcut, derives_of_parseTokens h⟩
  · rintro ⟨ts, b, hcut, hd, hn⟩
    rw [parse_of_cuts hcut]
    exact parseTokens_of_derives hd hn

/-- How a text fails to be a query. -/
inductive Fails (d : Dialect) : List Char → ParseError → Prop
  /-- No token starts behind the part that is cut. -/
  | lexeme {v rest : List Char} {ts : List Placed} {b : Bool} {e : ParseError} (hcut : Cuts d true 0 v rest ts b)
    (h : Refuses d v.length rest e) : Fails d (v ++ rest) e
  /-- The machine does not take the token behind the part that it has read. -/
  | token {v w rest : List Char} {ts : List Placed} {b : Bool} {t : Token} {st : State} {e : ParseError}
    (hcut : Cuts d true 0 v (w ++ rest) ts b) (ht : Takes d b t w rest) (hrun : State.initial.run ts = .ok st)
    (h : st.step ⟨t, v.length⟩ = .error e) : Fails d (v ++ (w ++ rest)) e
  /-- The machine has read all of the text and may not end there. -/
  | ending {cs : List Char} {ts : List Placed} {b : Bool} {st : State} {e : ParseError}
    (hcut : Cuts d true 0 cs [] ts b) (hrun : State.initial.run ts = .ok st)
    (h : st.finish = .error e ∨ ts = [] ∧ e = .empty) : Fails d cs e

theorem fails_of_parse (h : parse d s = .error e) : Fails d s.toList e := by
  rw [parse] at h
  cases htok : tokens d s with
  | error e' =>
    rw [htok] at h
    cases h
    obtain ⟨v, rest, ts, b, hs, hcut, he⟩ := tokensFrom_eq_error_iff.1 htok
    rw [Nat.zero_add] at he
    rw [hs]
    exact .lexeme hcut he
  | ok ts =>
    rw [htok] at h
    obtain ⟨b, hcut⟩ := tokensFrom_eq_ok_iff.1 htok
    rcases parseTokens_eq_error h with hrun | ⟨st, hrun, hend⟩
    · obtain ⟨ts₁, t, ts₂, st, rfl, hrun₁, hstep⟩ := run_eq_error hrun
      obtain ⟨v, v', b', hs, hcut₁, hcut₂⟩ := hcut.split
      rw [List.append_nil] at hcut₁
      rw [hs]
      cases hcut₂ with
      | token ht _ =>
        rw [List.append_nil] at ht
        rw [Nat.zero_add] at hstep
        exact .token hcut₁ ht hrun₁ hstep
    · exact .ending hcut hrun hend

end CompactSearch

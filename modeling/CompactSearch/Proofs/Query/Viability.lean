/-
What an error says about the text. An error that points at an unexpected character or token, or at a group too deep,
points at the first character that no query can have there; an error that asks for more is met only by a text that is
the beginning of a query (`parse_error_located`).

For the first half, a character that is refused behind a cut is refused whatever follows it, since the kind of the token
that it starts does not depend on what follows. For the second half every state of the machine has a completion: a value
where one is missing, and a parenthesis for each open group.
-/
import CompactSearch.Proofs.Query.Lexing
import CompactSearch.Proofs.Query.Parenthesis
import CompactSearch.Proofs.Query.Reading

namespace CompactSearch

/-- The place that no continuation gets beyond, for an error that says there is one. -/
def ParseError.refusal? : ParseError → Option Nat
  | unexpected p _ _ | trailingInput p _ | tooDeep p => some p
  | empty | unexpectedEnd _ | unterminatedQuote _ | unclosedGroup _ => none

/-- The error is met at the end of the text, where the grammar needs more tokens. -/
def ParseError.asksForMore : ParseError → Bool
  | empty | unexpectedEnd _ | unclosedGroup _ => true
  | unexpected .. | unterminatedQuote _ | trailingInput .. | tooDeep _ => false

/-- The characters spell a query. -/
def Accepts (d : Dialect) (cs : List Char) : Prop := ∃ q, parse d (String.ofList cs) = .ok q

/-- Some query begins with the characters. -/
def CanBegin (d : Dialect) (cs : List Char) : Prop := ∃ rest, Accepts d (cs ++ rest)

open Lexer Grammar

variable {d : Dialect} {b b' : Bool} {p : Nat} {v w rest : List Char} {t : Token} {ts : List Placed} {e : ParseError}

/-! ## Kinds of tokens -/

namespace Token

/-- A token that stands for all that the grammar takes in the same places. -/
def kind : Token → Token
  | value _ => value .null
  | op _ => op .default
  | or => space
  | t => t

/-- The kind of the token that starts with a character. -/
def kindOf (d : Dialect) (leafStart : Bool) (c : Char) : Token :=
  if c = ' ' then space
  else if c = '(' then openGroup
  else if c = ')' then closeGroup
  else if c = '"' then value .null
  else if d.isReserved c then op .default
  else if c = '-' ∧ (d.hasNegation && leafStart) = true then minus
  else value .null

end Token

theorem kind_of_takes {c : Char} (h : Takes d b t (c :: w) rest) : t.kind = Token.kindOf d b c := by
  generalize hw : c :: w = x at h
  cases h with
  | quoted k h => cases hw; rfl
  | run h hm hr =>
    subst hw
    have hc := h.free c List.mem_cons_self
    have hne := ne_sign_of_free hc
    have hm' : ¬ (c = '-' ∧ (d.hasNegation && b) = true) := by
      rintro ⟨rfl, hn⟩
      rw [hm rfl] at hn
      cases hn
    rw [Token.kindOf, if_neg (hne _ (by decide)), if_neg (hne _ (by decide)), if_neg (hne _ (by decide)),
      if_neg (hne _ (by decide)), if_neg (by simp [hc]), if_neg hm']
    rfl
  | minus hm => cases hw; rw [Token.kindOf, hm]; cases d <;> rfl
  | op o _ => cases o <;> cases hw <;> cases d <;> rfl
  | space | or | openGroup | closeGroup => cases hw; rfl

namespace Grammar

/-- A state takes all tokens of a kind or none of them. -/
theorem moves_of_kind {s s' : State} {t u : Placed} (h : Moves s t s') (hk : u.token.kind = t.token.kind) :
    ∃ s'', Moves s u s'' := by
  obtain ⟨tok, q⟩ := u
  cases h with
  | openGroup h => cases tok <;> cases hk; exact ⟨_, .openGroup h⟩
  | minus => cases tok <;> cases hk; exact ⟨_, .minus⟩
  | value => cases tok <;> cases hk; exact ⟨_, .value⟩
  | negatedValue => cases tok <;> cases hk; exact ⟨_, .negatedValue⟩
  | op => cases tok <;> cases hk; exact ⟨_, .op⟩
  | keyedValue => cases tok <;> cases hk; exact ⟨_, .keyedValue⟩
  | space ha | or ha =>
    cases tok <;> cases hk
    · exact ⟨_, .space ha⟩
    · exact ⟨_, .or ha⟩
  | closeGroup ha he => cases tok <;> cases hk; exact ⟨_, .closeGroup ha he⟩

end Grammar

/-! ## Characters without a continuation -/

theorem accepts_iff {cs : List Char} : Accepts d cs ↔ ∃ ts b s, Cuts d true 0 cs [] ts b ∧
    State.initial.run ts = .ok s ∧ s.AtomEnds ∧ s.enclosing = [] := by
  constructor
  · rintro ⟨q, hq⟩
    obtain ⟨ts, b, hcut, hd, hn⟩ := parse_eq_ok_iff.1 hq
    rw [String.toList_ofList] at hcut
    obtain ⟨s, hr, hf⟩ := parseTokens_eq_ok.1 (parseTokens_of_derives hd hn)
    obtain ⟨ha, he, -⟩ := finish_eq_ok_iff.1 hf
    exact ⟨ts, b, s, hcut, hr, ha, he⟩
  · rintro ⟨ts, b, s, hcut, hr, ha, he⟩
    refine ⟨s.closedLevel.formula, ?_⟩
    rw [parse_of_cuts (by rwa [String.toList_ofList])]
    exact parseTokens_eq_ok.2 ⟨s, hr, finish_eq_ok_iff.2 ⟨ha, he, rfl⟩⟩

/-- A character that starts a token the machine does not take starts no other token that it takes. -/
theorem not_canBegin_of_step {c : Char} {s : State} (hcut : Cuts d true 0 v (c :: w ++ rest) ts b)
    (ht : Takes d b t (c :: w) rest) (hrun : State.initial.run ts = .ok s)
    (h : s.step ⟨t, v.length⟩ = .error e) : ¬ CanBegin d (v ++ [c]) := by
  have hno : ∀ {u : Token} {s' : State}, Moves s ⟨u, v.length⟩ s' → u.kind ≠ Token.kindOf d b c := by
    intro u s' hm hu
    obtain ⟨s'', hm'⟩ := moves_of_kind (u := ⟨t, v.length⟩) hm ((kind_of_takes ht).trans hu.symm)
    rw [step_of_moves hm'] at h
    cases h
  rintro ⟨x, hx⟩
  rw [List.append_assoc] at hx
  obtain ⟨us, b₁, s₁, hcut', hrun', -⟩ := accepts_iff.1 hx
  -- where a leaf can start, the machine takes what starts with an `O`
  have hO : b = true → c ≠ 'O' := by
    rintro hb rfl
    obtain ⟨ph, l, en⟩ := s
    obtain rfl : ph = .start := (phase_of_cuts hcut hrun ⟨fun _ => rfl, fun _ => rfl⟩).1 hb
    exact hno (u := .value .null) .value (by cases d <;> rfl)
  obtain ⟨us', b₂, rfl, hrest⟩ := (hcut.congr_head x hO).rest_of_whole hcut'
  rw [run_append, hrun] at hrun'
  rw [Nat.zero_add] at hrest
  generalize hcs : c :: x = cs at hrest
  cases hrest with
  | done => cases hcs
  | @token _ _ _ u w' v' _ us ht' _ =>
    obtain ⟨c', w', rfl, -⟩ := firstToken_of_takes ht'
    cases hcs
    obtain ⟨s₂, hm, -⟩ := run_cons_ok.1 hrun'
    exact hno hm (kind_of_takes ht')

/-- A text in which no token starts stays so however it goes on behind the character that the error points at. -/
theorem Lexer.Refuses.ahead {q : Nat} (h : Refuses d q rest e) (he : e.refusal? = some p) :
    ∃ front c tail, rest = front ++ c :: tail ∧ p = q + front.length ∧ ∀ tail', Refuses d q (front ++ c :: tail') e := by
  cases h with
  | @tilde rest h =>
    cases he
    exact ⟨[], '~', rest, rfl, rfl, fun _ => .tilde h⟩
  | @noRun k c rest h hc =>
    cases he
    exact ⟨List.replicate (k + 1) '"', c, rest, rfl, by rw [List.length_replicate], fun _ => .noRun k h hc⟩
  | noMore k => cases he
  | @badClose j k run c rest h hj hr hc =>
    cases he
    refine ⟨quotes (k + 1) (run ++ List.replicate j '"'), c, rest, ?_, ?_, fun tail' => ?_⟩
    · simp [quotes]
    · simp [quotes, Nat.add_assoc]
    · have hr' : EndsRun d (quotes j (c :: tail')) := by cases j <;> exact hr
      rw [quotes_append, List.append_assoc]
      exact .badClose h hj hr' hc
  | noClose h hj => cases he

theorem Lexer.Refuses.reserved {q : Nat} {c : Char} (h : Refuses d q (c :: rest) e) : d.isReserved c = true := by
  generalize hcs : c :: rest = cs at h
  cases h with
  | tilde h => cases hcs; subst h; rfl
  | noRun | noMore | badClose | noClose => cases hcs; cases d <;> rfl

/-- Where no token starts, the character that the error points at has no continuation. -/
theorem not_canBegin_of_refuses (hcut : Cuts d true 0 v rest ts b) (h : Refuses d v.length rest e)
    (he : e.refusal? = some p) :
    ∃ front c tail, v ++ rest = front ++ c :: tail ∧ p = front.length ∧ ¬ CanBegin d (front ++ [c]) := by
  obtain ⟨front, c, tail, rfl, rfl, href⟩ := h.ahead he
  refine ⟨v ++ front, c, tail, (List.append_assoc ..).symm, List.length_append.symm, ?_⟩
  rintro ⟨x, y, hy⟩
  obtain ⟨us, b₁, hcut', -⟩ := parse_eq_ok_iff.1 hy
  rw [String.toList_ofList, List.append_assoc, List.append_assoc] at hcut'
  obtain ⟨z, r, r', hr, hr'⟩ : ∃ z r r', front ++ c :: tail = z :: r ∧ front ++ ([c] ++ x) = z :: r' := by
    cases front <;> exact ⟨_, _, _, rfl, rfl⟩
  rw [hr] at hcut h
  -- a refused text starts with a reserved character, so that the cut in front of it does not depend on the rest
  have hO : b = true → z ≠ 'O' := by
    rintro - rfl
    cases d <;> cases h.reserved
  have hcut₁ := hcut.congr_head r' hO
  rw [← hr'] at hcut₁
  have herr := tokensFrom_eq_error_iff.2 ⟨v, _, ts, b, rfl, hcut₁, (Nat.zero_add v.length).symm ▸ href x⟩
  rw [tokensFrom_eq_ok_iff.2 ⟨b₁, hcut'⟩] at herr
  cases herr

/-! ## Completions -/

namespace Grammar

/-- What a state needs before the text may end: a value if one has to follow, and the end of each open group. -/
def State.missing (s : State) : List Token :=
  match s.phase with
  | .first _ _ | .complete => List.replicate s.enclosing.length .closeGroup
  | .start | .negated | .keyed _ _ _ => .value (.string "a") :: List.replicate s.enclosing.length .closeGroup

theorem run_closeGroups : ∀ {ts : List Placed} {s : State}, s.AtomEnds →
    ts.map (·.token) = List.replicate s.enclosing.length .closeGroup →
      ∃ s', s.run ts = .ok s' ∧ s'.AtomEnds ∧ s'.enclosing = []
  | [], s, ha, h => ⟨s, rfl, ha, List.length_eq_zero_iff.1 (by simpa using (congrArg List.length h).symm)⟩
  | ⟨t, q⟩ :: ts, ⟨ph, l, e⟩, ha, h => by
    cases e with
    | nil => cases h
    | cons x e =>
      rw [List.map_cons, List.length_cons, List.replicate_succ, List.cons.injEq] at h
      obtain ⟨rfl, h⟩ := h
      have hm : Moves ⟨ph, l, x :: e⟩ ⟨.closeGroup, q⟩ _ := .closeGroup ha rfl
      obtain ⟨s', hr, hs'⟩ := run_closeGroups (s := ⟨.complete, _, e⟩) (.inl rfl) h
      exact ⟨s', run_cons_ok.2 ⟨_, hm, hr⟩, hs'⟩

theorem missing_eq (s : State) :
    (s.AtomEnds ∧ s.missing = List.replicate s.enclosing.length .closeGroup) ∨
      (¬ s.AtomEnds ∧ s.missing = .value (.string "a") :: List.replicate s.enclosing.length .closeGroup) := by
  obtain ⟨ph, l, e⟩ := s
  cases ph with
  | first negated v => exact .inl ⟨.inr ⟨negated, v, rfl⟩, rfl⟩
  | complete => exact .inl ⟨.inl rfl, rfl⟩
  | start | negated | keyed => exact .inr ⟨by simp [State.AtomEnds], rfl⟩

/-- Where the atom may not end, a value can follow, and then it may. -/
theorem exists_moves_value (s : State) (ha : ¬ s.AtomEnds) (v : Value) (q : Nat) :
    ∃ s', Moves s ⟨.value v, q⟩ s' ∧ s'.AtomEnds ∧ s'.enclosing = s.enclosing := by
  obtain ⟨ph, l, e⟩ := s
  cases ph with
  | start => exact ⟨_, .value, .inr ⟨_, _, rfl⟩, rfl⟩
  | negated => exact ⟨_, .negatedValue, .inr ⟨_, _, rfl⟩, rfl⟩
  | keyed => exact ⟨_, .keyedValue, .inl rfl, rfl⟩
  | first negated v => exact absurd (.inr ⟨negated, v, rfl⟩) ha
  | complete => exact absurd (.inl rfl) ha

/-- From every state the machine gets to the end of a query. -/
theorem run_missing (s : State) (h : ts.map (·.token) = s.missing) :
    ∃ s', s.run ts = .ok s' ∧ s'.AtomEnds ∧ s'.enclosing = [] := by
  rcases missing_eq s with ⟨ha, hm⟩ | ⟨ha, hm⟩
  · exact run_closeGroups ha (h.trans hm)
  · obtain ⟨q, us, rfl, hu⟩ := map_token_cons (h.trans hm)
    obtain ⟨s₁, hmove, ha₁, he₁⟩ := exists_moves_value s ha (.string "a") q
    rw [← he₁] at hu
    obtain ⟨s', hr, hs'⟩ := run_closeGroups ha₁ hu
    exact ⟨s', run_cons_ok.2 ⟨s₁, hmove, hr⟩, hs'⟩

theorem fits_closeGroups : ∀ (b : Bool) (n : Nat), Fits d b (List.replicate n .closeGroup)
  | _, 0 => trivial
  | _, n + 1 => fits_closeGroups false n

theorem fits_missing (s : State) (b : Bool) : Fits d b s.missing := by
  rcases missing_eq s with ⟨-, hm⟩ | ⟨-, hm⟩
  · exact hm ▸ fits_closeGroups b _
  · have hrun : IsRun d "a".toList := by cases d <;> decide
    have htyped : (Value.string "a").IsTyped := ⟨by decide, by decide⟩
    rw [hm]
    exact ⟨hrun, htyped, fits_closeGroups false _⟩

/-- What a state needs can be typed behind anything. -/
theorem stops_missing (s : State) : Stops d (s.missing.flatMap plainChars) := by
  rcases missing_eq s with ⟨-, hm⟩ | ⟨-, hm⟩
  · rw [hm]
    cases s.enclosing.length with
    | zero => rintro c ⟨⟩
    | succ n =>
      rintro c ⟨⟩
      cases d <;> decide
  · rw [hm]
    rintro c ⟨⟩
    cases d <;> decide

end Grammar

/-- As long as the machine takes the tokens of a text, the text is the beginning of a query. -/
theorem canBegin_of_cuts {s : State} (hcut : Cuts d true 0 v rest ts b) (hrun : State.initial.run ts = .ok s) :
    CanBegin d v := by
  obtain ⟨us, hus, hmap⟩ := lexes_of_fits (fits_missing s b) v.length
  obtain ⟨b', hcut'⟩ := tokensFrom_eq_ok_iff.1 hus
  obtain ⟨s', hr, ha, he⟩ := run_missing s hmap
  have hfront := hcut.congr_stops (stops_missing s)
  rw [← List.append_nil (List.flatMap ..)] at hfront
  rw [← Nat.zero_add v.length] at hcut'
  exact ⟨_, accepts_iff.2 ⟨ts ++ us, b', s', hfront.append hcut', run_append_ok hrun hr, ha, he⟩⟩

/-! ## Open groups -/

namespace Grammar

variable {s : State} {ts₁ ts₂ : List Placed}

/-- The stack holds the groups that are opened and not closed. -/
theorem count_of_run (h : State.initial.run ts = .ok s) :
    (ts.map (·.token)).count .openGroup = (ts.map (·.token)).count .closeGroup + s.enclosing.length := by
  obtain ⟨outer, inner, ho, hi, hsplit⟩ := (reads_run reads_initial h).split
  have hcount := count_enclosing ho
  have hb := balanced_inner hi
  unfold Balanced at hb
  rw [List.nil_append] at hsplit
  rw [hsplit, List.count_append, List.count_append]
  omega

/-- Tokens that are read inside open groups nest in what is left of the depth. -/
theorem nestsWithin_rest (h₁ : State.initial.run ts₁ = .ok s)
    (hn : NestsWithin maxDepth ((ts₁ ++ ts₂).map (·.token))) :
    NestsWithin (maxDepth - s.enclosing.length) (ts₂.map (·.token)) := by
  intro pre hpre
  have hcount := count_of_run h₁
  have hd := (reads_run reads_initial h₁).depth
  rw [List.map_append] at hn
  have := hn _ ((List.prefix_append_right_inj _).2 hpre)
  rw [List.count_append, List.count_append] at this
  omega

/-- Behind the parenthesis of a group, a complete sentence leaves this group the innermost one. -/
theorem enclosing_of_derives {q : Query} (h : State.initial.run (ts₁ ++ ⟨.openGroup, p⟩ :: ts₂) = .ok s)
    (hd : DerivesDisjunction (ts₂.map (·.token)) q) : s.AtomEnds ∧ ∃ l e, s.enclosing = (p, l) :: e := by
  have hn := (reads_run reads_initial h).nests
  obtain ⟨s₁, h₁, hrest⟩ := run_append_eq_ok.1 h
  obtain ⟨s₂, hm, h₂⟩ := run_cons_ok.1 hrest
  have hopen := run_append_ok h₁ (run_one hm)
  have hdepth := (reads_run reads_initial hopen).depth
  rw [List.nil_append, List.append_cons] at hn
  have hn₂ := nestsWithin_rest hopen hn
  cases hm with
  | @openGroup l e _ _ =>
    have hk : ((p, l) :: e).length + (maxDepth - ((p, l) :: e).length) ≤ maxDepth := by
      rw [Nat.add_sub_cancel' hdepth]
    obtain ⟨l', ⟨s', hr, ha, he, -⟩, -⟩ := run_disjunction hd rfl hn₂ hk
    rw [h₂] at hr
    cases hr
    exact ⟨ha, l, e, he⟩

/-- Where the text ends inside a group and an atom may end, the tokens behind its parenthesis are a complete sentence. -/
theorem derives_of_enclosing {l : Level} {e : List (Nat × Level)} (h : State.initial.run ts = .ok s) (ha : s.AtomEnds)
    (he : s.enclosing = (p, l) :: e) :
    ∃ ts₁ ts₂ q, ts = ts₁ ++ ⟨.openGroup, p⟩ :: ts₂ ∧ DerivesDisjunction (ts₂.map (·.token)) q := by
  obtain ⟨outer, inner, ho, hi, hsplit⟩ := (reads_run reads_initial h).split
  rw [he] at ho
  cases ho with
  | @group _ us vs _ _ ho hl =>
    rw [List.nil_append, List.append_assoc] at hsplit
    obtain ⟨ts₁, ts', rfl, -, hts'⟩ := map_token_append hsplit
    obtain ⟨q, ts₂, rfl, rfl⟩ := map_token_cons hts'
    have hd := (fullAfter_closedLevel ha hi).formula
    obtain ⟨-, l', e', he'⟩ := enclosing_of_derives h hd
    rw [he, List.cons.injEq, Prod.mk.injEq] at he'
    obtain ⟨⟨rfl, -⟩, -⟩ := he'
    exact ⟨ts₁, ts₂, _, rfl, hd⟩

end Grammar

/-- A query closes what it opens, and nothing else. -/
theorem Accepts.closed {cs : List Char} (h : Accepts d cs) :
    cs.count '(' = cs.count ')' ∧ ∀ x, x <+: cs → x.count ')' ≤ x.count '(' := by
  obtain ⟨ts, b, s, hcut, hrun, -, he⟩ := accepts_iff.1 h
  constructor
  · rw [(sameParens_cuts hcut).opening, (sameParens_cuts hcut).closing, count_of_run hrun, he]
    rfl
  · intro x hx
    obtain ⟨us, ⟨vs, hsplit⟩, hsame⟩ := sameParens_of_prefix hcut hx
    obtain ⟨ts₁, ts₂, rfl, rfl, -⟩ := List.map_eq_append_iff.1 hsplit.symm
    obtain ⟨s₁, h₁, -⟩ := run_append_eq_ok.1 hrun
    rw [hsame.opening, hsame.closing, count_of_run h₁]
    exact Nat.le_add_right _ _

/-- At the end of a text an unclosed group is found exactly where a query follows a parenthesis. -/
theorem unclosedGroup_iff {cs : List Char} {s : State} (hcut : Cuts d true 0 cs [] ts b)
    (hrun : State.initial.run ts = .ok s) (h : s.finish = .error e ∨ ts = [] ∧ e = .empty) :
    e = .unclosedGroup p ↔ cs[p]? = some '(' ∧ Accepts d (cs.drop (p + 1)) := by
  constructor
  · rintro rfl
    have hf : s.finish = .error (.unclosedGroup p) := by simpa using h
    rcases finish_eq_error hf with ⟨-, h⟩ | ⟨ha, q, l, rest, he, h⟩
    · cases h
    · cases h
      obtain ⟨ts₁, ts₂, q, rfl, hd⟩ := derives_of_enclosing hrun ha he
      obtain ⟨s₁, h₁, -⟩ := run_append_eq_ok.1 hrun
      have hnests := (reads_run reads_initial hrun).nests
      rw [List.nil_append] at hnests
      have hn : NestsWithin maxDepth (ts₂.map (·.token)) := fun x hx => by
        have := nestsWithin_rest h₁ hnests _ ((List.prefix_cons_inj _).2 hx)
        simp at this
        omega
      obtain ⟨v, v', b₁, rfl, -, hcut₂⟩ := hcut.split
      rw [Nat.zero_add] at hcut₂
      cases hcut₂ with
      | @token _ _ _ _ _ x _ _ ht hcut₃ =>
        cases ht
        have hx : (v ++ (['('] ++ x)).drop (v.length + 1) = x := by simp
        obtain ⟨us, hus, hmap⟩ := hcut₃.shift 0
        rw [← hmap] at hd hn
        rw [hx]
        exact ⟨by simp, q, parse_eq_ok_iff.2 ⟨us, b, by rwa [String.toList_ofList], hd, hn⟩⟩
  · rintro ⟨hp, hacc⟩
    obtain ⟨hlt, hc⟩ := List.getElem?_eq_some_iff.1 hp
    have hsplit : cs = cs.take p ++ '(' :: cs.drop (p + 1) := by
      rw [← hc, List.getElem_cons_drop, List.take_append_drop]
    rw [hsplit] at hcut
    obtain ⟨ts₁, ts₂, rfl, hcut₂⟩ := hcut.at_openGroup
    rw [List.length_take_of_le (Nat.le_of_lt hlt), Nat.zero_add] at hrun
    obtain ⟨q, hq⟩ := hacc
    obtain ⟨us, b₁, hcut', hd, -⟩ := parse_eq_ok_iff.1 hq
    rw [String.toList_ofList] at hcut'
    -- the text behind the parenthesis has the same tokens here and when it stands alone
    obtain ⟨us', hus', hmap⟩ := hcut₂.shift 0
    rw [hus'.eq_of_whole hcut', hmap] at hd
    obtain ⟨ha, l, en, he⟩ := enclosing_of_derives hrun hd
    have hf : s.finish = .error e := by simpa using h
    rcases finish_eq_error hf with ⟨hna, -⟩ | ⟨-, p', l', rest, he', rfl⟩
    · exact absurd ha hna
    · rw [he] at he'
      cases he'
      rfl

/-! ## Errors -/

/-- The parenthesis at position `p` is open at the end of the text, and no other one behind it. -/
def InnermostOpen (cs : List Char) (p : Nat) : Prop :=
  ∃ pre post, cs = pre ++ '(' :: post ∧ pre.length = p ∧ post.count '(' = post.count ')' ∧
    ∀ x, x <+: post → x.count ')' ≤ x.count '('

theorem innermostOpen_of_accepts {cs : List Char} (hp : cs[p]? = some '(') (h : Accepts d (cs.drop (p + 1))) :
    InnermostOpen cs p := by
  obtain ⟨hlt, hc⟩ := List.getElem?_eq_some_iff.1 hp
  refine ⟨cs.take p, cs.drop (p + 1), ?_, List.length_take_of_le (Nat.le_of_lt hlt), h.closed⟩
  rw [← hc, List.getElem_cons_drop, List.take_append_drop]

theorem quote_of_refuses {q : Nat} (h : Refuses d q rest (.unterminatedQuote p)) :
    ∃ n, p = q + n ∧ rest[n]? = some '"' := by
  generalize he : ParseError.unterminatedQuote p = e at h
  cases h with
  | tilde | noRun | badClose => cases he
  | noMore k =>
    cases he
    exact ⟨k, rfl, by simp [quotes]⟩
  | @noClose j k run h hj =>
    cases he
    have hk : k - j < k + 1 := by omega
    exact ⟨k - j, rfl, by simp [quotes, List.getElem?_append_left, hk]⟩

theorem refusal?_eq_none : e.asksForMore = true → e.refusal? = none := by
  cases e <;> simp [ParseError.asksForMore, ParseError.refusal?]

theorem asksForMore_of_ending {s : State} (h : s.finish = .error e ∨ ts = [] ∧ e = .empty) :
    e.asksForMore = true := by
  rcases h with h | ⟨-, rfl⟩
  · rcases finish_eq_error h with ⟨-, rfl⟩ | ⟨-, _, _, _, -, rfl⟩ <;> rfl
  · rfl

theorem refusal_of_blocks {s : State} {u : Placed} (h : Blocks s u e) : e.refusal? = some u.position := by
  cases h <;> rfl

theorem trailing_of_blocks {s : State} {u : Placed} (h : Blocks s u e) :
    (∃ f, e = .trailingInput u.position f) ↔ s.AtomEnds ∧ s.enclosing = [] := by
  cases h with
  | tooDeep h => simp [State.AtomEnds, h]
  | noValue h => simp [h]
  | trailing h he => simp [h, he]
  | noClose h he => simp [he]

/-- The front of a text that the machine has read is a query if the machine may end there. -/
theorem accepts_of_cuts {s : State} (hcut : Cuts d true 0 v rest ts b) (hrun : State.initial.run ts = .ok s) :
    Accepts d v ↔ s.AtomEnds ∧ s.enclosing = [] := by
  have hend : Cuts d true 0 v [] ts b := hcut.congr_stops (by rintro c ⟨⟩)
  refine ⟨fun h => ?_, fun ⟨ha, he⟩ => accepts_iff.2 ⟨ts, b, s, hend, hrun, ha, he⟩⟩
  obtain ⟨us, b', s', hcut', hrun', hs'⟩ := accepts_iff.1 h
  rw [hend.eq_of_whole hcut', hrun] at hrun'
  cases hrun'
  exact hs'

variable {cs : List Char}

/-- An error of refusal points at a character of the text that no query has there behind the same characters. -/
theorem not_canBegin_of_fails (h : Fails d cs e) (he : e.refusal? = some p) :
    p < cs.length ∧ ¬ CanBegin d (cs.take (p + 1)) := by
  obtain ⟨front, c, tail, rfl, rfl, hno⟩ :
      ∃ front c tail, cs = front ++ c :: tail ∧ p = front.length ∧ ¬ CanBegin d (front ++ [c]) := by
    cases h with
    | lexeme hcut h => exact not_canBegin_of_refuses hcut h he
    | @token v w rest ts b t s e hcut ht hrun h =>
      rw [refusal_of_blocks (blocks_of_step h)] at he
      cases he
      obtain ⟨c, w, rfl, -⟩ := firstToken_of_takes ht
      exact ⟨v, c, w ++ rest, rfl, rfl, not_canBegin_of_step hcut ht hrun h⟩
    | ending hcut hrun h =>
      rw [refusal?_eq_none (asksForMore_of_ending h)] at he
      cases he
  refine ⟨by simp, ?_⟩
  rwa [List.append_cons, List.take_left' (by simp)]

/-- If the whole text consists of tokens, the characters in front of the place of a refusal are the beginning of a
query, and a query themselves if the error says that the rest is too much. -/
theorem canBegin_of_fails {us : List Placed} (h : Fails d cs e) (he : e.refusal? = some p)
    (htok : tokensFrom d true 0 cs = .ok us) :
    CanBegin d (cs.take p) ∧ ((∃ f, e = .trailingInput p f) ↔ Accepts d (cs.take p)) := by
  cases h with
  | @lexeme v rest ts b e hcut h =>
    rw [tokensFrom_eq_error_iff.2 ⟨v, rest, ts, b, rfl, hcut, (Nat.zero_add v.length).symm ▸ h⟩] at htok
    cases htok
  | token hcut ht hrun h =>
    have hb := blocks_of_step h
    rw [refusal_of_blocks hb] at he
    cases he
    rw [List.take_left]
    exact ⟨canBegin_of_cuts hcut hrun, (trailing_of_blocks hb).trans (accepts_of_cuts hcut hrun).symm⟩
  | ending hcut hrun h =>
    rw [refusal?_eq_none (asksForMore_of_ending h)] at he
    cases he

/-- An error that asks for more is met at the end of a text that the machine has read. -/
theorem ending_of_fails (h : Fails d cs e) (he : e.asksForMore = true) : ∃ ts b s,
    Cuts d true 0 cs [] ts b ∧ State.initial.run ts = .ok s ∧ (s.finish = .error e ∨ ts = [] ∧ e = .empty) := by
  cases h with
  | lexeme hcut h => cases h <;> cases he
  | token hcut ht hrun h => cases blocks_of_step h <;> cases he
  | ending hcut hrun h => exact ⟨_, _, _, hcut, hrun, h⟩

theorem quote_of_fails (h : Fails d cs (.unterminatedQuote p)) : cs[p]? = some '"' := by
  cases h with
  | @lexeme v rest _ _ _ hcut h =>
    obtain ⟨n, rfl, hn⟩ := quote_of_refuses h
    rwa [List.getElem?_append_right (Nat.le_add_right ..), Nat.add_sub_cancel_left]
  | token hcut ht hrun h => cases blocks_of_step h
  | ending hcut hrun h =>
    have hmore := asksForMore_of_ending h
    cases hmore

/-- Errors of parsing locate the failure and tell a text without hope from an unfinished one.

* An unexpected character or token, input behind a query and a group too deep point at a character of the text, and no
  query begins with the text up to this character and the character itself. If the whole text consists of tokens, the
  text in front of it is the beginning of a query, and a query itself exactly if the error is input behind a query.
* An empty text, an unexpected end and an unclosed group are met only by the beginning of a query. A group is unclosed
  exactly if the text behind its parenthesis is a query, and no other parenthesis is open then behind this one.
* An unterminated quote points at a quote. -/
theorem parse_error_located (d : Dialect) (s : String) (e : ParseError) (h : parse d s = .error e) :
    (∀ p, e.refusal? = some p → p < s.length ∧ ¬ CanBegin d (s.toList.take (p + 1)) ∧
      ∀ ts, tokens d s = .ok ts → CanBegin d (s.toList.take p) ∧
        ((∃ f, e = .trailingInput p f) ↔ Accepts d (s.toList.take p))) ∧
    (e.asksForMore = true → CanBegin d s.toList ∧
      ∀ p, (e = .unclosedGroup p ↔ s.toList[p]? = some '(' ∧ Accepts d (s.toList.drop (p + 1))) ∧
        (e = .unclosedGroup p → InnermostOpen s.toList p)) ∧
    ∀ p, e = .unterminatedQuote p → s.toList[p]? = some '"' := by
  have hf := fails_of_parse h
  refine ⟨fun p he => ?_, fun he => ?_, fun p he => quote_of_fails (he ▸ hf)⟩
  · obtain ⟨hlt, hno⟩ := not_canBegin_of_fails hf he
    rw [String.length_toList] at hlt
    exact ⟨hlt, hno, fun ts htok => canBegin_of_fails hf he htok⟩
  · obtain ⟨ts, b, st, hcut, hrun, hend⟩ := ending_of_fails hf he
    refine ⟨canBegin_of_cuts hcut hrun, fun p => ?_⟩
    have hiff : e = .unclosedGroup p ↔ _ := unclosedGroup_iff hcut hrun hend
    exact ⟨hiff, fun hp => innermostOpen_of_accepts (hiff.1 hp).1 (hiff.1 hp).2⟩

/-- A parenthesis too many, and one too few. -/
theorem parse_error_located_parentheses :
    parse .relational "a OR b) c" = .error (.trailingInput 6 (.token .closeGroup)) ∧
      ¬ CanBegin .relational "a OR b)".toList ∧ Accepts .relational "a OR b".toList ∧
      parse .document "x ((a) -b>1" = .error (.unclosedGroup 2) ∧ CanBegin .document "x ((a) -b>1".toList ∧
      Accepts .document "(a) -b>1".toList ∧ InnermostOpen "x ((a) -b>1".toList 2 := by
  have h : parse .relational "a OR b) c" = .error (.trailingInput 6 (.token .closeGroup)) := by decide +kernel
  have htok : tokens .relational "a OR b) c" = .ok [⟨.value (.string "a"), 0⟩, ⟨.or, 1⟩, ⟨.value (.string "b"), 5⟩,
      ⟨.closeGroup, 6⟩, ⟨.space, 7⟩, ⟨.value (.string "c"), 8⟩] := by decide +kernel
  have h' : parse .document "x ((a) -b>1" = .error (.unclosedGroup 2) := by decide +kernel
  obtain ⟨-, hno, hfront⟩ := (parse_error_located _ _ _ h).1 6 rfl
  obtain ⟨hbegin, hgroup⟩ := (parse_error_located _ _ _ h').2.1 rfl
  obtain ⟨hiff, hopen⟩ := hgroup 2
  exact ⟨h, hno, (hfront _ htok).2.1 ⟨_, rfl⟩, h', hbegin, (hiff.1 rfl).2, hopen rfl⟩

end CompactSearch

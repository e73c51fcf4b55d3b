/-
The two dialects side by side. Apart from the tilde they differ in a dash in front of a leaf only, a token of its own in
one dialect and the first character of the value behind it in the other. Where each such dash has a value behind it, the
rows of tokens differ in these pairs only (`Joins`), and the machine goes through the same states, with the sign of each
leaf spelled in its first value (`State.respell`). So one dialect answers what the other one does with every negated
leaf respelled, errors included (`parse_relational`).
-/
import CompactSearch.Proofs.Formula
import CompactSearch.Proofs.Query.Lexing
import CompactSearch.Proofs.Query.Reading

namespace CompactSearch

/-! ## Characters -/

/-- The dash at index `i` stands where a leaf can start: right after a space or an opening parenthesis, or at the front
of the text if `leafStart` is set. -/
def LeadingDash (leafStart : Bool) (cs : List Char) : (i : Nat) → Prop
  | 0 => cs[0]? = some '-' ∧ leafStart = true
  | i + 1 => cs[i + 1]? = some '-' ∧ (cs[i]? = some ' ' ∨ cs[i]? = some '(')

instance (leafStart : Bool) (cs : List Char) : (i : Nat) → Decidable (LeadingDash leafStart cs i)
  | 0 => inferInstanceAs (Decidable (_ ∧ _))
  | _ + 1 => inferInstanceAs (Decidable (_ ∧ _))

/-- A run can start behind each dash in front of a leaf. -/
def DashesBind (leafStart : Bool) (cs : List Char) : Prop :=
  ∀ i, LeadingDash leafStart cs i → ∃ c ∈ cs[i + 1]?, Dialect.document.isReserved c = false

theorem lt_of_leadingDash {leafStart : Bool} {cs : List Char} {i : Nat} (h : LeadingDash leafStart cs i) :
    i < cs.length := by
  cases i with
  | zero => exact (List.getElem?_eq_some_iff.1 h.1).1
  | succ i => exact (List.getElem?_eq_some_iff.1 h.1).1

theorem any_free_iff {c? : Option Char} :
    c?.any (!Dialect.document.isReserved ·) = true ↔ ∃ c ∈ c?, Dialect.document.isReserved c = false := by
  cases c? <;> simp

instance (leafStart : Bool) (cs : List Char) : Decidable (DashesBind leafStart cs) :=
  decidable_of_iff
    (∀ i < cs.length, LeadingDash leafStart cs i → cs[i + 1]?.any (!Dialect.document.isReserved ·) = true)
    ⟨fun h i hi => any_free_iff.1 (h i (lt_of_leadingDash hi) hi), fun h i _ hi => any_free_iff.2 (h i hi)⟩

namespace Lexer

variable {d : Dialect} {b b' : Bool} {p : Nat} {t : Token} {w rest : List Char} {ts us : List Placed}

theorem last_of_precedesLeaf (h : Takes d b t w rest) (ht : t.precedesLeaf = true) :
    ∃ v c, w = v ++ [c] ∧ (c = ' ' ∨ c = '(') := by
  cases h with
  | space => exact ⟨[], ' ', rfl, .inl rfl⟩
  | or => exact ⟨[' ', 'O', 'R'], ' ', rfl, .inl rfl⟩
  | openGroup => exact ⟨[], '(', rfl, .inr rfl⟩
  | quoted | run | minus | op | closeGroup => cases ht

theorem getElem?_length_add (w rest : List Char) (i : Nat) : (w ++ rest)[w.length + i]? = rest[i]? := by
  rw [List.getElem?_append_right (Nat.le_add_right ..), Nat.add_sub_cancel_left]

/-- A leaf can start behind a token only where the characters of the text say so. -/
theorem leadingDash_append {i : Nat} (h : Takes d b t w rest) (hi : LeadingDash t.precedesLeaf rest i) :
    LeadingDash b (w ++ rest) (w.length + i) := by
  cases i with
  | zero =>
    obtain ⟨v, c, rfl, hc⟩ := last_of_precedesLeaf h hi.2
    have hdash := (getElem?_length_add (v ++ [c]) rest 0).trans hi.1
    have hlast : (v ++ [c] ++ rest)[v.length]? = some c := by simp
    rw [List.length_append, List.length_singleton, Nat.add_zero] at hdash ⊢
    exact ⟨hdash, by rw [hlast]; simpa using hc⟩
  | succ i =>
    have hdash := (getElem?_length_add w rest (i + 1)).trans hi.1
    exact ⟨hdash, hi.2.imp (getElem?_length_add w rest i).trans (getElem?_length_add w rest i).trans⟩

theorem dashesBind_rest (h : Takes d b t w rest) (hd : DashesBind b (w ++ rest)) :
    DashesBind t.precedesLeaf rest := by
  intro i hi
  obtain ⟨c, hc, hfree⟩ := hd _ (leadingDash_append h hi)
  rw [Nat.add_assoc, getElem?_length_add] at hc
  exact ⟨c, hc, hfree⟩

/-! ## Tokens -/

theorem isReserved_relational {c : Char} (hc : c ≠ '~') :
    Dialect.relational.isReserved c = Dialect.document.isReserved c := by
  simp [Dialect.isReserved, beq_false_of_ne hc]

theorem isReserved_of_document {c : Char} (h : Dialect.document.isReserved c = true) :
    Dialect.relational.isReserved c = true := by
  refine (isReserved_relational ?_).trans h
  rintro rfl
  cases h

theorem IsRun.relational {run : List Char} (h : IsRun .document run) (ht : '~' ∉ run) : IsRun .relational run :=
  ⟨h.ne_nil, fun c hc => (isReserved_relational fun hc' => ht (hc' ▸ hc)).trans (h.free c hc)⟩

theorem EndsRun.relational (h : EndsRun .document rest) : EndsRun .relational rest :=
  fun c hc => isReserved_of_document (h c hc)

/-- Without tildes the dialects take the same tokens other than a dash. -/
theorem Takes.relational (h : Takes .document b t w rest) (hm : t ≠ .minus) (ht : '~' ∉ w) :
    Takes .relational b t w rest := by
  cases h with
  | quoted k h => exact .quoted k (h.relational fun hr => ht (by simp [quotes, hr]))
  | run h _ hr => exact .run (h.relational ht) (fun _ => rfl) hr.relational
  | minus => exact absurd rfl hm
  | op o h => exact .op o h
  | space h => exact .space h
  | or => exact .or
  | openGroup => exact .openGroup
  | closeGroup => exact .closeGroup

theorem Refuses.relational {cs : List Char} {e : ParseError} (h : Refuses .document p cs e) (ht : '~' ∉ cs) :
    Refuses .relational p cs e := by
  cases h with
  | tilde h => cases h
  | noRun k h hc => exact .noRun k (isReserved_of_document h) hc
  | noMore k => exact .noMore k
  | badClose h hj hr hc => exact .badClose (h.relational fun hm => ht (by simp [quotes, hm])) hj hr.relational hc
  | noClose h hj => exact .noClose (h.relational fun hm => ht (by simp [quotes, hm])) hj

/-- The tokens of a text in the document dialect and in the relational one. A dash in front of a value is the first
character of this value. -/
inductive Joins : Bool → List Placed → List Placed → Prop
  | nil {b : Bool} : Joins b [] []
  | dash {p q : Nat} {v : Value} {ts us : List Placed} (h : Joins false ts us) :
    Joins true (⟨.minus, p⟩ :: ⟨.value v, q⟩ :: ts) (⟨.value (.string ("-" ++ v.text)), p⟩ :: us)
  | same {b : Bool} {t : Placed} {ts us : List Placed} (hm : t.token ≠ .minus) (h : Joins t.token.precedesLeaf ts us) :
    Joins b (t :: ts) (t :: us)

/-- Both dialects cut a text up to its end, or refuse it for the same reason. -/
inductive Agree (b : Bool) : Except ParseError (List Placed) → Except ParseError (List Placed) → Prop
  | error (e : ParseError) : Agree b (.error e) (.error e)
  | ok {ts us : List Placed} (h : Joins b ts us) : Agree b (.ok ts) (.ok us)

theorem Agree.dash {x y : Except ParseError (List Placed)} (h : Agree false x y) (p q : Nat) (v : Value) :
    Agree true ((x.map (⟨.value v, q⟩ :: ·)).map (⟨.minus, p⟩ :: ·))
      (y.map (⟨.value (.string ("-" ++ v.text)), p⟩ :: ·)) := by
  cases h with
  | error e => exact .error e
  | ok h => exact .ok h.dash

theorem Agree.same {x y : Except ParseError (List Placed)} {t : Placed} (h : Agree t.token.precedesLeaf x y)
    (hm : t.token ≠ .minus) : Agree b (x.map (t :: ·)) (y.map (t :: ·)) := by
  cases h with
  | error e => exact .error e
  | ok h => exact .ok (h.same hm)

/-- What starts with a dash is a string. -/
theorem ofRun_dash (run : List Char) : Value.ofRun (String.ofList ('-' :: run)) =
    .string ("-" ++ (Value.ofRun (String.ofList run)).text) := by
  have hnull : String.ofList ('-' :: run) ≠ Value.nullText := fun h => by
    have := congrArg String.toList h
    rw [String.toList_ofList] at this
    cases this
  have hno : isNumeral ('-' :: run) = false := rfl
  have hnum : Numeral.ofText? (String.ofList ('-' :: run)) = none := by
    rw [Numeral.ofText?, dif_neg (by rw [String.toList_ofList, hno]; exact Bool.false_ne_true)]
  have happ : String.ofList ('-' :: run) = "-" ++ String.ofList run := by
    rw [← String.toList_inj]
    simp
  rw [Value.ofRun, if_neg hnull, hnum, Value.text_ofRun, happ]

theorem takes_dash {run : List Char} (h : IsRun .document run) (ht : '~' ∉ run) (hr : EndsRun .document rest) :
    Takes .relational b (.value (.string ("-" ++ (Value.ofRun (String.ofList run)).text))) ('-' :: run) rest := by
  have hrun : IsRun .document ('-' :: run) := ⟨List.cons_ne_nil _ _, List.forall_mem_cons.2 ⟨rfl, h.free⟩⟩
  have htake : Takes .relational b _ ('-' :: run) rest :=
    .run (hrun.relational (by simpa using ht)) (fun _ => rfl) hr.relational
  rwa [ofRun_dash] at htake

/-- In front of a run, a dash is a token of its own in one dialect and the first character of a value in the other. -/
theorem tokensFrom_dash {run : List Char} (h : IsRun .document run) (ht : '~' ∉ run) (hr : EndsRun .document rest)
    (p : Nat) :
    tokensFrom .document true p ('-' :: (run ++ rest)) =
      ((tokensFrom .document false (p + 1 + run.length) rest).map
        (⟨.value (.ofRun (String.ofList run)), p + 1⟩ :: ·)).map (⟨.minus, p⟩ :: ·) ∧
    tokensFrom .relational true p ('-' :: (run ++ rest)) =
      (tokensFrom .relational false (p + 1 + run.length) rest).map
        (⟨.value (.string ("-" ++ (Value.ofRun (String.ofList run)).text)), p⟩ :: ·) := by
  have hminus : Takes .document true .minus ['-'] (run ++ rest) := .minus rfl
  have hval : Takes .document false (.value (.ofRun (String.ofList run))) run rest := .run h (fun _ => rfl) hr
  have hpos : p + ('-' :: run).length = p + 1 + run.length := by rw [List.length_cons]; omega
  constructor
  · exact (tokensFrom_of_takes hminus).trans (congrArg (Except.map _) (tokensFrom_of_takes hval))
  · rw [← hpos]
    exact tokensFrom_of_takes (takes_dash h ht hr)

theorem exists_run_of_dash (h : DashesBind true ('-' :: rest)) :
    ∃ run tail, rest = run ++ tail ∧ IsRun .document run ∧ EndsRun .document tail := by
  obtain ⟨c, hc, hfree⟩ := h 0 ⟨rfl, rfl⟩
  cases rest with
  | nil => cases hc
  | cons x rest =>
    cases hc
    obtain ⟨run, tail, hrest, hrun, hends⟩ := exists_run rest hfree
    exact ⟨c :: run, tail, hrest, hrun, hends⟩

/-- Where every dash in front of a leaf has a run behind it, the dialects differ in these pairs only. -/
theorem agree_tokensFrom (b : Bool) (p : Nat) (cs : List Char) (ht : '~' ∉ cs) (hd : DashesBind b cs) :
    Agree b (tokensFrom .document b p cs) (tokensFrom .relational b p cs) := by
  match cs with
  | [] => rw [tokensFrom, tokensFrom]; exact .ok .nil
  | c :: r =>
    rcases takes_or_refuses .document b p c r with ⟨t, w, rest, hcs, h⟩ | ⟨e, he⟩
    · have hlen := rest_lt_of_takes h hcs
      rw [hcs] at ht hd ⊢
      have hdrest := dashesBind_rest h hd
      rw [List.mem_append, not_or] at ht
      by_cases hm : t = .minus
      · -- two tokens of one dialect are one of the other, so the recursion goes on behind both
        subst hm
        obtain ⟨rfl, rfl⟩ : b = true ∧ w = ['-'] := by
          cases h with
          | minus hb => exact ⟨hb, rfl⟩
        obtain ⟨run, tail, rfl, hrun, hends⟩ := exists_run_of_dash hd
        rw [List.mem_append, not_or] at ht
        have htail : tail.length < r.length + 1 := by
          rw [List.length_append] at hlen
          omega
        have hval : Takes .document false _ run tail := .run hrun (fun _ => rfl) hends
        have ih := agree_tokensFrom false (p + 1 + run.length) tail ht.2.2 (dashesBind_rest hval hdrest)
        obtain ⟨hdoc, hrel⟩ := tokensFrom_dash hrun ht.2.1 hends p
        rw [List.singleton_append, hdoc, hrel]
        exact ih.dash _ _ _
      · rw [tokensFrom_of_takes h, tokensFrom_of_takes (h.relational hm ht.1)]
        exact (agree_tokensFrom t.precedesLeaf _ rest ht.2 hdrest).same (t := ⟨t, p⟩) hm
    · rw [tokensFrom_of_refuses he, tokensFrom_of_refuses (he.relational ht)]
      exact .error e
termination_by cs.length

/-- The token of a dash stands where a leaf can start. -/
theorem leadingDash_of_minus {v : List Char} {q : Nat} (h : Cuts d b p v rest ts b') (hq : ⟨.minus, q⟩ ∈ ts) :
    ∃ i, LeadingDash b (v ++ rest) i := by
  induction h with
  | done => exact absurd hq List.not_mem_nil
  | @token b b' p t w v rest ts ht h ih =>
    rw [List.append_assoc]
    rcases List.mem_cons.1 hq with heq | hq
    · cases heq
      cases ht with
      | minus hm => exact ⟨0, rfl, (Bool.and_eq_true_iff.1 hm).2⟩
    · obtain ⟨i, hi⟩ := ih hq
      exact ⟨_, leadingDash_append ht hi⟩

theorem Joins.eq_of_forall_ne (h : Joins b ts us) (hm : ∀ t ∈ ts, t.token ≠ .minus) : us = ts := by
  induction h with
  | nil => rfl
  | dash => exact absurd rfl (hm _ List.mem_cons_self)
  | same _ _ ih => rw [ih fun t ht => hm t (List.mem_cons_of_mem _ ht)]

theorem Agree.eq {x y : Except ParseError (List Placed)} (h : Agree b x y)
    (hm : ∀ ts, x = .ok ts → ∀ t ∈ ts, t.token ≠ .minus) : y = x := by
  cases h with
  | error e => rfl
  | ok h => rw [h.eq_of_forall_ne (hm _ rfl)]

/-- Without dashes in front of leaves the dialects have the same tokens. -/
theorem tokensFrom_relational {cs : List Char} (ht : '~' ∉ cs) (hd : ∀ i, ¬ LeadingDash b cs i) :
    tokensFrom .relational b p cs = tokensFrom .document b p cs := by
  refine (agree_tokensFrom b p cs ht fun i hi => absurd hi (hd i)).eq ?_
  rintro ts hts ⟨t, q⟩ hq rfl
  obtain ⟨b', hcut⟩ := tokensFrom_eq_ok_iff.1 hts
  obtain ⟨i, hi⟩ := leadingDash_of_minus hcut hq
  rw [List.append_nil] at hi
  exact hd i hi

end Lexer

/-! ## Formulas -/

namespace Leaf

/-- The leaf with its sign spelled in its first value. -/
def respell : Leaf → Leaf
  | bare v true => bare (.string ("-" ++ v.text)) false
  | keyed f op v true => keyed ("-" ++ f) op v false
  | bare v false => bare v false
  | keyed f op v false => keyed f op v false

end Leaf

/-- The query with the sign of each leaf spelled in its first value. -/
def Query.respell (q : Query) : Query := q.map Leaf.respell

theorem respell_all (qs : List Query) : Query.respell (.all qs) = .all (qs.map Query.respell) := by
  rw [Query.respell, Formula.map, Formula.mapList_eq_map]
  rfl

theorem respell_any (qs : List Query) : Query.respell (.any qs) = .any (qs.map Query.respell) := by
  rw [Query.respell, Formula.map, Formula.mapList_eq_map]
  rfl

theorem conjoin_map_respell : ∀ qs : List Query, conjoin (qs.map Query.respell) = (conjoin qs).respell
  | [] | [_] => rfl
  | q :: q' :: qs => (respell_all (q :: q' :: qs)).symm

theorem disjoin_map_respell : ∀ qs : List Query, disjoin (qs.map Query.respell) = (disjoin qs).respell
  | [] | [_] => rfl
  | q :: q' :: qs => (respell_any (q :: q' :: qs)).symm

/-! ## States -/

namespace Grammar

/-- The phase with the sign of the current leaf spelled in its first value. -/
def Phase.respell : Phase → Phase
  | .first true v => .first false (.string ("-" ++ v.text))
  | .keyed true f op => .keyed false ("-" ++ f) op
  | ph => ph

def Level.respell (l : Level) : Level := ⟨l.disjuncts.map Query.respell, l.conjuncts.map Query.respell⟩

def State.respell (s : State) : State :=
  ⟨s.phase.respell, s.level.respell, s.enclosing.map fun x => (x.1, x.2.respell)⟩

theorem endDisjunct_respell (l : Level) : l.respell.endDisjunct = l.endDisjunct.respell := by
  simp only [Level.endDisjunct, Level.respell, List.map_cons, ← List.map_reverse, conjoin_map_respell, List.map_nil]

theorem formula_respell (l : Level) : l.respell.formula = l.formula.respell := by
  rw [Level.formula, Level.formula, endDisjunct_respell, ← disjoin_map_respell, List.map_reverse]
  rfl

theorem closedLevel_respell (s : State) : s.respell.closedLevel = s.closedLevel.respell := by
  obtain ⟨ph, l, e⟩ := s
  cases ph with
  | first negated v | keyed negated f op => cases negated <;> rfl
  | start | negated | complete => rfl

theorem afterAtom_respell (s : State) (t : Placed) :
    s.respell.afterAtom t = (s.afterAtom t).map State.respell := by
  have hl := closedLevel_respell s
  obtain ⟨ph, l, e⟩ := s
  obtain ⟨tok, p⟩ := t
  cases tok with
  | space =>
    simp only [State.afterAtom, hl]
    rfl
  | or =>
    simp only [State.afterAtom, hl, endDisjunct_respell]
    rfl
  | closeGroup =>
    cases e with
    | nil => rfl
    | cons x e =>
      simp only [State.afterAtom, hl, formula_respell]
      rfl
  | value | op | minus | openGroup => cases e <;> rfl

/-- A token other than a dash does the same to a state and to the respelled one, unless it follows a dash. -/
theorem step_respell {s : State} {t : Placed} (hs : s.phase ≠ .negated) (ht : t.token ≠ .minus) :
    s.respell.step t = (s.step t).map State.respell := by
  have hafter := afterAtom_respell s t
  obtain ⟨ph, l, e⟩ := s
  obtain ⟨tok, p⟩ := t
  cases ph with
  | start =>
    cases tok with
    | openGroup =>
      simp only [State.step, State.respell, Phase.respell, List.length_map]
      split <;> rfl
    | minus => exact absurd rfl ht
    | _ => rfl
  | negated => exact absurd rfl hs
  | first negated v =>
    cases tok with
    | op o => cases negated <;> rfl
    | _ => cases negated <;> exact hafter
  | keyed negated f o => cases tok <;> cases negated <;> rfl
  | complete => exact hafter

theorem finish_respell {s : State} : s.respell.finish = s.finish.map Query.respell := by
  have hl := closedLevel_respell s
  obtain ⟨ph, l, e⟩ := s
  cases ph with
  | first negated v =>
    cases e with
    | nil => cases negated <;> exact congrArg Except.ok ((congrArg Level.formula hl).trans (formula_respell _))
    | cons x e => cases negated <;> rfl
  | keyed negated f op => cases negated <;> rfl
  | start | negated => rfl
  | complete =>
    cases e with
    | nil => exact congrArg Except.ok (formula_respell l)
    | cons x e => rfl

/-! ## Runs -/

variable {b : Bool} {ts us : List Placed}

theorem phase_ne_negated {s s' : State} {t : Placed} (h : Moves s t s') (ht : t.token ≠ .minus) :
    s'.phase ≠ .negated := by
  cases h with
  | minus => exact absurd rfl ht
  | _ => simp

/-- The machine goes through respelled states along joined tokens, and fails where it fails without. -/
theorem run_respell {s : State} (h : Lexer.Joins b ts us) (hb : b = true ↔ s.phase = .start)
    (hs : s.phase ≠ .negated) : s.respell.run us = (s.run ts).map State.respell := by
  induction h generalizing s with
  | nil => rfl
  | @dash p q v ts us _ ih =>
    -- the state behind both tokens, respelled, is the one behind the joined token
    obtain ⟨ph, l, e⟩ := s
    obtain rfl : ph = .start := hb.1 rfl
    exact ih (s := ⟨.first true v, l, e⟩) (by simp) (by simp)
  | @same b t ts us ht _ ih =>
    rw [State.run, State.run, step_respell hs ht]
    cases hstep : s.step t with
    | error e => rfl
    | ok s₁ =>
      have hm := step_eq_ok_iff.1 hstep
      exact ih (phase_of_moves hm) (phase_ne_negated hm ht)

theorem parseTokens_respell (h : Lexer.Joins true ts us) : parseTokens us = (parseTokens ts).map Query.respell := by
  have hrun : State.initial.run us = (State.initial.run ts).map State.respell :=
    run_respell h (s := .initial) (by simp [State.initial]) (by simp [State.initial])
  cases h with
  | nil => rfl
  | dash | same =>
    simp only [parseTokens, hrun]
    cases State.initial.run _ with
    | error e => rfl
    | ok s => exact finish_respell

end Grammar

/-! ## Queries -/

/-- The dialects differ only in tildes and in dashes in front of leaves. A text without tildes, in which a value follows
each such dash without quotes, is refused by both dialects with the same error, or is a query of both: the same one but
for the negated leaves, which are not negated in the relational dialect and have the dash in front of their field or,
if they are bare, in front of their value. If there is no such dash, the dialects agree altogether. -/
theorem parse_relational (s : String) (ht : '~' ∉ s.toList) :
    (DashesBind true s.toList → parse .relational s = (parse .document s).map Query.respell) ∧
    ((∀ i, ¬ LeadingDash true s.toList i) → parse .relational s = parse .document s) := by
  constructor
  · intro hd
    have hagree := Lexer.agree_tokensFrom true 0 s.toList ht hd
    rw [parse, parse, Lexer.tokens, Lexer.tokens]
    generalize Lexer.tokensFrom .document true 0 s.toList = x at hagree ⊢
    generalize Lexer.tokensFrom .relational true 0 s.toList = y at hagree ⊢
    cases hagree with
    | error e => rfl
    | ok h => exact Grammar.parseTokens_respell h
  · intro hd
    rw [parse, parse, Lexer.tokens, Lexer.tokens, Lexer.tokensFrom_relational ht hd]

/-- Dashes in front of a null and of a field, then dashes inside a value and behind an operator only. -/
theorem parse_relational_dashes :
    DashesBind true "-NULL OR (-f>-1 b-c)".toList ∧
      parse .document "-NULL OR (-f>-1 b-c)" = .ok (.any [.atom (.bare .null true),
        .all [.atom (.keyed "f" .gt (.string "-1") true), .atom (.bare (.string "b-c") false)]]) ∧
      parse .relational "-NULL OR (-f>-1 b-c)" = .ok (.any [.atom (.bare (.string "-NULL") false),
        .all [.atom (.keyed "-f" .gt (.string "-1") false), .atom (.bare (.string "b-c") false)]]) ∧
      parse .relational "a-b:-1 (c" = parse .document "a-b:-1 (c" := by
  have hd : DashesBind true "-NULL OR (-f>-1 b-c)".toList := by decide +kernel
  have hdoc : parse .document "-NULL OR (-f>-1 b-c)" = .ok (.any [.atom (.bare .null true),
      .all [.atom (.keyed "f" .gt (.string "-1") true), .atom (.bare (.string "b-c") false)]]) := by decide +kernel
  have hrel := (parse_relational "-NULL OR (-f>-1 b-c)" (by decide)).1 hd
  rw [hdoc] at hrel
  have hno : ∀ i < "a-b:-1 (c".toList.length, ¬ LeadingDash true "a-b:-1 (c".toList i := by decide +kernel
  exact ⟨hd, hdoc, hrel, (parse_relational _ (by decide)).2 fun i hi => hno i (lt_of_leadingDash hi) hi⟩

end CompactSearch

/-
When a search restricts nothing. A text that is missing, empty or no query matches every row, and so does a query whose
leftmost leaf without a condition has a field that is no column; where that leaf is a bare value, the search fails. Every
other text gets the condition that its query compiles to, and no query compiles to the condition that every row meets
(`search_outcome`).
-/
import CompactSearch.Proofs.Query.Image
import CompactSearch.Proofs.Sql.Meaning

namespace CompactSearch.Sql

variable {s : Settings} {batch : String}

/-! ## Leaves without a condition -/

/-- The settings have no condition for the leaf: its field is no column, or no field is named for a bare value. -/
def Settings.Refuses (s : Settings) : Leaf → Prop
  | .keyed field _ _ _ => ¬ IsDotted field.toList
  | .bare _ _ => s.policy.bareFields? = none

/-- The leaf is the leftmost one of the query that the settings refuse. -/
def Settings.RefusesFirst (s : Settings) (q : Query) (l : Leaf) : Prop :=
  ∃ pre post, q.atoms = pre ++ l :: post ∧ s.Refuses l ∧ ∀ k ∈ pre, ¬ s.Refuses k

/-- What is reported of a leaf that is refused. -/
def refusal : Leaf → SearchError
  | .keyed field _ _ _ => .invalidField field
  | .bare v _ => .unanswerable ⟨v.text⟩

theorem leafFilter_ok_iff {l : Leaf} : (∃ p, s.leafFilter l = .ok p) ↔ ¬ s.Refuses l := by
  cases l with
  | keyed field op v negated =>
    simp only [Settings.leafFilter_keyed_ok, Settings.Refuses, ← isColumn_iff]
    simp
  | bare v negated =>
    simp only [Settings.leafFilter_bare_ok, Settings.Refuses]
    cases s.policy.bareFields? <;> simp

theorem leafFilter_error_iff {l : Leaf} {e : SearchError} :
    s.leafFilter l = .error e ↔ s.Refuses l ∧ e = refusal l := by
  cases l with
  | keyed field op v negated =>
    rw [Settings.leafFilter, Settings.Refuses, ← isColumn_iff, refusal]
    by_cases h : isColumn field = true
    · simp [h]
    · simp [h, eq_comm]
  | bare v negated =>
    rw [Settings.leafFilter, Settings.Refuses, refusal]
    cases s.policy.bareFields? with
    | none => simp [eq_comm]
    | some fields => simp

/-- A query fails to compile at the leftmost leaf that is refused. -/
theorem compile_error_iff {q : Query} {e : SearchError} :
    compile s batch q = .error e ↔ ∃ l, s.RefusesFirst q l ∧ e = refusal l := by
  rw [← Formula.error?_eq_some_iff, compile, Formula.error?_map, Formula.error?_eq_some_iff, Settings.filter,
    Formula.expand_eq_error_iff]
  simp only [leafFilter_ok_iff, leafFilter_error_iff]
  constructor
  · rintro ⟨pre, l, post, ha, ⟨hl, he⟩, hpre⟩
    exact ⟨l, ⟨pre, post, ha, hl, hpre⟩, he⟩
  · rintro ⟨l, ⟨pre, post, ha, hl, hpre⟩, he⟩
    exact ⟨pre, l, post, ha, ⟨hl, he⟩, hpre⟩

/-! ## The condition that every row meets -/

theorem filter_ne_true {q : Query} {f : Filter} (hq : q ≠ .all []) (h : s.filter q = .ok f) : f ≠ .all [] := by
  rintro rfl
  match q with
  | .atom (.keyed field op v negated) =>
    have hl : s.leafFilter (.keyed field op v negated) = .ok (.all []) := h
    cases (Settings.leafFilter_keyed_ok.1 hl).2
  | .atom (.bare v negated) =>
    have hl : s.leafFilter (.bare v negated) = .ok (.all []) := h
    obtain ⟨fields, -, hp⟩ := Settings.leafFilter_bare_ok.1 hl
    cases hp
  | .all [] => exact hq rfl
  | .all (p :: ps) =>
    obtain ⟨gs, hg, he⟩ := Formula.map_ok h
    obtain ⟨g, gs', -, -, rfl⟩ := Formula.expandList_cons_ok.1 hg
    cases he
  | .any ps =>
    obtain ⟨gs, -, he⟩ := Formula.map_ok h
    cases he

/-- Only the empty conjunction is written `TRUE`: a test has a space in it, and other connectives have parentheses or
are `FALSE`. -/
theorem chars_ne_true {f : Filter} (h : f ≠ .all []) : (labelled batch 0 f.tests).chars ≠ "TRUE".toList := by
  intro he
  match f with
  | .atom c =>
    have hspace : ∀ t : ColumnTest String, ' ' ∈ t.text.toList := by
      intro t
      cases t <;> simp [ColumnTest.text]
    have hmem : ' ' ∈ "TRUE".toList := he ▸ hspace _
    exact absurd hmem (by decide)
  | .all [] => exact h rfl
  | .all (g :: gs) => cases he
  | .any [] => cases he
  | .any (g :: gs) => cases he

theorem isTautology_compile {q : Query} {c : Condition} (hq : q ≠ .all []) (h : compile s batch q = .ok c) :
    c.isTautology = false := by
  obtain ⟨f, hf, ht, -⟩ := compile_ok h
  have hne : c.text ≠ "TRUE" := by
    intro he
    rw [he] at ht
    exact chars_ne_true (filter_ne_true hq hf) ht.symm
  rw [Condition.isTautology, beq_eq_false_iff_ne.2 hne, Bool.false_and]

theorem ne_all_nil_of_parse {d : Dialect} {t : String} {q : Query} (h : parse d t = .ok q) : q ≠ .all [] := by
  rintro rfl
  exact absurd (Grammar.spellable_of_parse h).branching (by decide)

/-! ## Outcomes -/

/-- The texts that restrict nothing. -/
inductive Unrestricted (s : Settings) : Option String → Prop
  | missing : Unrestricted s none
  | empty : Unrestricted s (some "")
  | malformed {t : String} {e : ParseError} (h : parse .relational t = .error e) : Unrestricted s (some t)
  | invalidField {t field : String} {q : Query} {op : Operator} {v : Value} {negated : Bool}
    (h : parse .relational t = .ok q) (hl : s.RefusesFirst q (.keyed field op v negated)) : Unrestricted s (some t)

/-- The texts that need a field for a bare value, where the policy names none. -/
inductive Unanswerable (s : Settings) : Option String → (token : String) → Prop
  | bare {t : String} {q : Query} {v : Value} {negated : Bool}
    (h : parse .relational t = .ok q) (hl : s.RefusesFirst q (.bare v negated)) : Unanswerable s (some t) v.text

/-- The texts of queries without a leaf that is refused. -/
inductive Compilable (s : Settings) : Option String → Query → Prop
  | query {t : String} {q : Query} (h : parse .relational t = .ok q) (hl : ∀ l ∈ q.atoms, ¬ s.Refuses l) :
    Compilable s (some t) q

theorem parse_empty (d : Dialect) : parse d "" = .error .empty := by
  rw [parse, Lexer.tokens, String.toList_empty, Lexer.tokensFrom]
  rfl

theorem isEmpty_of_parse {d : Dialect} {t : String} {q : Query} (h : parse d t = .ok q) : t.isEmpty = false := by
  rw [Bool.eq_false_iff]
  intro he
  rw [String.isEmpty_iff.1 he, parse_empty] at h
  cases h

theorem search_unrestricted {text : Option String} (h : Unrestricted s text) :
    search s batch text = .ok .tautology := by
  cases h with
  | missing => rfl
  | empty => rfl
  | @malformed t e h =>
    rw [search]
    split
    · rfl
    · rw [h]
  | @invalidField t field q op v negated h hl =>
    have hc : compile s batch q = .error (.invalidField field) := compile_error_iff.2 ⟨_, hl, rfl⟩
    simp only [search, isEmpty_of_parse h, h, hc, Bool.false_eq_true, if_false]

theorem search_unanswerable {text : Option String} {token : String} (h : Unanswerable s text token) :
    search s batch text = .error ⟨token⟩ := by
  cases h with
  | @bare t q v negated h hl =>
    have hc : compile s batch q = .error (.unanswerable ⟨v.text⟩) := compile_error_iff.2 ⟨_, hl, rfl⟩
    simp only [search, isEmpty_of_parse h, h, hc, Bool.false_eq_true, if_false]

theorem search_compilable {text : Option String} {q : Query} (h : Compilable s text q) :
    ∃ c, compile s batch q = .ok c ∧ search s batch text = .ok c ∧ c.isTautology = false := by
  cases h with
  | @query t q h hl =>
    cases hc : compile s batch q with
    | error e =>
      obtain ⟨l, ⟨pre, post, ha, hr, -⟩, -⟩ := compile_error_iff.1 hc
      exact absurd hr (hl l (by simp [ha]))
    | ok c =>
      have hs : search s batch (some t) = .ok c := by
        simp only [search, isEmpty_of_parse h, h, hc, Bool.false_eq_true, if_false]
      exact ⟨c, rfl, hs, isTautology_compile (ne_all_nil_of_parse h) hc⟩

theorem compilable_of_compile {t : String} {q : Query} {c : Condition} (h : parse .relational t = .ok q)
    (hc : compile s batch q = .ok c) : Compilable s (some t) q := by
  obtain ⟨f, hf, -⟩ := compile_ok hc
  exact .query h fun l hl => leafFilter_ok_iff.1 (Formula.expand_ok_iff.1 ⟨f, hf⟩ l hl)

/-- Every text is of one of the three kinds. -/
theorem unrestricted_or_unanswerable_or_compilable (s : Settings) (text : Option String) :
    Unrestricted s text ∨ (∃ token, Unanswerable s text token) ∨ ∃ q, Compilable s text q := by
  match text with
  | none => exact .inl .missing
  | some t =>
    cases h : parse .relational t with
    | error e => exact .inl (.malformed h)
    | ok q =>
      -- no name of a batch matters here
      cases hc : compile s "" q with
      | ok c => exact .inr (.inr ⟨q, compilable_of_compile h hc⟩)
      | error e =>
        obtain ⟨l, hl, -⟩ := compile_error_iff.1 hc
        cases l with
        | keyed field op v negated => exact .inl (.invalidField h hl)
        | bare v negated => exact .inr (.inl ⟨v.text, .bare h hl⟩)

/-- A search restricts nothing exactly where the text is missing, empty or no query, or where the leftmost leaf that is
refused has a field that is no column; it fails exactly where that leaf is a bare value, with this value. In every other
case the text is a query, the answer is the condition that the query compiles to, and it is not the one that every row
meets. -/
theorem search_outcome (s : Settings) (batch : String) (text : Option String) :
    (search s batch text = .ok .tautology ↔ Unrestricted s text) ∧
    (∀ token, search s batch text = .error ⟨token⟩ ↔ Unanswerable s text token) ∧
    (¬ Unrestricted s text → (∀ token, ¬ Unanswerable s text token) →
      ∃ t q c, text = some t ∧ parse .relational t = .ok q ∧ compile s batch q = .ok c ∧
        search s batch text = .ok c ∧ c.isTautology = false) := by
  rcases unrestricted_or_unanswerable_or_compilable s text with h | ⟨token, h⟩ | ⟨q, h⟩
  · have hs := @search_unrestricted s batch _ h
    refine ⟨iff_of_true hs h, fun token => ⟨fun he => ?_, search_unanswerable⟩, fun hn => absurd h hn⟩
    rw [hs] at he
    cases he
  · have hs := @search_unanswerable s batch _ _ h
    refine ⟨⟨fun he => ?_, search_unrestricted⟩, fun token' => ⟨fun he => ?_, search_unanswerable⟩,
      fun _ hn => absurd h (hn token)⟩
    · rw [hs] at he
      cases he
    · rw [hs] at he
      cases he
      exact h
  · obtain ⟨c, hc, hs, ht⟩ := @search_compilable s batch _ _ h
    refine ⟨⟨fun he => ?_, search_unrestricted⟩, fun token => ⟨fun he => ?_, search_unanswerable⟩, fun _ _ => ?_⟩
    · rw [hs] at he
      cases he
      cases ht
    · rw [hs] at he
      cases he
    · cases h with
      | query h hl => exact ⟨_, q, c, rfl, h, hc, hs, ht⟩

/-- A policy without lists, under which only keyed leaves have a condition. -/
def keyedOnly : Settings := { policy := .empty, dateOverride := .always, now := ⟨0, 0⟩ }

/-- Of a field that is no column and a bare value, the one that comes first decides. -/
theorem search_outcome_keyed_only :
    search keyedOnly "b" (some "9:a x") = .ok .tautology ∧ search keyedOnly "b" (some "x 9:a") = .error ⟨"x"⟩ ∧
      ¬ Unrestricted keyedOnly (some "k:a") ∧ (∀ token, ¬ Unanswerable keyedOnly (some "k:a") token) ∧
      ∃ c, search keyedOnly "b" (some "k:a") = .ok c ∧ c.isTautology = false := by
  let nine : Leaf := .keyed "9" .default (.string "a") false
  let x : Leaf := .bare (.string "x") false
  have hnine : keyedOnly.RefusesFirst (.all [.atom nine, .atom x]) nine :=
    ⟨[], [x], rfl, fun h => absurd (isColumn_iff.2 h) (by decide), by simp⟩
  have hx : keyedOnly.RefusesFirst (.all [.atom x, .atom nine]) x := ⟨[], [nine], rfl, rfl, by simp⟩
  have hfirst : parse .relational "9:a x" = .ok (.all [.atom nine, .atom x]) := by decide +kernel
  have hsecond : parse .relational "x 9:a" = .ok (.all [.atom x, .atom nine]) := by decide +kernel
  have honly : parse .relational "k:a" = .ok (.atom (.keyed "k" .default (.string "a") false)) := by decide +kernel
  have hleaf : ∀ l ∈ [Leaf.keyed "k" .default (.string "a") false], ¬ keyedOnly.Refuses l :=
    List.forall_mem_singleton.2 fun h => h (isColumn_iff.1 (by decide))
  obtain ⟨c, -, hs, ht⟩ := @search_compilable keyedOnly "b" _ _ (.query honly hleaf)
  have hrestricted : ¬ Unrestricted keyedOnly (some "k:a") := by
    intro h
    rw [search_unrestricted h] at hs
    cases hs
    cases ht
  have hanswered : ∀ token, ¬ Unanswerable keyedOnly (some "k:a") token := by
    intro token h
    rw [search_unanswerable h] at hs
    cases hs
  obtain ⟨_, _, c, _, _, _, hs, ht⟩ := (search_outcome keyedOnly "b" (some "k:a")).2.2 hrestricted hanswered
  exact ⟨(search_outcome keyedOnly "b" _).1.2 (.invalidField hfirst hnine),
    ((search_outcome keyedOnly "b" _).2.1 "x").2 (.bare hsecond hx), hrestricted, hanswered, c, hs, ht⟩

end CompactSearch.Sql

/-
Values stay out of the text of a compiled condition. Two queries that differ in their values only have conditions of
one text with the same placeholders, or fail at the same leaf for the same reason; and the characters of a text come
from the words of the conditions, from numbered placeholders, from the bare fields of the policy, and from typed fields,
each of which is a column as a whole (`compile_noninterference`).
-/
import CompactSearch.Proofs.Sql.Meaning

namespace CompactSearch.Sql

/-! ## Queries that differ in values -/

namespace Settings

/-- Whether a value is a relative date. -/
def isRelativeDate (s : Settings) : Value → Bool
  | .string text => (RelativeDate.resolve? text s.now).isSome
  | _ => false

/-- Leaves of one kind with the same field and operator. The values are free, but null goes with null and, on a field
that holds dates, a relative date goes with a relative date. -/
def LeafAlike (s : Settings) : Leaf → Leaf → Prop
  | .keyed field op v _, .keyed field' op' w _ =>
    field = field' ∧ op = op' ∧ v.isNull = w.isNull ∧
      (s.policy.isDateField field = true → s.isRelativeDate v = s.isRelativeDate w)
  | .bare v _, .bare w _ => v.isNull = w.isNull
  | _, _ => False

end Settings

/-- The errors have one kind, and name the same field if they name one. -/
def SameKind : SearchError → SearchError → Prop
  | .invalidField field, .invalidField field' => field = field'
  | .unanswerable _, .unanswerable _ => True
  | _, _ => False

/-- The query fails with an error at the leaf with a number, and all leaves before it can be compiled. -/
def FailsAt (s : Settings) (batch : String) (q : Query) (n : Nat) (e : SearchError) : Prop :=
  compile s batch q = .error e ∧
    ∃ pre l post, q.atoms = pre ++ l :: post ∧ pre.length = n ∧ s.leafFilter l = .error e ∧
      ∀ k ∈ pre, ∃ p, s.leafFilter k = .ok p

/-- The queries have conditions with the same text and the same names bound, or fail at one place for one reason. -/
def SameOutcome (s : Settings) (batch : String) (q₁ q₂ : Query) : Prop :=
  (∃ c₁ c₂, compile s batch q₁ = .ok c₁ ∧ compile s batch q₂ = .ok c₂ ∧ c₁.text = c₂.text ∧
    ∀ id, id ∈ c₁.params.map (·.1) ↔ id ∈ c₂.params.map (·.1)) ∨
  ∃ n e₁ e₂, FailsAt s batch q₁ n e₁ ∧ FailsAt s batch q₂ n e₂ ∧ SameKind e₁ e₂

/-! ## One leaf -/

/-- A test without what it compares with. -/
def ColumnTest.blank {ι : Type} (t : ColumnTest ι) : ColumnTest Unit := t.map fun _ => ()

namespace Settings

theorem isSome_relativeDate (s : Settings) (field : String) (v : Value) :
    (s.relativeDate? field v).isSome = (s.policy.isDateField field && s.isRelativeDate v) := by
  cases v with
  | string text => cases h : s.policy.isDateField field <;> simp [relativeDate?, isRelativeDate, h]
  | number => simp [relativeDate?, isRelativeDate]
  | null => simp [relativeDate?, isRelativeDate]

/-- What a keyed leaf asks, value apart, depends on two questions about the value only. -/
theorem blank_keyedTest (s : Settings) (field : String) (op : Operator) (v : Value) :
    (s.keyedTest field op v).blank =
      if v.isNull then .isNull field
      else if (s.relativeDate? field v).isSome then
        .compare field (if s.dateOverride = .always ∨ op = .default then "<=" else op.text) ()
      else if op = .default then
        if s.policy.isStringField field then .like field () else .compare field "=" ()
      else .compare field op.text () := by
  unfold keyedTest
  by_cases hv : v = .null
  · rw [if_pos hv, if_pos (Value.isNull_iff.2 hv)]
    rfl
  rw [if_neg hv, if_neg fun h => hv (Value.isNull_iff.1 h)]
  cases s.relativeDate? field v with
  | some t => rfl
  | none =>
    show (if _ then _ else _ : ColumnTest Bound).blank = if _ then _ else _
    split
    · split <;> rfl
    · rfl

theorem blank_bareTest (s : Settings) (field : String) (v : Value) :
    (s.bareTest field v).blank =
      if v.isNull then .isNull field
      else if s.policy.isStringField field then .like field () else .compare field "=" () := by
  unfold bareTest
  by_cases hv : v = .null
  · rw [if_pos hv, if_pos (Value.isNull_iff.2 hv)]
    rfl
  rw [if_neg hv, if_neg fun h => hv (Value.isNull_iff.1 h)]
  split <;> rfl

/-- Alike leaves have formulas that differ in values only, or fail in the same way. -/
theorem leafFilter_alike {s : Settings} {k l : Leaf} (h : s.LeafAlike k l) :
    (∃ p r, s.leafFilter k = .ok p ∧ s.leafFilter l = .ok r ∧
      p.tests.map ColumnTest.blank = r.tests.map ColumnTest.blank) ∨
    ∃ e e', s.leafFilter k = .error e ∧ s.leafFilter l = .error e' ∧ SameKind e e' := by
  match k, l with
  | .keyed field op v negated, .keyed field' op' w negated' =>
    obtain ⟨rfl, rfl, hn, hd⟩ := h
    rw [leafFilter, leafFilter]
    by_cases hf : isColumn field = true
    · rw [if_pos hf, if_pos hf]
      refine .inl ⟨_, _, rfl, rfl, congrArg Formula.atom ?_⟩
      -- the date question is asked of fields that hold dates only, where the two values agree on it
      have hr : (s.relativeDate? field v).isSome = (s.relativeDate? field w).isSome := by
        rw [isSome_relativeDate, isSome_relativeDate]
        cases hp : s.policy.isDateField field with
        | true => rw [hd hp]
        | false => rfl
      rw [form_keyedClause, form_keyedClause, blank_keyedTest, blank_keyedTest, hn, hr]
    · rw [if_neg hf, if_neg hf]
      exact .inr ⟨_, _, rfl, rfl, rfl⟩
  | .bare v negated, .bare w negated' =>
    have hn : v.isNull = w.isNull := h
    rw [leafFilter, leafFilter]
    cases s.policy.bareFields? with
    | none => exact .inr ⟨_, _, rfl, rfl, trivial⟩
    | some fields =>
      refine .inl ⟨_, _, rfl, rfl, congrArg Formula.any ?_⟩
      simp only [Formula.mapList_eq_map, List.map_map]
      refine List.map_congr_left fun field _ => congrArg Formula.atom ?_
      rw [form_bareClause, form_bareClause, blank_bareTest, blank_bareTest, hn]

end Settings

/-! ## Two runs -/

theorem labelled_blank {batch : String} (n : Nat) (f : Formula (ColumnTest Bound)) :
    labelled batch n (f.map ColumnTest.blank) = labelled batch n f :=
  labelled_map (fun _ => ()) n f

theorem length_values_blank (f : Formula (ColumnTest Bound)) :
    (values (f.map ColumnTest.blank)).length = (values f).length := by
  have h : values (f.map ColumnTest.blank) = (values f).map fun _ => () := values_map _ f
  rw [h, List.length_map]

/-- Conditions of filters that differ in values only have one text and bind the same names. -/
theorem compile_eq_of_blank {s : Settings} {batch : String} {q₁ q₂ : Query} {f₁ f₂ : Filter}
    (h₁ : s.filter q₁ = .ok f₁) (h₂ : s.filter q₂ = .ok f₂)
    (h : f₁.tests.map ColumnTest.blank = f₂.tests.map ColumnTest.blank) :
    ∃ c₁ c₂, compile s batch q₁ = .ok c₁ ∧ compile s batch q₂ = .ok c₂ ∧ c₁.text = c₂.text ∧
      ∀ id, id ∈ c₁.params.map (·.1) ↔ id ∈ c₂.params.map (·.1) := by
  have hl : labelled batch 0 f₁.tests = labelled batch 0 f₂.tests := by
    rw [← labelled_blank, h, labelled_blank]
  have hv : (values f₁.tests).length = (values f₂.tests).length := by
    rw [← length_values_blank, h, length_values_blank]
  refine ⟨_, _, by rw [compile, h₁]; rfl, by rw [compile, h₂]; rfl, ?_, fun id => ?_⟩
  · rw [← String.toList_inj, write_text, write_text, hl]
  · rw [((write_params 0 f₁).map (·.1)).mem_iff, ((write_params 0 f₂).map (·.1)).mem_iff, Bindings.keys_numbered,
      Bindings.keys_numbered, hv]

/-- A query that fails, fails at its leftmost leaf that has no formula. -/
theorem failsAt_of_error {s : Settings} {batch : String} {q : Query} {pre post : List Leaf} {l : Leaf} {e : SearchError}
    (hq : q.atoms = pre ++ l :: post) (hl : s.leafFilter l = .error e) (hpre : ∀ k ∈ pre, ∃ p, s.leafFilter k = .ok p) :
    FailsAt s batch q pre.length e := by
  have he : s.filter q = .error e := Formula.expand_eq_error_iff.2 ⟨pre, l, post, hq, hl, hpre⟩
  exact ⟨by rw [compile, he]; rfl, pre, l, post, hq, rfl, hl, hpre⟩

theorem ok_of_alike {s : Settings} {ks ls : List Leaf} (h : List.Forall₂ s.LeafAlike ks ls)
    (hk : ∀ k ∈ ks, ∃ p, s.leafFilter k = .ok p) : ∀ l ∈ ls, ∃ p, s.leafFilter l = .ok p := by
  induction h with
  | nil => exact fun _ hl => absurd hl List.not_mem_nil
  | cons hkl _ ih =>
    rw [List.forall_mem_cons] at hk ⊢
    refine ⟨?_, ih hk.2⟩
    obtain ⟨p, hp⟩ := hk.1
    rcases Settings.leafFilter_alike hkl with ⟨_, r, -, hr, -⟩ | ⟨e, _, he, -, -⟩
    · exact ⟨r, hr⟩
    · rw [hp] at he
      cases he

theorem sameOutcome_of_alike {s : Settings} {batch : String} {q₁ q₂ : Query} (h : q₁.Alike s.LeafAlike q₂) :
    SameOutcome s batch q₁ q₂ := by
  have ha := Formula.forall₂_atoms h
  cases h₁ : s.filter q₁ with
  | ok f₁ =>
    have hok := Formula.expand_ok_iff.1 ⟨f₁, h₁⟩
    obtain ⟨f₂, h₂⟩ : ∃ f₂, s.filter q₂ = .ok f₂ :=
      Formula.expand_ok_iff.2 (ok_of_alike ha hok)
    refine .inl (compile_eq_of_blank h₁ h₂ ?_)
    rw [Formula.map_map, Formula.map_map]
    refine Formula.map_expand_alike (fun k l p r hkl hp hr => ?_) h h₁ h₂
    rw [← Formula.map_map, ← Formula.map_map]
    rcases Settings.leafFilter_alike hkl with ⟨p', r', hp', hr', e⟩ | ⟨_, _, hp', -⟩
    · rw [hp] at hp'
      rw [hr] at hr'
      cases hp'
      cases hr'
      exact e
    · rw [hp] at hp'
      cases hp'
  | error e =>
    obtain ⟨pre, l, post, hq, hl, hpre⟩ := Formula.expand_eq_error_iff.1 h₁
    rw [hq] at ha
    -- the leaf across from the one that fails has to fail, and it is the first one to do so
    obtain ⟨pre', l', post', hq', hp', hl'⟩ := Formula.forall₂_middle ha
    rcases Settings.leafFilter_alike hl' with ⟨p, _, hp, -⟩ | ⟨e₁, e₂, he₁, he₂, hk⟩
    · rw [hl] at hp
      cases hp
    · refine .inr ⟨pre.length, e₁, e₂, failsAt_of_error hq he₁ hpre, ?_, hk⟩
      rw [hp'.length_eq]
      exact failsAt_of_error hq' he₂ (ok_of_alike hp' hpre)

/-! ## Where the text comes from -/

/-- A piece of a text, by where it comes from. -/
inductive Piece where
  /-- A word of the language of conditions. -/
  | word (w : String)
  /-- The name of a placeholder. -/
  | placeholder (n : Nat)
  /-- A field that the policy names. -/
  | bareField (field : String)
  /-- A field that was typed. -/
  | keyedField (field : String)

namespace Piece

def text (batch : String) : Piece → String
  | word w => w
  | placeholder n => Placeholders.name batch n
  | bareField field => field
  | keyedField field => field

/-- The words that conditions are written with. -/
def words : List String :=
  ["(", ")", " AND ", " OR ", "TRUE", "FALSE", " IS NULL", " LIKE @", " ESCAPE '\\'", " = @", " >= @", " > @", " <= @",
    " < @"]

/-- The piece can be in the condition of the query. A typed field has to be a column as a whole, and has none of the
characters that could end one. -/
def Allowed (s : Settings) (q : Query) : Piece → Prop
  | word w => w ∈ words
  | placeholder _ => True
  | bareField field => ∃ fields, s.policy.bareFields? = some fields ∧ field ∈ fields
  | keyedField field =>
    (∃ op v negated, .keyed field op v negated ∈ q.atoms) ∧ IsDotted field.toList ∧
      ∀ c ∈ " \n'\"()@;".toList, c ∉ field.toList

end Piece

/-- The characters are put together from pieces that can be in the condition of the query. -/
def MadeOf (s : Settings) (batch : String) (q : Query) (cs : List Char) : Prop :=
  ∃ pieces : List Piece, (∀ p ∈ pieces, p.Allowed s q) ∧ cs = pieces.flatMap fun p => (p.text batch).toList

namespace MadeOf

variable {s : Settings} {batch : String} {q : Query}

theorem append {cs ds : List Char} (h : MadeOf s batch q cs) (h' : MadeOf s batch q ds) :
    MadeOf s batch q (cs ++ ds) := by
  obtain ⟨ps, hp, rfl⟩ := h
  obtain ⟨rs, hr, rfl⟩ := h'
  exact ⟨ps ++ rs, List.forall_mem_append.2 ⟨hp, hr⟩, List.flatMap_append.symm⟩

theorem single {p : Piece} (h : p.Allowed s q) : MadeOf s batch q (p.text batch).toList :=
  ⟨[p], by simpa using h, (List.flatMap_singleton ..).symm⟩

theorem word {w : String} (h : w ∈ Piece.words) : MadeOf s batch q w.toList :=
  single (p := .word w) h

theorem test {t : ColumnTest String} (hf : MadeOf s batch q t.field.toList) (hs : ∀ x ∈ t.symbol?, x ∈ symbols)
    (hv : ∀ id ∈ t.value?, MadeOf s batch q id.toList) : MadeOf s batch q t.text.toList := by
  cases t with
  | like f id =>
    simp only [ColumnTest.text, String.toList_append]
    exact ((hf.append (word (by decide))).append (hv id rfl)).append (word (by decide))
  | compare f x id =>
    have hw : " " ++ x ++ " @" ∈ Piece.words := by
      have hx := hs x rfl
      simp only [symbols, List.mem_cons, List.not_mem_nil, or_false] at hx
      rcases hx with rfl | rfl | rfl | rfl | rfl <;> decide
    have e : (ColumnTest.compare f x id).text.toList = f.toList ++ (" " ++ x ++ " @").toList ++ id.toList := by
      simp [ColumnTest.text, String.toList_append]
    rw [e]
    exact (hf.append (word hw)).append (hv id rfl)
  | isNull f =>
    simp only [ColumnTest.text, String.toList_append]
    exact hf.append (word (by decide))

/-- A part in parentheses, in front of others. -/
theorem group {cs ds : List Char} (h : MadeOf s batch q cs) (h' : MadeOf s batch q ds) :
    MadeOf s batch q ('(' :: (cs ++ ')' :: ds)) :=
  (word (w := "(") (by decide)).append (h.append ((word (w := ")") (by decide)).append h'))

mutual

theorem chars : ∀ {e : Expression}, (∀ t ∈ e.atoms, MadeOf s batch q t.text.toList) → MadeOf s batch q e.chars
  | .atom t, h => h t (List.mem_singleton_self t)
  | .all [], _ | .any [], _ => word (by decide)
  | .all (_ :: _), h | .any (_ :: _), h =>
    group (chars fun t ht => h t (List.mem_append_left _ ht))
      (charsMore (by decide) fun t ht => h t (List.mem_append_right _ ht))

theorem charsMore {w : String} (hw : w ∈ Piece.words) : ∀ {es : List Expression},
    (∀ t ∈ Formula.atomsList es, MadeOf s batch q t.text.toList) → MadeOf s batch q (Expression.charsMore w.toList es)
  | [], _ => ⟨[], by simp, rfl⟩
  | _ :: _, h =>
    (word hw).append (group (chars fun t ht => h t (List.mem_append_left _ ht))
      (charsMore hw fun t ht => h t (List.mem_append_right _ ht)))

end

end MadeOf

/-- A column has none of the characters that could end it. -/
theorem not_mem_column {field : String} (h : isColumn field = true) :
    ∀ c ∈ " \n'\"()@;".toList, c ∉ field.toList := by
  intro c hc hm
  have hn : " \n'\"()@;".toList.all (fun d => !isColumnChar d) = true := rfl
  have hc' := List.all_eq_true.1 hn c hc
  rw [isColumnChar_of_isColumn h c hm] at hc'
  cases hc'

theorem madeOf_compiled {s : Settings} {batch : String} {q : Query} {c : Condition} (h : compile s batch q = .ok c) :
    MadeOf s batch q c.text.toList := by
  obtain ⟨f, hf, ht, -⟩ := compile_ok h
  rw [ht]
  refine MadeOf.chars fun t ht => ?_
  obtain ⟨hfield, hsymbol, hname⟩ := compiled_test hf ht
  refine MadeOf.test ?_ hsymbol fun id hid => ?_
  · rcases hfield with ⟨op, v, negated, hl, hc⟩ | hp
    · exact MadeOf.single (p := .keyedField t.field) ⟨⟨op, v, negated, hl⟩, isColumn_iff.1 hc, not_mem_column hc⟩
    · exact MadeOf.single (p := .bareField t.field) hp
  · obtain ⟨i, rfl⟩ := hname id hid
    exact MadeOf.single (p := .placeholder i) trivial

/-- No value reaches the text. Queries that differ in their values only, null and relative dates apart, are compiled to
one text with one set of placeholders, or fail at one leaf for one reason; and what was typed of a compiled text are
fields, each of which is a column from its first character to its last. -/
theorem compile_noninterference (s : Settings) (batch : String) :
    (∀ q₁ q₂ : Query, q₁.Alike s.LeafAlike q₂ → SameOutcome s batch q₁ q₂) ∧
      ∀ (q : Query) (c : Condition), compile s batch q = .ok c → MadeOf s batch q c.text.toList :=
  ⟨fun _ _ => sameOutcome_of_alike, fun _ _ => madeOf_compiled⟩

/-- The query of `noteQuery` with values that look like parts of a condition. -/
def hostileQuery : Query :=
  .all [.atom (.keyed "age" .gte (.string "0; DROP TABLE notes") false),
    .any [.atom (.bare (.string "') OR (TRUE") false), .atom (.keyed "due" .default .null false)]]

theorem compile_noninterference_hostile :
    SameOutcome noteSettings "b" noteQuery hostileQuery ∧ MadeOf noteSettings "b" noteQuery noteCondition.text.toList :=
  ⟨(compile_noninterference noteSettings "b").1 noteQuery hostileQuery
      ⟨⟨rfl, rfl, rfl, fun _ => rfl⟩, ⟨rfl, ⟨rfl, rfl, rfl, fun _ => rfl⟩, trivial⟩, trivial⟩,
    (compile_noninterference noteSettings "b").2 noteQuery noteCondition rfl⟩

end CompactSearch.Sql

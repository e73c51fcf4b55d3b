/-
The meaning of a compiled query. What a query asks of the columns is said here on its own: a keyed leaf asks one test, a
bare leaf one test of each bare field. The text of the compiled condition, read back as a Boolean expression with each
placeholder looked up in the bindings, asks exactly those tests, and is true where the query is (`compile_meaning`).
-/
import CompactSearch.Proofs.Sql.Writing

namespace CompactSearch.Sql

/-! ## What a leaf asks -/

/-- The test that a text occurs in a column. -/
def occursTest (field text : String) : ColumnTest Bound := .like field (.text ("%" ++ escapeLike text ++ "%"))

namespace Settings

/-- The test that a keyed leaf stands for. A colon that is no date and no substring compares for equality. -/
def keyedTest (s : Settings) (field : String) (op : Operator) (v : Value) : ColumnTest Bound :=
  if v = .null then .isNull field
  else
    match s.relativeDate? field v with
    | some t =>
      .compare field (if s.dateOverride = .always ∨ op = .default then "<=" else op.text) (.text t.iso)
    | none =>
      if op = .default then
        if s.policy.isStringField field then occursTest field v.text else .compare field "=" (.ofValue v)
      else .compare field op.text (.ofValue v)

/-- The test that a bare value stands for on one field. -/
def bareTest (s : Settings) (field : String) (v : Value) : ColumnTest Bound :=
  if v = .null then .isNull field
  else if s.policy.isStringField field then occursTest field v.text
  else .compare field "=" (.ofValue v)

/-- The tests of a leaf, any of which may hold; those of a bare value are in the order of the bare fields. -/
def leafTests (s : Settings) : Leaf → List (ColumnTest Bound)
  | .keyed field op v _ => [s.keyedTest field op v]
  | .bare v _ => (s.policy.bareFields?.getD []).map fun field => s.bareTest field v

/-- Whether a leaf holds where some tests do. -/
def leafHolds (s : Settings) (holds : ColumnTest Bound → Bool) (l : Leaf) : Bool :=
  (s.leafTests l).any holds ^^ l.isNegated

/-- A test of a field for a value: null asks for null, and any other value is looked for or compared with. -/
inductive Asks (field : String) (v : Value) : ColumnTest Bound → Prop
  | isNull : v = .null → Asks field v (.isNull field)
  | like (x : Bound) : v ≠ .null → Asks field v (.like field x)
  | compare (symbol : String) (x : Bound) : v ≠ .null → symbol ∈ symbols → Asks field v (.compare field symbol x)

theorem text_mem_symbols {op : Operator} (h : op ≠ .default) : op.text ∈ symbols := by
  cases op with
  | default => exact absurd rfl h
  | _ => decide

theorem asks_keyedTest (s : Settings) (field : String) (op : Operator) (v : Value) :
    Asks field v (s.keyedTest field op v) := by
  unfold keyedTest
  by_cases hv : v = .null
  · rw [if_pos hv]
    exact .isNull hv
  rw [if_neg hv]
  split
  · refine .compare _ _ hv ?_
    split
    · decide
    · rename_i hop
      exact text_mem_symbols fun e => hop (.inr e)
  split
  · split
    · exact .like _ hv
    · exact .compare _ _ hv (by decide)
  · rename_i hop
    exact .compare _ _ hv (text_mem_symbols hop)

theorem asks_bareTest (s : Settings) (field : String) (v : Value) : Asks field v (s.bareTest field v) := by
  unfold bareTest
  by_cases hv : v = .null
  · rw [if_pos hv]
    exact .isNull hv
  rw [if_neg hv]
  split
  · exact .like _ hv
  · exact .compare _ _ hv (by decide)

theorem Asks.field {field : String} {v : Value} {t : ColumnTest Bound} (h : Asks field v t) : t.field = field := by
  cases h <;> rfl

theorem Asks.symbol {field : String} {v : Value} {t : ColumnTest Bound} (h : Asks field v t) :
    ∀ x ∈ t.symbol?, x ∈ symbols := by
  intro x hx
  cases h with
  | isNull | like => cases hx
  | compare _ _ _ hs => cases hx; exact hs

/-- Every value but null is bound. -/
theorem Asks.isSome_value? {field : String} {v : Value} {t : ColumnTest Bound} (h : Asks field v t) :
    t.value?.isSome = !v.isNull := by
  cases h with
  | isNull hv => rw [hv]; rfl
  | like _ hv | compare _ _ hv => rw [Bool.eq_false_iff.2 fun h => hv (Value.isNull_iff.1 h)]; rfl

/-- A test is of the field that was typed, or of a bare field of the policy. -/
theorem asks_of_mem {s : Settings} {l : Leaf} {t : ColumnTest Bound} (h : t ∈ s.leafTests l) :
    Asks t.field l.value t ∧ ((∃ op v negated, l = .keyed t.field op v negated) ∨
      ∃ fields, s.policy.bareFields? = some fields ∧ t.field ∈ fields) := by
  cases l with
  | keyed field op v negated =>
    have ha := asks_keyedTest s field op v
    rw [List.mem_singleton.1 h, ha.field]
    exact ⟨ha, .inl ⟨op, v, negated, rfl⟩⟩
  | bare v negated =>
    obtain ⟨field, hf, rfl⟩ := List.mem_map.1 h
    have ha := asks_bareTest s field v
    rw [ha.field]
    cases hb : s.policy.bareFields? with
    | none => rw [hb] at hf; cases hf
    | some fields => rw [hb] at hf; exact ⟨ha, .inr ⟨fields, rfl, hf⟩⟩

/-! ## The filter asks the same -/

theorem ofValue_ne_null {v : Value} (h : v ≠ .null) : Bound.ofValue v ≠ .null := by
  cases v with
  | null => exact absurd rfl h
  | string => simp [Bound.ofValue]
  | number n =>
    rw [Bound.ofValue]
    split <;> simp

theorem comparisonText_eq (op : Operator) :
    Condition.comparisonText op = if op = .default then "=" else op.text := by
  cases op <;> rfl

theorem comparisonText_operator (o : DateOverride) (op : Operator) :
    Condition.comparisonText (o.operator op) = if o = .always ∨ op = .default then "<=" else op.text := by
  cases o <;> cases op <;> rfl

theorem form_contains (field text : String) : (Clause.contains field text).form = occursTest field text := rfl

theorem form_compare (field : String) (op : Operator) {v : Bound} (h : v ≠ .null) :
    (Clause.compare field op v).form = .compare field (Condition.comparisonText op) v := by
  rw [Clause.form, if_neg h]

theorem form_keyedClause (s : Settings) (field : String) (op : Operator) (v : Value) :
    (s.keyedClause field op v).form = s.keyedTest field op v := by
  unfold keyedClause keyedTest
  by_cases hv : v = .null
  · rw [if_pos (Value.isNull_iff.2 hv), if_pos hv]
    rfl
  -- from here on the value is not null, so that a comparison needs its placeholder
  rw [if_neg (fun h => hv (Value.isNull_iff.1 h)), if_neg hv]
  cases s.relativeDate? field v with
  | some t =>
    show (Clause.compare field (s.dateOverride.operator op) (.text t.iso)).form = _
    rw [form_compare _ _ (by simp), comparisonText_operator]
  | none =>
    by_cases hop : op = .default
    · cases hs : s.policy.isStringField field with
      | true => simp [hop, form_contains]
      | false => simp [hop, form_compare _ _ (ofValue_ne_null hv), Condition.comparisonText]
    · simp [hop, form_compare _ _ (ofValue_ne_null hv), comparisonText_eq]

theorem form_bareClause (s : Settings) (field : String) (v : Value) :
    (s.bareClause field v).form = s.bareTest field v := by
  unfold bareClause bareTest
  by_cases hv : v = .null
  · rw [if_pos (Value.isNull_iff.2 hv), if_pos hv]
    rfl
  rw [if_neg (fun h => hv (Value.isNull_iff.1 h)), if_neg hv]
  split
  · exact form_contains field v.text
  · rw [form_compare _ _ (ofValue_ne_null hv)]
    rfl

theorem leafFilter_keyed_ok {s : Settings} {field : String} {op : Operator} {v : Value} {negated : Bool} {p : Filter} :
    s.leafFilter (.keyed field op v negated) = .ok p ↔
      isColumn field = true ∧ p = .atom (s.keyedClause field op v) := by
  rw [leafFilter]
  by_cases h : isColumn field = true
  · simp [h, eq_comm]
  · simp [h]

theorem leafFilter_bare_ok {s : Settings} {v : Value} {negated : Bool} {p : Filter} :
    s.leafFilter (.bare v negated) = .ok p ↔ ∃ fields, s.policy.bareFields? = some fields ∧
      p = .any (fields.map fun field => .atom (s.bareClause field v)) := by
  rw [leafFilter]
  cases s.policy.bareFields? with
  | none => simp
  | some fields => simp [eq_comm]

/-- The formula of a leaf has the tests of the leaf for its atoms, and holds where one of them does. -/
theorem leafFilter_spec {s : Settings} {l : Leaf} {p : Filter} (h : s.leafFilter l = .ok p) :
    p.tests.atoms = s.leafTests l ∧ ∀ holds, p.tests.eval holds = (s.leafTests l).any holds := by
  cases l with
  | keyed field op v negated =>
    obtain ⟨-, rfl⟩ := leafFilter_keyed_ok.1 h
    simp only [Filter.tests, Formula.map, form_keyedClause, Formula.atoms, leafTests, Formula.eval, List.any_cons,
      List.any_nil, Bool.or_false, implies_true, and_self]
  | bare v negated =>
    obtain ⟨fields, hb, rfl⟩ := leafFilter_bare_ok.1 h
    have hm : Formula.mapList Clause.form (fields.map fun field => .atom (s.bareClause field v)) =
        fields.map fun field => .atom (s.bareTest field v) := by
      rw [Formula.mapList_eq_map, List.map_map]
      exact List.map_congr_left fun field _ => congrArg Formula.atom (form_bareClause s field v)
    simp only [Filter.tests, Formula.map, hm, Formula.atoms, Formula.eval, leafTests, hb, Option.getD_some]
    exact ⟨Formula.atomsList_atoms _ fields, fun holds => Formula.evalAny_atoms holds _ fields⟩

/-- The tests of a filter are those of the leaves of the query, in order. -/
theorem atoms_tests {s : Settings} {q : Query} {f : Filter} (h : s.filter q = .ok f) :
    f.tests.atoms = q.atoms.flatMap s.leafTests := by
  obtain ⟨parts, hp, ha⟩ := Formula.atoms_expand h
  rw [Formula.atoms_map, ha]
  clear ha
  generalize q.atoms = leaves at hp ⊢
  induction hp with
  | nil => rfl
  | cons hl _ ih =>
    rw [List.flatMap_cons, List.map_append, ih, ← Formula.atoms_map, (leafFilter_spec hl).1, List.flatMap_cons]

/-- Where no leaf is negated, the filter holds where the query does. -/
theorem eval_tests {s : Settings} {q : Query} {f : Filter} (h : s.filter q = .ok f)
    (hq : ∀ l ∈ q.atoms, l.isNegated = false) (holds : ColumnTest Bound → Bool) :
    f.tests.eval holds = q.eval (s.leafHolds holds) := by
  rw [Formula.eval_map]
  refine Formula.eval_expand h fun l hl p hp => ?_
  rw [← Formula.eval_map, (leafFilter_spec hp).2, leafHolds, hq l hl, Bool.xor_false]

end Settings

/-! ## The compiled condition -/

/-- What is known of a compiled condition: the filter it was written from. -/
theorem compile_ok {s : Settings} {batch : String} {q : Query} {c : Condition} (h : compile s batch q = .ok c) :
    ∃ f, s.filter q = .ok f ∧ c.text.toList = (labelled batch 0 f.tests).chars ∧
      c.params.Perm (Bindings.numbered batch 0 (values f.tests)) := by
  obtain ⟨f, hf, rfl⟩ := Formula.map_ok h
  exact ⟨f, hf, write_text 0 f, write_params 0 f⟩

/-- Every placeholder of a compiled condition is bound to the value that it stands for. -/
theorem bind_compiled {batch : String} {f : Formula (ColumnTest Bound)} {b : Bindings}
    (h : b.Perm (Bindings.numbered batch 0 (values f))) :
    (labelled batch 0 f).map (ColumnTest.bind? b) = f.map some := by
  refine bind_labelled fun p hp => Bindings.lookup_of_mem ?_ (h.mem_iff.2 hp)
  rw [(h.map (·.1)).nodup_iff, Bindings.keys_numbered]
  exact Bindings.nodup_names batch 0 _

/-- What the tests of a compiled condition are put together from: a typed field that is a column or a bare field of the
policy, a sign of comparison, and a name of the batch. -/
theorem compiled_test {s : Settings} {batch : String} {q : Query} {f : Filter} {t : ColumnTest String}
    (hf : s.filter q = .ok f) (ht : t ∈ (labelled batch 0 f.tests).atoms) :
    ((∃ op v negated, .keyed t.field op v negated ∈ q.atoms ∧ isColumn t.field = true) ∨
      ∃ fields, s.policy.bareFields? = some fields ∧ t.field ∈ fields) ∧
    (∀ x ∈ t.symbol?, x ∈ symbols) ∧ ∀ id ∈ t.value?, ∃ i, id = Placeholders.name batch i := by
  obtain ⟨u, hu, i, rfl⟩ := mem_labelled ht
  rw [Settings.atoms_tests hf, List.mem_flatMap] at hu
  obtain ⟨l, hl, hu⟩ := hu
  obtain ⟨ha, hfield⟩ := Settings.asks_of_mem hu
  rw [ColumnTest.field_map, ColumnTest.symbol?_map, ColumnTest.value?_map]
  refine ⟨?_, ha.symbol, fun id hid => ?_⟩
  · rcases hfield with ⟨op, v, negated, rfl⟩ | hp
    · obtain ⟨p, hp⟩ := Formula.expand_ok_iff.1 ⟨f, hf⟩ _ hl
      exact .inl ⟨op, v, negated, hl, (Settings.leafFilter_keyed_ok.1 hp).1⟩
    · exact .inr hp
  · rw [Option.mem_def, Option.map_eq_some_iff] at hid
    obtain ⟨-, -, rfl⟩ := hid
    exact ⟨i, rfl⟩

/-- The tests of a compiled condition can be read, where the bare fields are columns. -/
theorem readable_compiled {s : Settings} {batch : String} {q : Query} {f : Filter} (hf : s.filter q = .ok f)
    (hb : IsWord batch)
    (hbare : ∀ fields, s.policy.bareFields? = some fields → ∀ field ∈ fields, isColumn field = true) :
    ∀ t ∈ (labelled batch 0 f.tests).atoms, t.Readable := by
  intro t ht
  obtain ⟨hfield, hsymbol, hname⟩ := compiled_test hf ht
  refine ⟨?_, hsymbol, fun id hid => ?_⟩
  · rcases hfield with ⟨-, -, -, -, hc⟩ | ⟨fields, hp, hm⟩
    · exact hc
    · exact hbare fields hp _ hm
  · obtain ⟨i, rfl⟩ := hname id hid
    exact Placeholders.isWord_name hb i

/-- A compiled condition keeps the meaning of the query: its text reads as an expression, to the last character; the
tests of the expression, with placeholders looked up in the bindings, are those that the leaves ask, in order; and
whichever tests hold, the expression is true exactly where the query is. -/
theorem compile_meaning {s : Settings} {batch : String} {q : Query} {c : Condition} (hb : IsWord batch)
    (hbare : ∀ fields, s.policy.bareFields? = some fields → ∀ field ∈ fields, isColumn field = true)
    (hq : ∀ l ∈ q.atoms, l.isNegated = false) (h : compile s batch q = .ok c) :
    ∃ e, Expression.read c.text = some e ∧
      e.atoms.map (ColumnTest.bind? c.params) = (q.atoms.flatMap s.leafTests).map some ∧
      ∀ holds : ColumnTest Bound → Bool,
        e.eval (fun t => (t.bind? c.params).any holds) = q.eval (s.leafHolds holds) := by
  obtain ⟨f, hf, ht, hp⟩ := compile_ok h
  -- the expression that is read has connectives of one part left out, which changes neither its tests nor its value
  have hbind := bind_compiled hp
  refine ⟨_, Expression.read_chars ht (readable_compiled hf hb hbare), ?_, fun holds => ?_⟩
  · rw [Formula.atoms_collapse, ← Formula.atoms_map, hbind, Formula.atoms_map, Settings.atoms_tests hf]
  · rw [Formula.eval_collapse]
    calc (labelled batch 0 f.tests).eval (fun t => (t.bind? c.params).any holds)
      _ = ((labelled batch 0 f.tests).map (ColumnTest.bind? c.params)).eval (fun u => u.any holds) := by
        rw [Formula.eval_map]
        rfl
      _ = f.tests.eval holds := by
        rw [hbind, Formula.eval_map]
        rfl
      _ = q.eval (s.leafHolds holds) := Settings.eval_tests hf hq holds

/-- Two bare fields, of which the first is matched by substring. -/
def noteSettings : Settings :=
  { policy := { any := some ["name", "note.body"], isString := some ["name"] }, dateOverride := .always, now := ⟨0, 0⟩ }

/-- The query `age>=old (a_b OR due:NULL)`. -/
def noteQuery : Query :=
  .all [.atom (.keyed "age" .gte (.string "old") false),
    .any [.atom (.bare (.string "a_b") false), .atom (.keyed "due" .default .null false)]]

/-- The condition of the query. -/
def noteCondition : Condition :=
  { text := "(age >= @pb_0) AND (((name LIKE @pb_1 ESCAPE '\\') OR (note.body = @pb_2)) OR (due IS NULL))",
    params := [("pb_0", .text "old"), ("pb_1", .text "%a\\_b%"), ("pb_2", .text "a_b")] }

theorem compile_meaning_note :
    compile noteSettings "b" noteQuery = .ok noteCondition ∧
      ∃ e, Expression.read noteCondition.text = some e ∧
        e.atoms.map (ColumnTest.bind? noteCondition.params) =
          (noteQuery.atoms.flatMap noteSettings.leafTests).map some ∧
        ∀ holds : ColumnTest Bound → Bool,
          e.eval (fun t => (t.bind? noteCondition.params).any holds) = noteQuery.eval (noteSettings.leafHolds holds) :=
  ⟨rfl, compile_meaning (s := noteSettings) (show IsWord "b" by decide) (by rintro _ ⟨⟩; decide) (by decide) rfl⟩

end CompactSearch.Sql

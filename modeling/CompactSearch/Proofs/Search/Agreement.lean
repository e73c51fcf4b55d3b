/-
The two stores are asked the same. A query that both can express is compiled to a document filter and to an SQL
condition whose text is put together in the same way, with clauses on the same fields in the same places; a clause of
the one asks for the value that the placeholder of the other is bound to (`compile_agree`). The two sort values in
different orders (null, dates, patterns), so that what the one compares as a date has to be a date for the other.
-/
import CompactSearch.Proofs.Document.Meaning
import CompactSearch.Proofs.Sql.Meaning

namespace CompactSearch

open Document (Predicate compared)
open Sql (Settings ColumnTest Clause Expression)

/-! ## Clauses that ask the same -/

/-- A predicate on documents and a test of a column that ask the same, each as its own leaf asks it. -/
inductive SameClause (s : Settings) : Leaf → Predicate → ColumnTest Sql.Bound → Prop
  | isNull {l : Leaf} (field : String) (h : l.value = .null) :
    SameClause s l ⟨field, .equals (.literal .null), false⟩ (.isNull field)
  /-- The same text is looked for, escaped as each store demands. -/
  | occurs {l : Leaf} (field : String) (h : l.value ≠ .null) :
    SameClause s l ⟨field, .like (Document.literalPattern l.value.text), false⟩
      (.like field (.text ("%" ++ Sql.escapeLike l.value.text ++ "%")))
  | equals {l : Leaf} (field : String) (h : l.value ≠ .null) :
    SameClause s l ⟨field, .equals (.literal (.ofValue l.value)), false⟩ (.compare field "=" (.ofValue l.value))
  | compare {field : String} {op : Operator} {c : Comparison} {v : Value} {negated : Bool} (h : v ≠ .null)
      (hc : op.comparison? = some c) :
    SameClause s (.keyed field op v negated) ⟨field, .compare c (.literal (.ofValue v)), false⟩
      (.compare field op.text (.ofValue v))
  /-- Both compare with the same point in time, the one by the operator that was typed and the other by the operator
  that the override leaves. -/
  | date {field : String} {op : Operator} {text : String} {negated : Bool} {t : Instant}
      (hd : s.policy.isDateField field = true) (ht : RelativeDate.resolve? text s.now = some t) :
    SameClause s (.keyed field op (.string text) negated) ⟨field, compared op (.date t.iso), false⟩
      (.compare field (if s.dateOverride = .always ∨ op = .default then "<=" else op.text) (.text t.iso))

/-- What a date field holds is null or a relative date, for both stores alike. -/
def DatesResolve (s : Settings) (q : Query) : Prop :=
  ∀ field op v negated, .keyed field op v negated ∈ q.atoms → s.policy.isDateField field = true →
    v = .null ∨ ∃ text t, v = .string text ∧ RelativeDate.resolve? text s.now = some t

theorem sameClause_keyed {s : Settings} {field : String} (op : Operator) {v : Value} (negated : Bool)
    (hd : s.policy.isDateField field = true →
      v = .null ∨ ∃ text t, v = .string text ∧ RelativeDate.resolve? text s.now = some t) :
    SameClause s (.keyed field op v negated) ⟨field, Document.keyedCondition s.policy s.now field op v, false⟩
      (s.keyedTest field op v) := by
  rw [Document.keyedCondition_eq, Settings.keyedTest]
  by_cases hv : v = .null
  · rw [if_pos hv, if_pos hv]
    exact .isNull field hv
  rw [if_neg hv, if_neg hv]
  by_cases hf : s.policy.isDateField field = true
  · -- on a date field the two agree because the value is one that both resolve
    obtain hn | ⟨text, t, rfl, ht⟩ := hd hf
    · exact absurd hn hv
    have hr : s.relativeDate? field (.string text) = some t := by
      simp [Settings.relativeDate?, hf, ht]
    rw [if_pos hf, hr]
    simp only [Document.dateText, ht]
    exact .date hf ht
  · have hr : s.relativeDate? field v = none := by
      cases v <;> simp [Settings.relativeDate?, hf]
    rw [if_neg hf, hr]
    by_cases hop : op = .default
    · cases hs : s.policy.isStringField field with
      | true =>
        rw [if_pos ⟨hop, rfl⟩]
        simp only [hop, if_true]
        exact .occurs field hv
      | false =>
        rw [if_neg (by simp)]
        simp only [hop, if_true]
        exact .equals field hv
    · rw [if_neg (fun h => hop h.1)]
      simp only [if_neg hop]
      cases op with
      | default => exact absurd rfl hop
      | eq => exact .equals field hv
      | gte | gt | lte | lt => exact .compare hv rfl

theorem sameClause_bare {s : Settings} {v : Value} (negated : Bool) (field : String) :
    SameClause s (.bare v negated) ⟨field, Document.bareCondition s.policy field v, false⟩ (s.bareTest field v) := by
  rw [Document.bareCondition_eq, Settings.bareTest]
  by_cases hv : v = .null
  · rw [if_pos hv, if_pos hv]
    exact .isNull field hv
  rw [if_neg hv, if_neg hv]
  cases hs : s.policy.isStringField field with
  | true => exact .occurs field hv
  | false => exact .equals field hv

/-! ## Leaves -/

/-- The two formulas of a leaf have one shape, and their clauses ask the same. -/
theorem alike_leafFilter {s : Settings} {l : Leaf} {p : Document.Filter} {r : Sql.Filter} (hn : l.isNegated = false)
    (hd : ∀ field op v negated, l = .keyed field op v negated → s.policy.isDateField field = true →
      v = .null ∨ ∃ text t, v = .string text ∧ RelativeDate.resolve? text s.now = some t)
    (hp : Document.leafFilter s.policy s.now l = .ok p) (hr : s.leafFilter l = .ok r) :
    p.Alike (fun a c => SameClause s l a c.form) r := by
  cases l with
  | keyed field op v negated =>
    cases hn
    cases hp
    obtain ⟨-, rfl⟩ := Settings.leafFilter_keyed_ok.1 hr
    show SameClause s _ _ (Clause.form _)
    rw [Settings.form_keyedClause]
    exact sameClause_keyed op false (hd field op v false rfl)
  | bare v negated =>
    cases hn
    obtain ⟨fields, hb, rfl⟩ := Settings.leafFilter_bare_ok.1 hr
    simp only [Document.leafFilter, hb] at hp
    cases hp
    refine Formula.alikeList_atoms _ _ fun field _ => ?_
    rw [Settings.form_bareClause]
    exact sameClause_bare false field

/-- Where the field is a column, the two fail on the same leaves and name the same value. -/
theorem error?_leafFilter_sql {s : Settings} {l : Leaf}
    (hc : ∀ field op v negated, l = .keyed field op v negated → Sql.isColumn field = true) :
    Formula.error? (s.leafFilter l) =
      (Formula.error? (Document.leafFilter s.policy s.now l)).map SearchError.unanswerable := by
  cases l with
  | keyed field op v negated =>
    simp [Settings.leafFilter, Document.leafFilter, hc field op v negated rfl, Formula.error?]
  | bare v negated =>
    cases hb : s.policy.bareFields? <;> simp [Settings.leafFilter, Document.leafFilter, hb, Formula.error?]

/-! ## Queries -/

/-- A query without negation, whose fields are columns and whose dates are relative ones, is asked of both stores in the
same way: either both refuse it for the same bare value, or the filter and the expression that the text of the condition
is written from have one shape, and clauses in the same places ask the same, with placeholders looked up. -/
theorem compile_agree {s : Settings} {batch : String} {q : Query} (hn : ∀ l ∈ q.atoms, l.isNegated = false)
    (hc : ∀ field op v negated, .keyed field op v negated ∈ q.atoms → Sql.IsDotted field.toList)
    (hd : DatesResolve s q) :
    (∃ e, Document.compile s.policy s.now q = .error e ∧ Sql.compile s batch q = .error (.unanswerable e)) ∨
    ∃ f c e, Document.compile s.policy s.now q = .ok f ∧ Sql.compile s batch q = .ok c ∧
      c.text.toList = Expression.chars e ∧
      f.Alike (fun p t => ∃ l ∈ q.atoms, ∃ u, t.bind? c.params = some u ∧ SameClause s l p u) e := by
  have herr : Formula.error? (s.filter q) =
      (Formula.error? (Document.compile s.policy s.now q)).map SearchError.unanswerable :=
    Formula.error?_expand_map _ fun l hl =>
      error?_leafFilter_sql fun field op v negated h => Sql.isColumn_iff.2 (hc field op v negated (h ▸ hl))
  cases hf : Document.compile s.policy s.now q with
  | error e =>
    rw [hf] at herr
    have hs : s.filter q = .error (.unanswerable e) := Formula.error?_eq_some_iff.1 herr
    refine .inl ⟨e, rfl, ?_⟩
    rw [Sql.compile, hs]
    rfl
  | ok f =>
    rw [hf] at herr
    obtain ⟨g, hg⟩ := Formula.error?_eq_none_iff.1 herr
    have hcomp : Sql.compile s batch q = .ok (Sql.Filter.write ⟨batch, 0⟩ g).1 := by
      rw [Sql.compile, hg]
      rfl
    refine .inr ⟨f, _, Sql.labelled batch 0 g.tests, rfl, hcomp, Sql.write_text 0 g, ?_⟩
    have hsame : f.Alike (fun p c => ∃ l ∈ q.atoms, SameClause s l p c.form) g := by
      refine Formula.expand_alike hf hg fun l hl p r hp hr => ?_
      refine Formula.Alike.imp (fun a c h => ⟨l, hl, h⟩) ?_
      exact alike_leafFilter (hn l hl) (fun field op v negated h => hd field op v negated (h ▸ hl)) hp hr
    have htests : f.Alike (fun p t => ∃ l ∈ q.atoms, SameClause s l p t) g.tests := Formula.alike_map.2 hsame
    have hlooked : f.Alike (fun p o => ∃ l ∈ q.atoms, ∃ u, o = some u ∧ SameClause s l p u) (g.tests.map some) :=
      Formula.alike_map.2 (htests.imp fun p t ⟨l, hl, h⟩ => ⟨l, hl, t, rfl, h⟩)
    -- looking the numbered placeholders up gives the tests back
    rw [← Sql.bind_compiled (Sql.write_params 0 g)] at hlooked
    exact Formula.alike_map.1 hlooked

/-- Two bare fields, of which the first is matched by pattern, and a field that holds dates. -/
def errandSettings : Settings :=
  { policy := { any := some ["name", "tag"], isString := some ["name"], isDate := some ["due"] },
    dateOverride := .always, now := ⟨0, 0⟩ }

/-- The query `due>=now (a_b OR size<3 OR due:NULL)`. -/
def errandQuery : Query :=
  .all [.atom (.keyed "due" .gte (.string "now") false),
    .any [.atom (.bare (.string "a_b") false), .atom (.keyed "size" .lt (.number ⟨"3", rfl⟩) false),
      .atom (.keyed "due" .default .null false)]]

/-- The filter of the query. -/
def errandFilter : Document.Filter :=
  .all [.atom ⟨"due", .compare .gte (.date "1970-01-01T00:00:00.000Z"), false⟩,
    .any [.any [.atom ⟨"name", .like "a_b", false⟩, .atom ⟨"tag", .equals (.literal (.string "a_b")), false⟩],
      .atom ⟨"size", .compare .lt (.literal (.integer 3)), false⟩, .atom ⟨"due", .equals (.literal .null), false⟩]]

/-- The condition of the query. -/
def errandCondition : Sql.Condition :=
  { text := "(due <= @pb_0) AND (((name LIKE @pb_1 ESCAPE '\\') OR (tag = @pb_2)) OR (size < @pb_3) OR (due IS NULL))",
    params := [("pb_0", .text "1970-01-01T00:00:00.000Z"), ("pb_1", .text "%a\\_b%"), ("pb_2", .text "a_b"),
      ("pb_3", .integer 3)] }

theorem datesResolve_errand : DatesResolve errandSettings errandQuery := by
  intro field op v negated h hd
  simp only [errandQuery, Formula.atoms, Formula.atomsList, List.append_nil, List.singleton_append, List.mem_cons,
    Leaf.keyed.injEq, reduceCtorEq, List.not_mem_nil, or_false, false_or] at h
  rcases h with ⟨rfl, rfl, rfl, rfl⟩ | ⟨rfl, rfl, rfl, rfl⟩ | ⟨rfl, rfl, rfl, rfl⟩
  · exact .inr ⟨"now", ⟨0, 0⟩, rfl, rfl⟩
  · cases hd
  · exact .inl rfl

theorem isDotted_errand : ∀ field op v negated, .keyed field op v negated ∈ errandQuery.atoms →
    Sql.IsDotted field.toList := by
  intro field op v negated h
  simp only [errandQuery, Formula.atoms, Formula.atomsList, List.append_nil, List.singleton_append, List.mem_cons,
    Leaf.keyed.injEq, reduceCtorEq, List.not_mem_nil, or_false, false_or] at h
  rcases h with ⟨rfl, -⟩ | ⟨rfl, -⟩ | ⟨rfl, -⟩ <;> exact Sql.isColumn_iff.1 rfl

theorem compile_agree_errand :
    Document.compile errandSettings.policy errandSettings.now errandQuery = .ok errandFilter ∧
      Sql.compile errandSettings "b" errandQuery = .ok errandCondition ∧
      ∃ e, errandCondition.text.toList = Expression.chars e ∧
        errandFilter.Alike (fun p t => ∃ l ∈ errandQuery.atoms, ∃ u,
          t.bind? errandCondition.params = some u ∧ SameClause errandSettings l p u) e := by
  have hf : Document.compile errandSettings.policy errandSettings.now errandQuery = .ok errandFilter := rfl
  have hc : Sql.compile errandSettings "b" errandQuery = .ok errandCondition := rfl
  have h := @compile_agree errandSettings "b" errandQuery (by decide) isDotted_errand datesResolve_errand
  rw [hf, hc] at h
  obtain ⟨e, he, -⟩ | ⟨f, c, e, ⟨⟩, ⟨⟩, ht, ha⟩ := h
  · cases he
  · exact ⟨rfl, rfl, e, ht, ha⟩

end CompactSearch

/-
The meaning of a document filter, read from its JSON form alone. `$and` and `$or` over a list are the connectives, every
other key is a field, `$not` in front of a condition turns it round, and `$eq` asks for the value behind it. Under any
truth values for the conditions that are left, the JSON form of a compiled query is true exactly where the query is
(`compile_truth`): a bare leaf holds if one of the bare fields matches, and a negated one if none does.
-/
import CompactSearch.Document.Compile
import CompactSearch.Proofs.Formula

namespace CompactSearch.Document

/-! ## Reading the JSON form -/

section Reading

variable (holds : String → Json → Bool)

/-- Whether a field meets what stands behind it, where `holds` answers for conditions without `$not` and `$eq`. -/
def meets (field : String) : Json → Bool
  | .object [(key, c)] =>
    if key = "$not" then !meets field c
    else holds field (if key = "$eq" then c else .object [(key, c)])
  | c => holds field c

mutual

/-- The truth value of a JSON form; none if it is no filter. -/
def truth? : Json → Option Bool
  | .object [(key, .array items)] =>
    if key = "$and" then (truths? items).map (·.all id)
    else if key = "$or" then (truths? items).map (·.any id)
    else none
  | .object [(field, c)] => some (meets holds field c)
  | _ => none

/-- The truth values of a list of JSON forms. -/
def truths? : List Json → Option (List Bool)
  | [] => some []
  | j :: js =>
    match truth? j with
    | none => none
    | some b => (truths? js).map (b :: ·)

end

/-! ## Conditions -/

/-- Whether a predicate is true. -/
def Predicate.truth (p : Predicate) : Bool :=
  if p.negated then !holds p.field p.condition.toJson else holds p.field p.condition.toJson

theorem meets_comparison (field : String) (c : Comparison) (x : Json) :
    meets holds field (.object [(comparisonKey c, x)]) = holds field (.object [(comparisonKey c, x)]) := by
  cases c <;> simp [meets, comparisonKey]

theorem meets_literal (field : String) (v : Literal) : meets holds field v.toJson = holds field v.toJson := by
  cases v <;> rfl

/-- No condition without negation is read as one of `$not` or `$eq`. -/
theorem meets_toJson (field : String) (c : Condition) : meets holds field c.toJson = holds field c.toJson := by
  cases c with
  | equals operand =>
    cases operand with
    | literal v => exact meets_literal holds field v
    | date text => simp [Condition.toJson, Operand.toJson, meets]
  | like pattern => simp [Condition.toJson, meets]
  | compare c operand => exact meets_comparison holds field c _

/-- Under a negation, equality with a value is written by `$eq` and asks the same. -/
theorem meets_toOperatorJson (field : String) (c : Condition) :
    meets holds field c.toOperatorJson = holds field c.toJson := by
  match c with
  | .equals (.literal v) => simp [Condition.toOperatorJson, Condition.toJson, Operand.toJson, meets]
  | .equals (.date text) => exact meets_toJson holds field (.equals (.date text))
  | .like pattern => exact meets_toJson holds field (.like pattern)
  | .compare c operand => exact meets_toJson holds field (.compare c operand)

/-- What stands behind a field is a list for no condition. -/
theorem toJson_ne_array (c : Condition) (items : List Json) : c.toJson ≠ .array items := by
  cases c with
  | equals operand =>
    cases operand with
    | literal v => cases v <;> simp [Condition.toJson, Operand.toJson, Literal.toJson]
    | date text => simp [Condition.toJson, Operand.toJson]
  | like pattern => simp [Condition.toJson]
  | compare c operand => simp [Condition.toJson]

theorem truth?_field (field : String) {c : Json} (h : ∀ items, c ≠ .array items) :
    truth? holds (.object [(field, c)]) = some (meets holds field c) := by
  cases c with
  | array items => exact absurd rfl (h items)
  | _ => rw [truth?]; simp

/-- A predicate is read as one, whatever its field is called. -/
theorem truth?_predicate (p : Predicate) : truth? holds p.toJson = some (p.truth holds) := by
  obtain ⟨field, c, negated⟩ := p
  cases negated with
  | true => simp [Predicate.toJson, Predicate.truth, truth?, meets, meets_toOperatorJson]
  | false =>
    show truth? holds (.object [(field, c.toJson)]) = some (holds field c.toJson)
    rw [truth?_field holds field (toJson_ne_array c), meets_toJson]

/-! ## Connectives -/

mutual

/-- The JSON form of a filter has the value of the filter. -/
theorem truth?_toJson : ∀ f : Filter, truth? holds (Filter.toJson f) = some (f.eval (Predicate.truth holds))
  | .atom p => truth?_predicate holds p
  | .all fs => by
    obtain ⟨bs, hbs, hall, -⟩ := truths?_toJsonList fs
    simp [Filter.toJson, truth?, hbs, hall, Formula.eval]
  | .any fs => by
    obtain ⟨bs, hbs, -, hany⟩ := truths?_toJsonList fs
    simp [Filter.toJson, truth?, hbs, hany, Formula.eval]

theorem truths?_toJsonList : ∀ fs : List Filter, ∃ bs, truths? holds (Filter.toJsonList fs) = some bs ∧
    bs.all id = Formula.evalAll (Predicate.truth holds) fs ∧ bs.any id = Formula.evalAny (Predicate.truth holds) fs
  | [] => ⟨[], rfl, rfl, rfl⟩
  | f :: fs => by
    obtain ⟨bs, hbs, hall, hany⟩ := truths?_toJsonList fs
    refine ⟨f.eval (Predicate.truth holds) :: bs, ?_, ?_, ?_⟩
    · rw [Filter.toJsonList, truths?, truth?_toJson f, hbs]
      rfl
    · rw [List.all_cons, hall]
      rfl
    · rw [List.any_cons, hany]
      rfl

end

end Reading

/-! ## What a query asks -/

/-- An operand behind the operator that was typed; the colon and the equals sign stand for the operand itself. -/
def ranged (op : Operator) (x : Json) : Json :=
  match op with
  | .default | .eq => x
  | .gte => .object [("$gte", x)]
  | .gt => .object [("$gt", x)]
  | .lte => .object [("$lte", x)]
  | .lt => .object [("$lt", x)]

/-- The condition that a text occurs in a field. -/
def occursForm (text : String) : Json := .object [("$regex", .string (literalPattern text))]

section Query

variable (policy : FieldPolicy) (now : Instant)

/-- What a keyed leaf asks of its field, its negation apart. -/
def keyedForm (field : String) (op : Operator) (v : Value) : Json :=
  if v = .null then .null
  else if policy.isDateField field then ranged op (.object [("$toDate", .string (dateText now v))])
  else if op = .default ∧ policy.isStringField field then occursForm v.text
  else ranged op (Literal.ofValue v).toJson

/-- What a bare value asks of one field. -/
def bareForm (field : String) (v : Value) : Json :=
  if v = .null then .null
  else if policy.isStringField field then occursForm v.text
  else (Literal.ofValue v).toJson

/-- The positive predicates of a leaf, any of which may hold; those of a bare value are in the order of the bare
fields. -/
def positives : Leaf → List (String × Json)
  | .keyed field op v _ => [(field, keyedForm policy now field op v)]
  | .bare v _ => (policy.bareFields?.getD []).map fun field => (field, bareForm policy field v)

/-- Whether a leaf is true, where `holds` says which positive predicates are. -/
def leafTruth (holds : String → Json → Bool) (l : Leaf) : Bool :=
  let matched := (positives policy now l).any fun p => holds p.1 p.2
  if l.isNegated then !matched else matched

/-- The value of a bare leaf. -/
def bareValue? : Leaf → Option Value
  | .bare v _ => some v
  | .keyed _ _ _ _ => none

/-- The value of the leftmost bare leaf. -/
def firstBare? (q : Query) : Option Value := q.atoms.findSome? bareValue?

/-- The condition that an operator asks for; the colon and the equals sign ask for equality. -/
def compared (op : Operator) (x : Operand) : Condition :=
  match op.comparison? with
  | some c => .compare c x
  | none => .equals x

theorem toJson_compared (op : Operator) (x : Operand) : (compared op x).toJson = ranged op x.toJson := by
  cases op <;> rfl

/-- What decides about a keyed leaf, in this order: null, a field of dates, the colon on a field of strings. -/
theorem keyedCondition_eq (field : String) (op : Operator) (v : Value) :
    keyedCondition policy now field op v =
      if v = .null then .equals (.literal .null)
      else if policy.isDateField field then compared op (.date (dateText now v))
      else if op = .default ∧ policy.isStringField field then .like (literalPattern v.text)
      else compared op (.literal (.ofValue v)) := by
  unfold keyedCondition
  by_cases hv : v = .null
  · rw [if_pos (Value.isNull_iff.2 hv), if_pos hv]
  rw [if_neg (fun h => hv (Value.isNull_iff.1 h)), if_neg hv]
  cases hd : policy.isDateField field with
  | true => rfl
  | false =>
    by_cases hs : op = .default ∧ policy.isStringField field = true
    · simp [hs]
    · rw [if_neg (by simpa using hs), if_neg (by decide), if_neg (by decide), if_neg hs]
      rfl

theorem bareCondition_eq (field : String) (v : Value) :
    bareCondition policy field v =
      if v = .null then .equals (.literal .null)
      else if policy.isStringField field then .like (literalPattern v.text)
      else .equals (.literal (.ofValue v)) := by
  unfold bareCondition
  by_cases hv : v = .null
  · subst hv
    rfl
  have hn : v.isNull = false := Bool.eq_false_iff.2 fun h => hv (Value.isNull_iff.1 h)
  simp [hv, hn]

theorem toJson_keyedCondition (field : String) (op : Operator) (v : Value) :
    (keyedCondition policy now field op v).toJson = keyedForm policy now field op v := by
  rw [keyedCondition_eq, keyedForm]
  split
  · rfl
  split
  · exact toJson_compared op _
  split
  · rfl
  · exact toJson_compared op _

theorem toJson_bareCondition (field : String) (v : Value) :
    (bareCondition policy field v).toJson = bareForm policy field v := by
  rw [bareCondition_eq, bareForm]
  split
  · rfl
  split <;> rfl

theorem truth_bareCondition (holds : String → Json → Bool) (v : Value) (negated : Bool) (field : String) :
    Predicate.truth holds ⟨field, bareCondition policy field v, negated⟩ =
      if negated then !holds field (bareForm policy field v) else holds field (bareForm policy field v) := by
  rw [Predicate.truth, toJson_bareCondition]

/-- A bare leaf has a predicate for each bare field, in the order of the fields. -/
theorem atoms_leafFilter_bare {v : Value} {negated : Bool} {f : Filter}
    (h : leafFilter policy now (.bare v negated) = .ok f) :
    ∃ fields, policy.bareFields? = some fields ∧
      f.atoms = fields.map fun field => ⟨field, bareCondition policy field v, negated⟩ := by
  cases hb : policy.bareFields? with
  | none => simp [leafFilter, hb] at h
  | some fields =>
    simp only [leafFilter, hb] at h
    cases h
    refine ⟨fields, rfl, ?_⟩
    cases negated <;> exact Formula.atomsList_atoms _ fields

/-- The filter of a leaf is true where the leaf is. The negation of a bare leaf is in each of its predicates, and turns
their disjunction into a conjunction. -/
theorem eval_leafFilter {l : Leaf} {p : Filter} (h : leafFilter policy now l = .ok p)
    (holds : String → Json → Bool) : p.eval (Predicate.truth holds) = leafTruth policy now holds l := by
  cases l with
  | keyed field op v negated =>
    cases h
    simp [Formula.eval, Predicate.truth, leafTruth, positives, toJson_keyedCondition, Leaf.isNegated]
  | bare v negated =>
    cases hb : policy.bareFields? with
    | none => simp [leafFilter, hb] at h
    | some fields =>
      simp only [leafFilter, hb] at h
      cases h
      simp only [leafTruth, positives, hb, Option.getD_some, List.any_map, Leaf.isNegated]
      cases negated with
      | true =>
        rw [if_pos rfl, if_pos rfl, List.not_any_eq_all_not, Formula.eval, Formula.evalAll_atoms, List.all_map]
        refine congrArg fields.all (funext fun field => ?_)
        exact truth_bareCondition policy holds v true field
      | false =>
        rw [if_neg (by decide), if_neg (by decide), Formula.eval, Formula.evalAny_atoms, List.any_map]
        refine congrArg fields.any (funext fun field => ?_)
        exact truth_bareCondition policy holds v false field

/-! ## Failure -/

/-- Only a bare leaf fails, and only under a policy without bare fields. -/
theorem error?_leafFilter (l : Leaf) :
    Formula.error? (leafFilter policy now l) =
      if policy.bareFields? = none then (bareValue? l).map fun v => ⟨v.text⟩ else none := by
  cases l with
  | keyed field op v negated => simp [leafFilter, Formula.error?, bareValue?]
  | bare v negated => cases hb : policy.bareFields? <;> simp [leafFilter, Formula.error?, bareValue?, hb]

theorem compile_eq_error_iff {q : Query} {e : NoBareFields} :
    compile policy now q = .error e ↔ policy.bareFields? = none ∧ ∃ v, firstBare? q = some v ∧ e = ⟨v.text⟩ := by
  rw [compile, ← Formula.error?_eq_some_iff, Formula.error?_expand]
  simp only [error?_leafFilter]
  by_cases hb : policy.bareFields? = none
  · have hf := List.map_findSome? (f := bareValue?) (g := fun v => NoBareFields.mk v.text) (l := q.atoms)
    simp only [Function.comp_def] at hf
    simp only [hb, if_true, true_and, ← hf, Option.map_eq_some_iff, firstBare?, eq_comm (a := e)]
  · have hn : (q.atoms.findSome? fun _ => (none : Option NoBareFields)) = none :=
      List.findSome?_eq_none_iff.2 fun _ _ => rfl
    simp [hb, hn]

end Query

/-- A compiled query means what the query means. It fails exactly if it has a bare leaf and the policy no bare fields,
and names the leftmost one; and otherwise its JSON form reads as a filter that is true where the query is, whichever
positive predicates are. -/
theorem compile_truth (policy : FieldPolicy) (now : Instant) (q : Query) :
    (∀ e, compile policy now q = .error e ↔
      policy.bareFields? = none ∧ ∃ v, firstBare? q = some v ∧ e = ⟨v.text⟩) ∧
    ∀ f, compile policy now q = .ok f → ∀ holds : String → Json → Bool,
      truth? holds (Filter.toJson f) = some (q.eval (leafTruth policy now holds)) := by
  refine ⟨fun e => compile_eq_error_iff policy now, fun f h holds => ?_⟩
  rw [truth?_toJson]
  exact congrArg some (Formula.eval_expand h fun l _ p hp => eval_leafFilter policy now hp holds)

/-- Two bare fields, of which the first is matched by pattern, and a field that holds dates. -/
def taskPolicy : FieldPolicy :=
  { any := some ["name", "tag"], isString := some ["name"], isDate := some ["due"] }

/-- The query `-urgent (due>=now OR -$or:a.b)`. -/
def taskQuery : Query :=
  .all [.atom (.bare (.string "urgent") true),
    .any [.atom (.keyed "due" .gte (.string "now") false), .atom (.keyed "$or" .default (.string "a.b") true)]]

/-- The filter of the query on the first day of 1970. -/
def taskFilter : Filter :=
  .all [.all [.atom ⟨"name", .like "urgent", true⟩, .atom ⟨"tag", .equals (.literal (.string "urgent")), true⟩],
    .any [.atom ⟨"due", .compare .gte (.date "1970-01-01T00:00:00.000Z"), false⟩,
      .atom ⟨"$or", .equals (.literal (.string "a.b")), true⟩]]

theorem compile_truth_task :
    compile .empty ⟨0, 0⟩ taskQuery = .error ⟨"urgent"⟩ ∧ compile taskPolicy ⟨0, 0⟩ taskQuery = .ok taskFilter ∧
      ∀ holds, truth? holds (Filter.toJson taskFilter) = some (taskQuery.eval (leafTruth taskPolicy ⟨0, 0⟩ holds)) :=
  ⟨((compile_truth .empty ⟨0, 0⟩ taskQuery).1 _).2 ⟨rfl, _, rfl, rfl⟩, rfl,
    (compile_truth taskPolicy ⟨0, 0⟩ taskQuery).2 taskFilter rfl⟩

end CompactSearch.Document

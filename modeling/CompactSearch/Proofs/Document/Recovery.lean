/-
Filters recovered from their JSON form. What a form stands for is told by its keys, one level at a time: only a
connective has a list behind its key, a negation stands in front of an operator, and every kind of condition has an
operator of its own or is a value without keys. So the form can be read back, and no two filters have the same one
(`compile_unambiguous`), whatever their fields are called: a field of the name `$and` never has a list behind it.
-/
import CompactSearch.Proofs.Document.Meaning

namespace CompactSearch.Document

/-! ## Reading a form back -/

/-- The literal that a JSON value is the form of. -/
def literalOfJson? : Json → Option Literal
  | .null => some .null
  | .integer n => some (.integer n.toNat)
  | .float x => some (.float x)
  | .string s => some (.string s)
  | _ => none

/-- The operand that a JSON value is the form of. -/
def operandOfJson? : Json → Option Operand
  | .object [(key, .string text)] => if key = "$toDate" then some (.date text) else none
  | j => (literalOfJson? j).map .literal

/-- The comparison with the given key. -/
def comparisonOfKey? (key : String) : Option Comparison :=
  [Comparison.gte, .gt, .lte, .lt].find? (comparisonKey · == key)

/-- The condition that a JSON value is the form of. -/
def conditionOfJson? : Json → Option Condition
  | .object [(key, x)] =>
    match comparisonOfKey? key, x with
    | some c, x => (operandOfJson? x).map (.compare c)
    | none, .string pattern => if key = "$regex" then some (.like pattern)
      else (operandOfJson? (.object [(key, .string pattern)])).map .equals
    | none, _ => none
  | j => (operandOfJson? j).map .equals

/-- The condition that an object of operators is the form of. -/
def conditionOfOperatorJson? : Json → Option Condition
  | .object [(key, x)] =>
    if key = "$eq" then (literalOfJson? x).map fun v => .equals (.literal v)
    else conditionOfJson? (.object [(key, x)])
  | _ => none

/-- The predicate on a field that has the given form behind it. -/
def predicateOfJson? (field : String) : Json → Option Predicate
  | .object [(key, c)] =>
    if key = "$not" then (conditionOfOperatorJson? c).map (⟨field, ·, true⟩)
    else (conditionOfJson? (.object [(key, c)])).map (⟨field, ·, false⟩)
  | c => (conditionOfJson? c).map (⟨field, ·, false⟩)

mutual

/-- The filter that a JSON value is the form of. -/
def filterOfJson? : Json → Option Filter
  | .object [(key, .array items)] =>
    if key = "$and" then (filtersOfJson? items).map .all
    else if key = "$or" then (filtersOfJson? items).map .any
    else none
  | .object [(field, c)] => (predicateOfJson? field c).map .atom
  | _ => none

/-- The filters that the values of a list are the forms of. -/
def filtersOfJson? : List Json → Option (List Filter)
  | [] => some []
  | j :: js =>
    match filterOfJson? j, filtersOfJson? js with
    | some f, some fs => some (f :: fs)
    | _, _ => none

end

/-! ## Conditions -/

theorem literalOfJson?_toJson (v : Literal) : literalOfJson? v.toJson = some v := by
  cases v with
  | integer n => simp [Literal.toJson, literalOfJson?]
  | null | float | string => rfl

/-- A value without keys is read as a literal. -/
theorem operandOfJson?_literal (v : Literal) : operandOfJson? v.toJson = some (.literal v) := by
  have h : operandOfJson? v.toJson = (literalOfJson? v.toJson).map .literal := by cases v <;> rfl
  rw [h, literalOfJson?_toJson]
  rfl

theorem operandOfJson?_toJson (x : Operand) : operandOfJson? x.toJson = some x := by
  cases x with
  | literal v => exact operandOfJson?_literal v
  | date text => simp [Operand.toJson, operandOfJson?]

theorem comparisonOfKey?_comparisonKey (c : Comparison) : comparisonOfKey? (comparisonKey c) = some c := by
  cases c <;> decide

theorem conditionOfJson?_toJson (c : Condition) : conditionOfJson? c.toJson = some c := by
  cases c with
  | equals x =>
    cases x with
    | literal v =>
      have h : conditionOfJson? v.toJson = (operandOfJson? v.toJson).map .equals := by cases v <;> rfl
      rw [Condition.toJson, Operand.toJson, h, operandOfJson?_literal]
      rfl
    | date text =>
      have hkey : comparisonOfKey? "$toDate" = none := by decide
      simp [Condition.toJson, Operand.toJson, conditionOfJson?, hkey, operandOfJson?]
  | like pattern =>
    have hkey : comparisonOfKey? "$regex" = none := by decide
    simp [Condition.toJson, conditionOfJson?, hkey]
  | compare c x => simp [Condition.toJson, conditionOfJson?, comparisonOfKey?_comparisonKey, operandOfJson?_toJson]

/-- No operator but `$eq` is read as a value behind `$eq`. -/
theorem conditionOfOperatorJson?_object {key : String} {x : Json} (h : key ≠ "$eq") :
    conditionOfOperatorJson? (.object [(key, x)]) = conditionOfJson? (.object [(key, x)]) := by
  rw [conditionOfOperatorJson?, if_neg h]

theorem conditionOfOperatorJson?_toOperatorJson (c : Condition) :
    conditionOfOperatorJson? c.toOperatorJson = some c := by
  match c with
  | .equals (.literal v) => simp [Condition.toOperatorJson, conditionOfOperatorJson?, literalOfJson?_toJson]
  | .equals (.date text) =>
    exact (conditionOfOperatorJson?_object (by decide)).trans (conditionOfJson?_toJson (.equals (.date text)))
  | .like pattern =>
    exact (conditionOfOperatorJson?_object (by decide)).trans (conditionOfJson?_toJson (.like pattern))
  | .compare c x =>
    have hkey : comparisonKey c ≠ "$eq" := by cases c <;> decide
    exact (conditionOfOperatorJson?_object hkey).trans (conditionOfJson?_toJson (.compare c x))

/-- No condition without negation is read as one behind `$not`. -/
theorem predicateOfJson?_toJson (field : String) (c : Condition) :
    predicateOfJson? field c.toJson = (conditionOfJson? c.toJson).map (⟨field, ·, false⟩) := by
  cases c with
  | equals x =>
    cases x with
    | literal v => cases v <;> rfl
    | date text => simp [Condition.toJson, Operand.toJson, predicateOfJson?]
  | like pattern => simp [Condition.toJson, predicateOfJson?]
  | compare c x =>
    have hkey : comparisonKey c ≠ "$not" := by cases c <;> decide
    simp [Condition.toJson, predicateOfJson?, hkey]

/-! ## Filters -/

/-- Behind a field there is no list, so the name of the field does not matter. -/
theorem filterOfJson?_field (field : String) {c : Json} (h : ∀ items, c ≠ .array items) :
    filterOfJson? (.object [(field, c)]) = (predicateOfJson? field c).map .atom := by
  cases c with
  | array items => exact absurd rfl (h items)
  | _ => rw [filterOfJson?]; simp

theorem filterOfJson?_predicate (p : Predicate) : filterOfJson? p.toJson = some (.atom p) := by
  obtain ⟨field, c, negated⟩ := p
  cases negated with
  | true =>
    have hc : filterOfJson? (.object [(field, .object [("$not", c.toOperatorJson)])]) =
        (predicateOfJson? field (.object [("$not", c.toOperatorJson)])).map .atom :=
      filterOfJson?_field field (by simp)
    rw [Predicate.toJson, if_pos rfl, hc, predicateOfJson?, if_pos rfl, conditionOfOperatorJson?_toOperatorJson]
    rfl
  | false =>
    rw [Predicate.toJson, if_neg Bool.false_ne_true, filterOfJson?_field field (toJson_ne_array c),
      predicateOfJson?_toJson, conditionOfJson?_toJson]
    rfl

mutual

/-- A filter is read back from its form. -/
theorem filterOfJson?_toJson : ∀ f : Filter, filterOfJson? (Filter.toJson f) = some f
  | .atom p => filterOfJson?_predicate p
  | .all fs => by
    rw [Filter.toJson, filterOfJson?, if_pos rfl, filtersOfJson?_toJsonList fs]
    rfl
  | .any fs => by
    rw [Filter.toJson, filterOfJson?, if_neg (by decide), if_pos rfl, filtersOfJson?_toJsonList fs]
    rfl

theorem filtersOfJson?_toJsonList : ∀ fs : List Filter, filtersOfJson? (Filter.toJsonList fs) = some fs
  | [] => rfl
  | f :: fs => by rw [Filter.toJsonList, filtersOfJson?, filterOfJson?_toJson f, filtersOfJson?_toJsonList fs]

end

/-- The JSON form of a filter is unambiguous. What a form stands for can be read from it alone, and queries that are
compiled to one form, under whatever policies and at whatever instants, are compiled to one filter, the one that is
read. -/
theorem compile_unambiguous :
    (∀ f : Filter, filterOfJson? (Filter.toJson f) = some f) ∧
    ∀ (policy policy' : FieldPolicy) (now now' : Instant) (q q' : Query) (j : Json),
      (compile policy now q).map Filter.toJson = .ok j → (compile policy' now' q').map Filter.toJson = .ok j →
        ∃ f, compile policy now q = .ok f ∧ compile policy' now' q' = .ok f ∧ filterOfJson? j = some f := by
  refine ⟨filterOfJson?_toJson, ?_⟩
  intro policy policy' now now' q q' j h h'
  obtain ⟨f, hf, rfl⟩ := Formula.map_ok h
  obtain ⟨f', hf', hj⟩ := Formula.map_ok h'
  have hread : some f = some f' := by rw [← filterOfJson?_toJson f, ← filterOfJson?_toJson f', hj]
  obtain rfl : f = f' := Option.some.inj hread
  exact ⟨f, hf, hf', filterOfJson?_toJson f⟩

/-- The same instant told from two others, and a field that is called like a connective. -/
theorem compile_unambiguous_instant :
    let policy : FieldPolicy := { isDate := some ["due"] }
    let query := fun text op : String => "due>=" ++ text ++ " -$and" ++ op ++ "NULL"
    let f : Filter := .all [.atom ⟨"due", .compare .gte (.date "1970-01-01T00:00:00.000Z"), false⟩,
      .atom ⟨"$and", .equals (.literal .null), true⟩]
    ∃ q q', parse .document (query "now" ":") = .ok q ∧ parse .document (query "-1d" "=") = .ok q' ∧
      (compile policy ⟨0, 0⟩ q).map Filter.toJson = .ok (Filter.toJson f) ∧
      (compile policy ⟨86400, 0⟩ q').map Filter.toJson = .ok (Filter.toJson f) ∧
      compile policy ⟨0, 0⟩ q = compile policy ⟨86400, 0⟩ q' ∧ filterOfJson? (Filter.toJson f) = some f := by
  intro policy query f
  let q (op : Operator) (text : String) : Query :=
    .all [.atom (.keyed "due" .gte (.string text) false), .atom (.keyed "$and" op .null true)]
  have h : compile policy ⟨0, 0⟩ (q .default "now") = .ok f := by decide +kernel
  have h' : compile policy ⟨86400, 0⟩ (q .eq "-1d") = .ok f := by decide +kernel
  have hj : (compile policy ⟨0, 0⟩ (q .default "now")).map Filter.toJson = .ok (Filter.toJson f) := by rw [h]; rfl
  have hj' : (compile policy ⟨86400, 0⟩ (q .eq "-1d")).map Filter.toJson = .ok (Filter.toJson f) := by rw [h']; rfl
  obtain ⟨g, hg, hg', hread⟩ := compile_unambiguous.2 _ _ _ _ _ _ _ hj hj'
  rw [h] at hg
  cases hg
  exact ⟨q .default "now", q .eq "-1d", by decide +kernel, by decide +kernel, hj, hj', h.trans hg'.symm, hread⟩

end CompactSearch.Document

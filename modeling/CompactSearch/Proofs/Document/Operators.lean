/-
Keys that a document store reads as operators. A JSON form that is built as the store expects it has each of these keys
in its own place: `$and` and `$or` over a list of filters, and the others in a condition, behind the name of a field
(`IsFilter`). Every compiled filter is built so, whatever stands for its fields; a field whose name starts with a dollar
sign, however, is read as an operator where a field should stand. The policy can be trusted not to name such a field,
but nothing checks the fields that are typed, so that a search is safe exactly if none of them is an operator
(`search_operators`).
-/
import CompactSearch.Proofs.Document.Meaning

namespace CompactSearch.Document

/-- The store reads the key as an operator. -/
def IsOperator (key : String) : Prop := key.toList.head? = some '$'

instance (key : String) : Decidable (IsOperator key) :=
  inferInstanceAs (Decidable (key.toList.head? = some '$'))

/-! ## Places of keys -/

/-- A JSON form without keys. -/
inductive IsScalar : Json → Prop
  | null : IsScalar .null
  | integer (n : Int) : IsScalar (.integer n)
  | float (x : Binary64) : IsScalar (.float x)
  | string (s : String) : IsScalar (.string s)

/-- An operator of a condition with what it is applied to. -/
inductive IsTest : Json → Prop
  | regex (pattern : String) : IsTest (.object [("$regex", .string pattern)])
  | eq {j : Json} (h : IsScalar j) : IsTest (.object [("$eq", j)])
  | toDate (text : String) : IsTest (.object [("$toDate", .string text)])
  | compare {key : String} {j : Json} (hkey : key ∈ ["$gte", "$gt", "$lte", "$lt"])
    (h : IsScalar j ∨ ∃ text, j = .object [("$toDate", .string text)]) : IsTest (.object [(key, j)])

/-- What can stand behind a field. -/
inductive IsCondition : Json → Prop
  | scalar {j : Json} (h : IsScalar j) : IsCondition j
  | test {j : Json} (h : IsTest j) : IsCondition j
  | not {j : Json} (h : IsTest j) : IsCondition (.object [("$not", j)])

/-- A filter that has each operator in its own place and whose fields all satisfy `F`. -/
inductive IsFilter (F : String → Prop) : Json → Prop
  | field {name : String} {c : Json} (hname : F name) (h : IsCondition c) : IsFilter F (.object [(name, c)])
  | connective {key : String} {js : List Json} (hkey : key ∈ ["$and", "$or"]) (h : ∀ j ∈ js, IsFilter F j) :
    IsFilter F (.object [(key, .array js)])

/-! ## Conditions -/

theorem isScalar_literal (v : Literal) : IsScalar v.toJson := by
  cases v with
  | null => exact .null
  | integer n => exact .integer n
  | float x => exact .float x
  | string s => exact .string s

theorem isTest_compare (c : Comparison) (x : Operand) : IsTest (Condition.compare c x).toJson := by
  have hkey : comparisonKey c ∈ ["$gte", "$gt", "$lte", "$lt"] := by cases c <;> decide
  cases x with
  | literal v => exact .compare hkey (.inl (isScalar_literal v))
  | date text => exact .compare hkey (.inr ⟨text, rfl⟩)

theorem isTest_toOperatorJson (c : Condition) : IsTest c.toOperatorJson := by
  cases c with
  | equals x =>
    cases x with
    | literal v => exact .eq (isScalar_literal v)
    | date text => exact .toDate text
  | like pattern => exact .regex pattern
  | compare c x => exact isTest_compare c x

theorem isCondition_toJson (c : Condition) : IsCondition c.toJson := by
  cases c with
  | equals x =>
    cases x with
    | literal v => exact .scalar (isScalar_literal v)
    | date text => exact .test (.toDate text)
  | like pattern => exact .test (.regex pattern)
  | compare c x => exact .test (isTest_compare c x)

theorem not_isCondition_array (js : List Json) : ¬ IsCondition (.array js) := by
  intro h
  cases h with
  | scalar h => cases h
  | test h => cases h

/-! ## Filters -/

section Filters

variable {F : String → Prop}

theorem isFilter_predicate {p : Predicate} : IsFilter F p.toJson ↔ F p.field := by
  have hc : IsCondition (if p.negated then .object [("$not", p.condition.toOperatorJson)] else p.condition.toJson) := by
    split
    · exact .not (isTest_toOperatorJson _)
    · exact isCondition_toJson _
  unfold Predicate.toJson
  generalize (if p.negated then _ else _) = c at hc
  constructor
  · intro h
    cases h with
    | field hname _ => exact hname
    | connective => exact absurd hc (not_isCondition_array _)
  · exact fun h => .field h hc

theorem isFilter_connective {key : String} {js : List Json} (hkey : key ∈ ["$and", "$or"]) :
    IsFilter F (.object [(key, .array js)]) ↔ ∀ j ∈ js, IsFilter F j := by
  constructor
  · intro h
    cases h with
    | field _ hc => exact absurd hc (not_isCondition_array _)
    | connective _ h => exact h
  · exact .connective hkey

mutual

/-- Whatever its fields are, the JSON form of a filter has each operator in its own place. -/
theorem isFilter_toJson : ∀ {f : Filter}, IsFilter F (Filter.toJson f) ↔ ∀ p ∈ f.atoms, F p.field
  | .atom _ => by
    rw [Formula.atoms, List.forall_mem_singleton]
    exact isFilter_predicate
  | .all _ => (isFilter_connective (by decide)).trans isFilter_toJsonList
  | .any _ => (isFilter_connective (by decide)).trans isFilter_toJsonList

theorem isFilter_toJsonList : ∀ {fs : List Filter},
    (∀ j ∈ Filter.toJsonList fs, IsFilter F j) ↔ ∀ p ∈ Formula.atomsList fs, F p.field
  | [] => by simp [Filter.toJsonList, Formula.atomsList]
  | _ :: _ => by
    rw [Filter.toJsonList, Formula.atomsList, List.forall_mem_cons, List.forall_mem_append, isFilter_toJson,
      isFilter_toJsonList]

end

end Filters

/-! ## Fields of a search -/

/-- The field that a leaf names, if it names one. -/
def leafFields : Leaf → List String
  | .keyed field _ _ _ => [field]
  | .bare _ _ => []

/-- The fields that are typed in a query, in order. -/
def typedFields (q : Query) : List String := q.atoms.flatMap leafFields

section Search

variable {policy : FieldPolicy} {now : Instant} {F : String → Prop}

theorem forall_leafFields {l : Leaf} {f : Filter}
    (hpolicy : ∀ fields, policy.bareFields? = some fields → ∀ name ∈ fields, F name)
    (h : leafFilter policy now l = .ok f) : (∀ p ∈ f.atoms, F p.field) ↔ ∀ name ∈ leafFields l, F name := by
  cases l with
  | keyed field op v negated =>
    cases h
    simp [Formula.atoms, leafFields]
  | bare v negated =>
    obtain ⟨fields, hb, hatoms⟩ := atoms_leafFilter_bare policy now h
    have hfields := hpolicy fields hb
    simpa [hatoms, leafFields] using hfields

/-- The policy's fields apart, the fields of a compiled query are those that are typed in it. -/
theorem forall_typedFields {q : Query} {f : Filter}
    (hpolicy : ∀ fields, policy.bareFields? = some fields → ∀ name ∈ fields, F name)
    (h : compile policy now q = .ok f) : (∀ p ∈ f.atoms, F p.field) ↔ ∀ name ∈ typedFields q, F name := by
  obtain ⟨parts, hparts, hatoms⟩ := Formula.atoms_expand h
  rw [hatoms, typedFields]
  clear hatoms
  generalize q.atoms = leaves at hparts
  induction hparts with
  | nil => simp
  | cons hl _ ih =>
    rw [List.flatMap_cons, List.flatMap_cons, List.forall_mem_append, List.forall_mem_append,
      forall_leafFields hpolicy hl, ih]

end Search

theorem mem_list_of_mem_bareFields {policy : FieldPolicy} {fields : List String}
    (h : policy.bareFields? = some fields) : ∃ role, policy.get role = some fields := by
  obtain ⟨any, isString, isDate⟩ := policy
  match any, isString with
  | some (_ :: _), _ => exact ⟨.any, h⟩
  | none, some (_ :: _) => exact ⟨.isString, h⟩
  | some [], some (_ :: _) => exact ⟨.isString, h⟩
  | none, none | none, some [] | some [], none | some [], some [] => cases h

theorem search_ok {policy : FieldPolicy} {now : Instant} {text : String} {f : Filter}
    (h : search policy now text = .ok f) : ∃ q, parse .document text = .ok q ∧ compile policy now q = .ok f := by
  unfold search at h
  split at h
  · cases h
  · rename_i q hq
    split at h
    · cases h
    · rename_i hf
      cases h
      exact ⟨q, hq, hf⟩

/-- Under a policy that names no operators, every operator in the filter of a search stands in its own place or is a
field that was typed; so no field is read as an operator exactly if no operator was typed as a field. -/
theorem search_operators (policy : FieldPolicy) (now : Instant) (text : String) (f : Filter)
    (hpolicy : ∀ role fields, policy.get role = some fields → ∀ name ∈ fields, ¬ IsOperator name)
    (h : search policy now text = .ok f) :
    ∃ q, parse .document text = .ok q ∧
      IsFilter (fun name => IsOperator name → name ∈ typedFields q) (Filter.toJson f) ∧
      (IsFilter (¬ IsOperator ·) (Filter.toJson f) ↔ ∀ name ∈ typedFields q, ¬ IsOperator name) := by
  obtain ⟨q, hq, hf⟩ := search_ok h
  have hbare : ∀ fields, policy.bareFields? = some fields → ∀ name ∈ fields, ¬ IsOperator name := by
    intro fields hb
    obtain ⟨role, hrole⟩ := mem_list_of_mem_bareFields hb
    exact hpolicy role fields hrole
  have hplaced : ∀ fields, policy.bareFields? = some fields →
      ∀ name ∈ fields, IsOperator name → name ∈ typedFields q :=
    fun fields hb name hname ho => absurd ho (hbare fields hb name hname)
  refine ⟨q, hq, ?_, isFilter_toJson.trans (forall_typedFields hbare hf)⟩
  exact isFilter_toJson.2 ((forall_typedFields hplaced hf).2 fun _ hname _ => hname)

/-- An operator that is typed as a field arrives where the store reads operators. -/
theorem search_operator_typed :
    ∃ f, search .empty ⟨0, 0⟩ "$where=this.admin" = .ok f ∧
      Filter.toJson f = .object [("$where", .string "this.admin")] ∧
      ¬ IsFilter (¬ IsOperator ·) (Filter.toJson f) := by
  refine ⟨.atom ⟨"$where", .equals (.literal (.string "this.admin")), false⟩, by decide +kernel, rfl, fun h => ?_⟩
  exact isFilter_toJson.1 h _ List.mem_cons_self (by decide)

/-- A bare value, and an operator behind a sign of negation. -/
theorem search_operators_or :
    let policy : FieldPolicy := { any := some ["name"] }
    let q : Query := .all [.atom (.bare (.string "a") false), .atom (.keyed "$or" .gt (.string "b") true)]
    let f : Filter := .all [.any [.atom ⟨"name", .like "a", false⟩],
      .atom ⟨"$or", .compare .gt (.literal (.string "b")), true⟩]
    (∀ role fields, policy.get role = some fields → ∀ name ∈ fields, ¬ IsOperator name) ∧
      search policy ⟨0, 0⟩ "a -$or>b" = .ok f ∧ parse .document "a -$or>b" = .ok q ∧
      IsFilter (fun name => IsOperator name → name ∈ typedFields q) (Filter.toJson f) := by
  intro policy q f
  have hpolicy : ∀ role fields, policy.get role = some fields → ∀ name ∈ fields, ¬ IsOperator name := by
    intro role fields h
    cases role with
    | any => cases h; decide
    | isString | isDate => cases h
  have hf : search policy ⟨0, 0⟩ "a -$or>b" = .ok f := by decide +kernel
  have hq : parse .document "a -$or>b" = .ok q := by decide +kernel
  obtain ⟨q', hq', hplaced, -⟩ := search_operators policy ⟨0, 0⟩ _ f hpolicy hf
  rw [hq] at hq'
  cases hq'
  exact ⟨hpolicy, hf, hq, hplaced⟩

end CompactSearch.Document

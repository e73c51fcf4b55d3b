/-
Queries as filters of a document store. A keyed leaf becomes one condition; a bare leaf asks each of the policy's bare
fields and holds if one of them does, so its negation asks that none does. A text that is looked for inside a field
becomes a pattern in which no character means more than itself.
-/
import CompactSearch.Document.Filter
import CompactSearch.Policy.Basic
import CompactSearch.Query.Grammar
import CompactSearch.Search.Error
import CompactSearch.Time.Relative

namespace CompactSearch.Document

/-! ## Patterns -/

/-- Whether a character means more than itself in a regular expression. -/
def isMeta (c : Char) : Bool := "\\.+*?()|[]\x7b\x7d^$#&-~".toList.contains c

/-- The pattern of a list of characters: a backslash in front of each that has a meaning of its own. -/
def escapeChars : List Char → List Char
  | [] => []
  | c :: cs => if isMeta c then '\\' :: c :: escapeChars cs else c :: escapeChars cs

/-- The pattern that matches exactly the given text. -/
def literalPattern (s : String) : String := String.ofList (escapeChars s.toList)

/-! ## Leaves -/

/-- The text that a date field is compared with: the instant that a relative date means, or else what was typed. -/
def dateText (now : Instant) (v : Value) : String :=
  match v with
  | .string s =>
    match RelativeDate.resolve? s now with
    | some t => t.iso
    | none => s
  | _ => v.text

/-- The condition of a field, an operator and a value. Null is always compared for equality, a date field casts every
other value, and the colon matches a string field by pattern. -/
def keyedCondition (policy : FieldPolicy) (now : Instant) (field : String) (op : Operator) (v : Value) : Condition :=
  if v.isNull then .equals (.literal .null)
  else if !policy.isDateField field && op == .default && policy.isStringField field then
    .like (literalPattern v.text)
  else
    let operand :=
      if policy.isDateField field then Operand.date (dateText now v) else .literal (.ofValue v)
    match op.comparison? with
    | some c => .compare c operand
    | none => .equals operand

/-- The condition of a bare value on one of the bare fields. -/
def bareCondition (policy : FieldPolicy) (field : String) (v : Value) : Condition :=
  if !v.isNull && policy.isStringField field then .like (literalPattern v.text)
  else .equals (.literal (.ofValue v))

/-- The filter of one leaf. -/
def leafFilter (policy : FieldPolicy) (now : Instant) : Leaf → Except NoBareFields Filter
  | .keyed field op v negated => .ok (.atom ⟨field, keyedCondition policy now field op v, negated⟩)
  | .bare v negated =>
    match policy.bareFields? with
    | none => .error ⟨v.text⟩
    | some fields =>
      let parts := fields.map fun field => Formula.atom ⟨field, bareCondition policy field v, negated⟩
      .ok (if negated then .all parts else .any parts)

/-! ## Queries -/

/-- The filter of a query; only a bare leaf that the policy cannot answer has none. -/
def compile (policy : FieldPolicy) (now : Instant) (q : Query) : Except NoBareFields Filter :=
  q.expand (leafFilter policy now)

/-- The filter of a search text. -/
def search (policy : FieldPolicy) (now : Instant) (text : String) : Except SearchError Filter :=
  match parse .document text with
  | .error e => .error (.malformed e)
  | .ok q =>
    match compile policy now q with
    | .error e => .error (.unanswerable e)
    | .ok f => .ok f

end CompactSearch.Document

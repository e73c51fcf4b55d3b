/-
Queries as SQL conditions. A query becomes a formula over clauses first, each with the value that it binds, and the
formula is then written out with a fresh placeholder for each bound value, from left to right.
-/
import CompactSearch.Formula
import CompactSearch.Policy.Basic
import CompactSearch.Query.Grammar
import CompactSearch.Search.Error
import CompactSearch.Sql.Condition
import CompactSearch.Time.Relative

namespace CompactSearch.Sql

/-! ## Column names -/

def isNameStart (c : Char) : Bool := c.isAlpha || c == '_'

def isNameChar (c : Char) : Bool := c.isAlphanum || c == '_'

/-- Whether a list of characters is one or more identifiers with points between them. `start` says that an identifier
has to start here. -/
def isColumnFrom (start : Bool) : List Char → Bool
  | [] => !start
  | c :: cs =>
    if start then isNameStart c && isColumnFrom false cs
    else if c = '.' then isColumnFrom true cs
    else isNameChar c && isColumnFrom false cs

/-- Whether a field can be written into the text of a condition as a column. -/
def isColumn (field : String) : Bool := isColumnFrom true field.toList

/-! ## Clauses -/

/-- A condition on one column. -/
inductive Clause where
  /-- The column contains a text. -/
  | contains (field : String) (text : String)
  | compare (field : String) (op : Operator) (v : Bound)
  | isNull (field : String)
deriving DecidableEq, Repr

/-- A formula over clauses. -/
abbrev Filter := Formula Clause

/-- When a relative date on a date field replaces the operator that was typed by `<=`. -/
inductive DateOverride where
  | always
  /-- Only a colon is replaced. -/
  | defaultOperatorOnly
deriving DecidableEq, Repr

namespace DateOverride

def name : DateOverride → String
  | always => "always"
  | defaultOperatorOnly => "defaultOperatorOnly"

def ofName? (s : String) : Option DateOverride := [always, defaultOperatorOnly].find? (·.name == s)

/-- The operator that compares with a relative date. -/
def operator (o : DateOverride) (op : Operator) : Operator :=
  match o, op with
  | always, _ => .lte
  | defaultOperatorOnly, .default => .lte
  | defaultOperatorOnly, op => op

end DateOverride

/-- What decides how a leaf is compiled. -/
structure Settings where
  policy : FieldPolicy
  dateOverride : DateOverride
  now : Instant
deriving Repr

namespace Settings

/-- The instant that a value of a field means, if the field holds dates and the value is a relative date. -/
def relativeDate? (s : Settings) (field : String) (v : Value) : Option Instant :=
  match v with
  | .string text => if s.policy.isDateField field then RelativeDate.resolve? text s.now else none
  | _ => none

/-- The clause of a field, an operator and a value. -/
def keyedClause (s : Settings) (field : String) (op : Operator) (v : Value) : Clause :=
  if v.isNull then .isNull field
  else
    match s.relativeDate? field v with
    | some t => .compare field (s.dateOverride.operator op) (.text t.iso)
    | none =>
      if op == .default && s.policy.isStringField field then .contains field v.text
      else .compare field op (.ofValue v)

/-- The clause of a bare value on one of the bare fields. -/
def bareClause (s : Settings) (field : String) (v : Value) : Clause :=
  if v.isNull then .isNull field
  else if s.policy.isStringField field then .contains field v.text
  else .compare field .eq (.ofValue v)

/-- The formula of one leaf; negation has no meaning here. -/
def leafFilter (s : Settings) : Leaf → Except SearchError Filter
  | .keyed field op v _ =>
    if isColumn field then .ok (.atom (s.keyedClause field op v)) else .error (.invalidField field)
  | .bare v _ =>
    match s.policy.bareFields? with
    | none => .error (.unanswerable ⟨v.text⟩)
    | some fields => .ok (.any (fields.map fun field => .atom (s.bareClause field v)))

/-- The formula of a query; the leftmost leaf that has none decides the error. -/
def filter (s : Settings) (q : Query) : Except SearchError Filter := q.expand s.leafFilter

end Settings

/-! ## Writing out -/

namespace Clause

/-- The condition of a clause, with the placeholder it needs. -/
def write (ids : Placeholders) : Clause → Condition × Placeholders
  | contains field text => Condition.like field text .substring ids
  | compare field op v => Condition.compare field op v ids
  | isNull field => (Condition.isNull field, ids)

end Clause

mutual

/-- The condition of a formula, with placeholders numbered from left to right. -/
def Filter.write (ids : Placeholders) : Filter → Condition × Placeholders
  | .atom c => c.write ids
  | .all fs =>
    let (cs, ids') := Filter.writeList ids fs
    (Condition.all cs, ids')
  | .any fs =>
    let (cs, ids') := Filter.writeList ids fs
    (Condition.any cs, ids')

/-- The conditions of the parts of a formula. -/
def Filter.writeList (ids : Placeholders) : List Filter → List Condition × Placeholders
  | [] => ([], ids)
  | f :: fs =>
    let (c, ids') := Filter.write ids f
    let (cs, ids'') := Filter.writeList ids' fs
    (c :: cs, ids'')

end

/-- The condition of a query, with placeholders of the given batch. -/
def compile (s : Settings) (batch : String) (q : Query) : Except SearchError Condition :=
  (s.filter q).map fun f => (Filter.write ⟨batch, 0⟩ f).1

/-! ## Search -/

/-- The condition of a search text. What is missing, empty, not a query, or names a field that is no column restricts
nothing; a policy that cannot answer a bare value is an error of its own. -/
def search (s : Settings) (batch : String) (text : Option String) : Except NoBareFields Condition :=
  match text with
  | none => .ok .tautology
  | some t =>
    if t.isEmpty then .ok .tautology
    else
      match parse .relational t with
      | .error _ => .ok .tautology
      | .ok q =>
        match compile s batch q with
        | .ok c => .ok c
        | .error (.unanswerable e) => .error e
        | .error _ => .ok .tautology

end CompactSearch.Sql

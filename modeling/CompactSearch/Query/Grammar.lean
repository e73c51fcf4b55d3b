/-
The grammar of queries, read token by token by a machine that keeps the open groups on a stack:

  disjunction = conjunction (" OR " conjunction)*
  conjunction = atom (" " atom)*
  atom        = "(" disjunction ")" | leaf
  leaf        = ["-"] value [operator value]

One conjunct or disjunct stands for itself, two or more make one flat formula, and a group is never merged into the
formula around it. After every prefix of a query the machine is in a state from which the query can be finished.
-/
import CompactSearch.Query.Leaf
import CompactSearch.Query.Lexer

namespace CompactSearch

/-! ## Formulas of one or more parts -/

/-- The conjunction of the parts; a single part stands for itself. -/
def conjoin : List Query → Query
  | [q] => q
  | qs => .all qs

/-- The disjunction of the parts; a single part stands for itself. -/
def disjoin : List Query → Query
  | [q] => q
  | qs => .any qs

namespace Grammar

/-- The greatest number of groups open at once. -/
def maxDepth : Nat := 128

/-! ## States -/

/-- The parts of a disjunction read so far: its finished disjuncts and the conjuncts of the one being read, the newest
first in both. -/
structure Level where
  disjuncts : List Query
  conjuncts : List Query
deriving DecidableEq, Repr

/-- What has been read of the current atom. -/
inductive Phase where
  /-- Nothing: an atom has to follow. -/
  | start
  /-- A dash: a value has to follow. -/
  | negated
  /-- A value, which may yet turn out to be a field. -/
  | first (negated : Bool) (v : Value)
  /-- A field and an operator: a value has to follow. -/
  | keyed (negated : Bool) (field : String) (op : Operator)
  /-- All of it. -/
  | complete
deriving DecidableEq, Repr

/-- The state of the machine. `enclosing` holds, innermost first, the position of each open parenthesis with the level
around it. -/
structure State where
  phase : Phase
  level : Level
  enclosing : List (Nat × Level)
deriving DecidableEq, Repr

namespace Level

def empty : Level := ⟨[], []⟩

/-- Adds a finished atom to the current conjunction. -/
def addAtom (l : Level) (q : Query) : Level := { l with conjuncts := q :: l.conjuncts }

/-- Ends the current conjunction. -/
def endDisjunct (l : Level) : Level := ⟨conjoin l.conjuncts.reverse :: l.disjuncts, []⟩

/-- The disjunction that the level holds when it ends here. -/
def formula (l : Level) : Query := disjoin l.endDisjunct.disjuncts.reverse

end Level

namespace State

def initial : State := ⟨.start, .empty, []⟩

/-- The level with the current atom, for a state in which the atom may end. -/
def closedLevel (s : State) : Level :=
  match s.phase with
  | .first negated v => s.level.addAtom (.atom (.bare v negated))
  | _ => s.level

/-! ## Transitions -/

/-- The state after a token that follows a finished atom. -/
def afterAtom (s : State) (t : Placed) : Except ParseError State :=
  match t.token, s.enclosing with
  | .space, _ => .ok ⟨.start, s.closedLevel, s.enclosing⟩
  | .or, _ => .ok ⟨.start, s.closedLevel.endDisjunct, s.enclosing⟩
  | .closeGroup, (_, outer) :: rest => .ok ⟨.complete, outer.addAtom s.closedLevel.formula, rest⟩
  | _, [] => .error (.trailingInput t.position (.token t.token))
  | _, _ :: _ => .error (.unexpected t.position (.token t.token) .closeGroup)

/-- The state after one more token. -/
def step (s : State) (t : Placed) : Except ParseError State :=
  match s.phase, t.token with
  | .start, .openGroup =>
    if s.enclosing.length = maxDepth then .error (.tooDeep t.position)
    else .ok ⟨.start, .empty, (t.position, s.level) :: s.enclosing⟩
  | .start, .minus => .ok { s with phase := .negated }
  | .start, .value v => .ok { s with phase := .first false v }
  | .negated, .value v => .ok { s with phase := .first true v }
  | .first negated v, .op o => .ok { s with phase := .keyed negated v.text o }
  | .keyed negated field o, .value v =>
    .ok { s with phase := .complete, level := s.level.addAtom (.atom (.keyed field o v negated)) }
  | .start, tok | .negated, tok | .keyed _ _ _, tok => .error (.unexpected t.position (.token tok) .value)
  | .first _ _, _ | .complete, _ => s.afterAtom t

/-- The states after a list of tokens. -/
def run : State → List Placed → Except ParseError State
  | s, [] => .ok s
  | s, t :: ts =>
    match s.step t with
    | .error e => .error e
    | .ok s' => s'.run ts

/-- The query, if the text may end here. -/
def finish (s : State) : Except ParseError Query :=
  match s.phase, s.enclosing with
  | .first _ _, [] | .complete, [] => .ok s.closedLevel.formula
  | .first _ _, (p, _) :: _ | .complete, (p, _) :: _ => .error (.unclosedGroup p)
  | _, _ => .error (.unexpectedEnd .value)

end State

/-- The query that a list of tokens derives. -/
def parseTokens : List Placed → Except ParseError Query
  | [] => .error .empty
  | ts =>
    match State.initial.run ts with
    | .error e => .error e
    | .ok s => s.finish

end Grammar

/-- The query that a text spells in a dialect. -/
def parse (d : Dialect) (s : String) : Except ParseError Query :=
  match Lexer.tokens d s with
  | .error e => .error e
  | .ok ts => Grammar.parseTokens ts

end CompactSearch

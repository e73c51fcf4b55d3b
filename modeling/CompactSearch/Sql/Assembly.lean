/-
Conditions put together step by step on a stack, all from one supply of placeholders.
-/
import CompactSearch.Sql.Condition

namespace CompactSearch.Sql

/-- One step of an assembly. -/
inductive Step where
  /-- Takes a placeholder name without using it in a condition. -/
  | nextId
  | like (field value : String) (w : Wildcards)
  | compare (field : String) (op : Operator) (v : Bound)
  | isNull (field : String)
  | text (s : String)
  | tautology
  /-- Replaces the last `count` conditions by their conjunction. -/
  | all (count : Nat)
  /-- Replaces the last `count` conditions by their disjunction. -/
  | any (count : Nat)
deriving DecidableEq, Repr

/-- The conditions on the stack, the last one first, and the supply of placeholders. -/
structure Assembly where
  ids : Placeholders
  stack : List Condition
deriving DecidableEq, Repr

namespace Assembly

def initial (batch : String) : Assembly := ⟨⟨batch, 0⟩, []⟩

def push (a : Assembly) (c : Condition) : Assembly := { a with stack := c :: a.stack }

/-- Replaces the last `count` conditions, oldest first, by what `join` makes of them. -/
def combine (a : Assembly) (count : Nat) (join : List Condition → Condition) : Assembly :=
  ⟨a.ids, join (a.stack.take count).reverse :: a.stack.drop count⟩

def step (a : Assembly) : Step → Assembly
  | .nextId => { a with ids := a.ids.next.2 }
  | .like field value w =>
    let (c, ids) := Condition.like field value w a.ids
    ⟨ids, c :: a.stack⟩
  | .compare field op v =>
    let (c, ids) := Condition.compare field op v a.ids
    ⟨ids, c :: a.stack⟩
  | .isNull field => a.push (Condition.isNull field)
  | .text s => a.push (Condition.ofText s)
  | .tautology => a.push Condition.tautology
  | .all count => a.combine count Condition.all
  | .any count => a.combine count Condition.any

/-- The assembly after a list of steps. -/
def run (a : Assembly) (steps : List Step) : Assembly := steps.foldl step a

end Assembly

end CompactSearch.Sql

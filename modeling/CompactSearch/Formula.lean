/-
Formulas of conjunctions and disjunctions over atoms of any kind. A parsed query, a document filter
and an SQL filter are formulas that differ in their atoms only, so what the three share is said here
once: the atoms in reading order, the value under an assignment, and the replacement of every atom
by a formula.
-/
namespace CompactSearch

/-- A formula over atoms `α`; conjunctions and disjunctions have any number of parts, in order. -/
inductive Formula (α : Type) where
  | atom (a : α)
  | all (parts : List (Formula α))
  | any (parts : List (Formula α))
deriving Repr

namespace Formula

variable {α β ε : Type}

/-! ## Equality -/

mutual

/-- Structural equality. -/
def beq [BEq α] : Formula α → Formula α → Bool
  | atom a, atom b => a == b
  | all ps, all qs => beqList ps qs
  | any ps, any qs => beqList ps qs
  | _, _ => false

/-- Structural equality, part by part. -/
def beqList [BEq α] : List (Formula α) → List (Formula α) → Bool
  | [], [] => true
  | p :: ps, q :: qs => beq p q && beqList ps qs
  | _, _ => false

end

mutual

theorem beq_eq_true_iff [BEq α] [LawfulBEq α] : ∀ f g : Formula α, beq f g = true ↔ f = g
  | atom a, atom b => by simp [beq]
  | all ps, all qs => by simp [beq, beqList_eq_true_iff ps qs]
  | any ps, any qs => by simp [beq, beqList_eq_true_iff ps qs]
  | atom _, all _ | atom _, any _ | all _, atom _ | all _, any _ | any _, atom _ | any _, all _ => by
    simp [beq]

theorem beqList_eq_true_iff [BEq α] [LawfulBEq α] :
    ∀ ps qs : List (Formula α), beqList ps qs = true ↔ ps = qs
  | [], [] => by simp [beqList]
  | p :: ps, q :: qs => by simp [beqList, beq_eq_true_iff p q, beqList_eq_true_iff ps qs]
  | [], _ :: _ | _ :: _, [] => by simp [beqList]

end

instance [DecidableEq α] : DecidableEq (Formula α) := fun f g =>
  decidable_of_iff (beq f g = true) (beq_eq_true_iff f g)

/-! ## Atoms -/

mutual

/-- The atoms from left to right. -/
def atoms : Formula α → List α
  | atom a => [a]
  | all ps => atomsList ps
  | any ps => atomsList ps

/-- The atoms of a list of formulas from left to right. -/
def atomsList : List (Formula α) → List α
  | [] => []
  | p :: ps => atoms p ++ atomsList ps

end

/-- The number of atoms. -/
def atomCount (f : Formula α) : Nat := f.atoms.length

/-! ## Value -/

mutual

/-- The truth value under an assignment of truth values to atoms. -/
def eval (v : α → Bool) : Formula α → Bool
  | atom a => v a
  | all ps => evalAll v ps
  | any ps => evalAny v ps

/-- Whether every part holds. -/
def evalAll (v : α → Bool) : List (Formula α) → Bool
  | [] => true
  | p :: ps => eval v p && evalAll v ps

/-- Whether some part holds. -/
def evalAny (v : α → Bool) : List (Formula α) → Bool
  | [] => false
  | p :: ps => eval v p || evalAny v ps

end

/-! ## Replacement of atoms -/

mutual

/-- Replaces every atom by the formula that `f` gives for it. Atoms are visited from left to right
and the first one that `f` refuses decides the error. -/
def expand (f : α → Except ε (Formula β)) : Formula α → Except ε (Formula β)
  | atom a => f a
  | all ps => (expandList f ps).map all
  | any ps => (expandList f ps).map any

/-- Replaces the atoms of each formula of a list, from left to right. -/
def expandList (f : α → Except ε (Formula β)) : List (Formula α) → Except ε (List (Formula β))
  | [] => .ok []
  | p :: ps =>
    match expand f p with
    | .error e => .error e
    | .ok q => (expandList f ps).map (q :: ·)

end

end Formula

end CompactSearch

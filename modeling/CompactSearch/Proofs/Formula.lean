/-
Laws of formulas: mapping atoms keeps their order and the value, a formula whose atoms are replaced by formulas takes
its atoms and its value from the replacements, and the leftmost atom that has no replacement decides the error.
-/
import CompactSearch.Formula
import Mathlib.Data.List.Forall2

namespace CompactSearch.Formula

variable {α β γ ε : Type}

/-! ## Mapping -/

mutual

/-- Replaces every atom by another one. -/
def map (g : α → β) : Formula α → Formula β
  | atom a => atom (g a)
  | all ps => all (mapList g ps)
  | any ps => any (mapList g ps)

/-- Replaces every atom of the parts. -/
def mapList (g : α → β) : List (Formula α) → List (Formula β)
  | [] => []
  | p :: ps => map g p :: mapList g ps

end

theorem mapList_eq_map (g : α → β) : ∀ ps : List (Formula α), mapList g ps = ps.map (map g)
  | [] => rfl
  | p :: ps => by rw [mapList, mapList_eq_map g ps, List.map_cons]

mutual

theorem atoms_map (g : α → β) : ∀ f : Formula α, (f.map g).atoms = f.atoms.map g
  | atom _ => rfl
  | all ps => atomsList_map g ps
  | any ps => atomsList_map g ps

theorem atomsList_map (g : α → β) : ∀ ps : List (Formula α), atomsList (mapList g ps) = (atomsList ps).map g
  | [] => rfl
  | p :: ps => by rw [mapList, atomsList, atomsList, atoms_map g p, atomsList_map g ps, List.map_append]

end

mutual

theorem eval_map (v : β → Bool) (g : α → β) : ∀ f : Formula α, (f.map g).eval v = f.eval (v ∘ g)
  | atom _ => rfl
  | all ps => evalAll_map v g ps
  | any ps => evalAny_map v g ps

theorem evalAll_map (v : β → Bool) (g : α → β) :
    ∀ ps : List (Formula α), evalAll v (mapList g ps) = evalAll (v ∘ g) ps
  | [] => rfl
  | p :: ps => by rw [mapList, evalAll, evalAll, eval_map v g p, evalAll_map v g ps]

theorem evalAny_map (v : β → Bool) (g : α → β) :
    ∀ ps : List (Formula α), evalAny v (mapList g ps) = evalAny (v ∘ g) ps
  | [] => rfl
  | p :: ps => by rw [mapList, evalAny, evalAny, eval_map v g p, evalAny_map v g ps]

end

mutual

theorem map_map (g : α → β) (h : β → γ) : ∀ f : Formula α, (f.map g).map h = f.map (h ∘ g)
  | atom _ => rfl
  | all ps => congrArg all (mapList_map g h ps)
  | any ps => congrArg any (mapList_map g h ps)

theorem mapList_map (g : α → β) (h : β → γ) :
    ∀ ps : List (Formula α), mapList h (mapList g ps) = mapList (h ∘ g) ps
  | [] => rfl
  | p :: ps => by rw [mapList, mapList, mapList, map_map g h p, mapList_map g h ps]

end

/-! ## Connectives of atoms -/

theorem atomsList_atoms (g : α → β) : ∀ xs : List α, atomsList (xs.map fun x => atom (g x)) = xs.map g
  | [] => rfl
  | x :: xs => by rw [List.map_cons, List.map_cons, atomsList, atomsList_atoms g xs, atoms, List.singleton_append]

theorem evalAll_atoms (v : β → Bool) (g : α → β) :
    ∀ xs : List α, evalAll v (xs.map fun x => atom (g x)) = (xs.map g).all v
  | [] => rfl
  | x :: xs => by rw [List.map_cons, List.map_cons, evalAll, evalAll_atoms v g xs, List.all_cons, eval]

theorem evalAny_atoms (v : β → Bool) (g : α → β) :
    ∀ xs : List α, evalAny v (xs.map fun x => atom (g x)) = (xs.map g).any v
  | [] => rfl
  | x :: xs => by rw [List.map_cons, List.map_cons, evalAny, evalAny_atoms v g xs, List.any_cons, eval]

/-! ## Connectives of one part -/

/-- A connective over parts; a single part stands for itself. -/
def joined (k : List (Formula α) → Formula α) : List (Formula α) → Formula α
  | [p] => p
  | ps => k ps

theorem eval_joined_all (v : α → Bool) (ps : List (Formula α)) : (joined all ps).eval v = evalAll v ps := by
  match ps with
  | [] => rfl
  | [p] => rw [joined, evalAll, evalAll, Bool.and_true]
  | _ :: _ :: _ => rfl

theorem eval_joined_any (v : α → Bool) (ps : List (Formula α)) : (joined any ps).eval v = evalAny v ps := by
  match ps with
  | [] => rfl
  | [p] => rw [joined, evalAny, evalAny, Bool.or_false]
  | _ :: _ :: _ => rfl

theorem atoms_joined {k : List (Formula α) → Formula α} (hk : ∀ ps, (k ps).atoms = atomsList ps)
    (ps : List (Formula α)) : (joined k ps).atoms = atomsList ps := by
  match ps with
  | [] => exact hk []
  | [p] => rw [joined, atomsList, atomsList, List.append_nil]
  | p :: q :: ps => exact hk (p :: q :: ps)

mutual

/-- The formula without connectives of one part. -/
def collapse : Formula α → Formula α
  | atom a => atom a
  | all ps => joined all (collapseList ps)
  | any ps => joined any (collapseList ps)

/-- The parts without connectives of one part. -/
def collapseList : List (Formula α) → List (Formula α)
  | [] => []
  | p :: ps => collapse p :: collapseList ps

end

mutual

theorem eval_collapse (v : α → Bool) : ∀ f : Formula α, f.collapse.eval v = f.eval v
  | atom _ => rfl
  | all ps => by rw [collapse, eval_joined_all, eval, (evalList_collapse v ps).1]
  | any ps => by rw [collapse, eval_joined_any, eval, (evalList_collapse v ps).2]

theorem evalList_collapse (v : α → Bool) : ∀ ps : List (Formula α),
    evalAll v (collapseList ps) = evalAll v ps ∧ evalAny v (collapseList ps) = evalAny v ps
  | [] => ⟨rfl, rfl⟩
  | p :: ps => by
    obtain ⟨hall, hany⟩ := evalList_collapse v ps
    rw [collapseList, evalAll, evalAll, evalAny, evalAny, eval_collapse v p, hall, hany]
    exact ⟨rfl, rfl⟩

end

mutual

theorem atoms_collapse : ∀ f : Formula α, f.collapse.atoms = f.atoms
  | atom _ => rfl
  | all ps => by rw [collapse, atoms_joined (fun _ => rfl), atomsList_collapse ps, atoms]
  | any ps => by rw [collapse, atoms_joined (fun _ => rfl), atomsList_collapse ps, atoms]

theorem atomsList_collapse : ∀ ps : List (Formula α), atomsList (collapseList ps) = atomsList ps
  | [] => rfl
  | p :: ps => by rw [collapseList, atomsList, atomsList, atoms_collapse p, atomsList_collapse ps]

end

/-! ## Shape -/

mutual

/-- Every connective has two parts or more. -/
def Branching : Formula α → Prop
  | atom _ => True
  | all ps => 2 ≤ ps.length ∧ BranchingList ps
  | any ps => 2 ≤ ps.length ∧ BranchingList ps

/-- Every connective of the parts has two parts or more. -/
def BranchingList : List (Formula α) → Prop
  | [] => True
  | p :: ps => Branching p ∧ BranchingList ps

end

mutual

instance decidableBranching : ∀ f : Formula α, Decidable f.Branching
  | atom _ => isTrue trivial
  | all ps => @instDecidableAnd _ _ _ (decidableBranchingList ps)
  | any ps => @instDecidableAnd _ _ _ (decidableBranchingList ps)

instance decidableBranchingList : ∀ ps : List (Formula α), Decidable (BranchingList ps)
  | [] => isTrue trivial
  | p :: ps => @instDecidableAnd _ _ (decidableBranching p) (decidableBranchingList ps)

end

mutual

/-- The greatest number of connectives inside each other. -/
def height : Formula α → Nat
  | atom _ => 0
  | all ps => heightList ps + 1
  | any ps => heightList ps + 1

/-- The greatest number of connectives inside each other in the parts. -/
def heightList : List (Formula α) → Nat
  | [] => 0
  | p :: ps => max (height p) (heightList ps)

end

theorem branchingList_iff : ∀ {ps : List (Formula α)}, BranchingList ps ↔ ∀ p ∈ ps, p.Branching
  | [] => by simp [BranchingList]
  | p :: ps => by rw [BranchingList, branchingList_iff, List.forall_mem_cons]

theorem mem_atomsList {a : α} : ∀ {ps : List (Formula α)}, a ∈ atomsList ps ↔ ∃ p ∈ ps, a ∈ p.atoms
  | [] => by simp [atomsList]
  | p :: ps => by
    have ih := @mem_atomsList a ps
    simp [atomsList, ih]

/-! ## Replacement -/

theorem expandList_cons_ok {f : α → Except ε (Formula β)} {p : Formula α} {ps : List (Formula α)}
    {gs : List (Formula β)} :
    expandList f (p :: ps) = .ok gs ↔ ∃ g gs', expand f p = .ok g ∧ expandList f ps = .ok gs' ∧ gs = g :: gs' := by
  rw [expandList]
  cases expand f p with
  | error e => simp
  | ok g =>
    cases expandList f ps with
    | error e => simp [Except.map]
    | ok gs' => simp [Except.map, eq_comm]

theorem map_ok {x : Except ε α} {g : α → β} {b : β} (h : x.map g = .ok b) : ∃ a, x = .ok a ∧ b = g a := by
  cases x with
  | error e => cases h
  | ok a => cases h; exact ⟨a, rfl, rfl⟩

mutual

/-- The atoms after a replacement are those of the replacements, in the order of the atoms replaced. -/
theorem atoms_expand {f : α → Except ε (Formula β)} :
    ∀ {q : Formula α} {g : Formula β}, q.expand f = .ok g →
      ∃ parts, List.Forall₂ (fun a p => f a = .ok p) q.atoms parts ∧ g.atoms = parts.flatMap atoms
  | atom a, g, h => ⟨[g], .cons h .nil, (List.flatMap_singleton ..).symm⟩
  | all ps, _, h => by
    obtain ⟨gs, hg, rfl⟩ := map_ok h
    exact atomsList_expand hg
  | any ps, _, h => by
    obtain ⟨gs, hg, rfl⟩ := map_ok h
    exact atomsList_expand hg

theorem atomsList_expand {f : α → Except ε (Formula β)} :
    ∀ {ps : List (Formula α)} {gs : List (Formula β)}, expandList f ps = .ok gs →
      ∃ parts, List.Forall₂ (fun a p => f a = .ok p) (atomsList ps) parts ∧ atomsList gs = parts.flatMap atoms
  | [], _, h => by
    cases h
    exact ⟨[], .nil, rfl⟩
  | p :: ps, _, h => by
    obtain ⟨g, gs, hp, hps, rfl⟩ := expandList_cons_ok.1 h
    obtain ⟨xs, hx, ex⟩ := atoms_expand hp
    obtain ⟨ys, hy, ey⟩ := atomsList_expand hps
    exact ⟨xs ++ ys, List.rel_append hx hy, by rw [atomsList, ex, ey, List.flatMap_append]⟩

end

mutual

/-- The value after a replacement, where each atom had the value of what replaces it. -/
theorem eval_expand {f : α → Except ε (Formula β)} {v : β → Bool} {w : α → Bool} :
    ∀ {q : Formula α} {g : Formula β}, q.expand f = .ok g →
      (∀ a ∈ q.atoms, ∀ p, f a = .ok p → p.eval v = w a) → g.eval v = q.eval w
  | atom a, g, h, hw => hw a (List.mem_singleton_self a) g h
  | all ps, _, h, hw => by
    obtain ⟨gs, hg, rfl⟩ := map_ok h
    exact (evalList_expand hg hw).1
  | any ps, _, h, hw => by
    obtain ⟨gs, hg, rfl⟩ := map_ok h
    exact (evalList_expand hg hw).2

theorem evalList_expand {f : α → Except ε (Formula β)} {v : β → Bool} {w : α → Bool} :
    ∀ {ps : List (Formula α)} {gs : List (Formula β)}, expandList f ps = .ok gs →
      (∀ a ∈ atomsList ps, ∀ p, f a = .ok p → p.eval v = w a) →
        evalAll v gs = evalAll w ps ∧ evalAny v gs = evalAny w ps
  | [], _, h, _ => by
    cases h
    exact ⟨rfl, rfl⟩
  | p :: ps, _, h, hw => by
    obtain ⟨g, gs, hp, hps, rfl⟩ := expandList_cons_ok.1 h
    have hg := eval_expand hp fun a ha => hw a (List.mem_append_left _ ha)
    obtain ⟨hall, hany⟩ := evalList_expand hps fun a ha => hw a (List.mem_append_right _ ha)
    rw [evalAll, evalAll, evalAny, evalAny, hg, hall, hany]
    exact ⟨rfl, rfl⟩

end

mutual

/-- Mapping the atoms after a replacement is a part of the replacement. -/
theorem map_expand (f : α → Except ε (Formula β)) (g : β → γ) :
    ∀ q : Formula α, (q.expand f).map (map g) = q.expand fun a => (f a).map (map g)
  | atom _ => rfl
  | all ps | any ps => by
    rw [expand, expand, ← mapList_expandList f g ps]
    cases expandList f ps <;> rfl

theorem mapList_expandList (f : α → Except ε (Formula β)) (g : β → γ) : ∀ ps : List (Formula α),
    (expandList f ps).map (mapList g) = expandList (fun a => (f a).map (map g)) ps
  | [] => rfl
  | p :: ps => by
    rw [expandList, expandList, ← map_expand f g p, ← mapList_expandList f g ps]
    cases expand f p with
    | error e => rfl
    | ok q => cases expandList f ps <;> rfl

end

/-- The error of a result, if it is one. -/
def error? {δ : Type} : Except ε δ → Option ε
  | .error e => some e
  | .ok _ => none

theorem error?_eq_some_iff {δ : Type} {x : Except ε δ} {e : ε} : error? x = some e ↔ x = .error e := by
  cases x <;> simp [error?]

theorem error?_eq_none_iff {δ : Type} {x : Except ε δ} : error? x = none ↔ ∃ y, x = .ok y := by
  cases x <;> simp [error?]

theorem error?_map {δ δ' : Type} (x : Except ε δ) (g : δ → δ') : error? (x.map g) = error? x := by
  cases x <;> rfl

mutual

/-- The error of a replacement is that of the leftmost atom that has no replacement. -/
theorem error?_expand (f : α → Except ε (Formula β)) :
    ∀ q : Formula α, error? (q.expand f) = q.atoms.findSome? fun a => error? (f a)
  | atom a => by
    rw [expand, atoms, List.findSome?_cons]
    cases f a <;> rfl
  | all ps => by rw [expand, error?_map, error?_expandList f ps, atoms]
  | any ps => by rw [expand, error?_map, error?_expandList f ps, atoms]

theorem error?_expandList (f : α → Except ε (Formula β)) :
    ∀ ps : List (Formula α), error? (expandList f ps) = (atomsList ps).findSome? fun a => error? (f a)
  | [] => rfl
  | p :: ps => by
    rw [expandList, atomsList, List.findSome?_append, ← error?_expand f p, ← error?_expandList f ps]
    cases expand f p with
    | error e => rfl
    | ok g => rw [error?_map]; rfl

end

theorem expand_eq_error_iff {f : α → Except ε (Formula β)} {q : Formula α} {e : ε} :
    q.expand f = .error e ↔
      ∃ pre a post, q.atoms = pre ++ a :: post ∧ f a = .error e ∧ ∀ b ∈ pre, ∃ p, f b = .ok p := by
  rw [← error?_eq_some_iff, error?_expand, List.findSome?_eq_some_iff]
  simp only [error?_eq_some_iff, error?_eq_none_iff]

theorem expand_ok_iff {f : α → Except ε (Formula β)} {q : Formula α} :
    (∃ g, q.expand f = .ok g) ↔ ∀ a ∈ q.atoms, ∃ p, f a = .ok p := by
  rw [← error?_eq_none_iff, error?_expand, List.findSome?_eq_none_iff]
  simp only [error?_eq_none_iff]

mutual

/-- A replacement depends on what it puts for the atoms of the formula only. -/
theorem expand_congr {f g : α → Except ε (Formula β)} : ∀ {q : Formula α}, (∀ a ∈ q.atoms, f a = g a) →
    q.expand f = q.expand g
  | atom a, h => h a (List.mem_singleton_self a)
  | all _, h | any _, h => by rw [expand, expand, expandList_congr h]

theorem expandList_congr {f g : α → Except ε (Formula β)} : ∀ {ps : List (Formula α)},
    (∀ a ∈ atomsList ps, f a = g a) → expandList f ps = expandList g ps
  | [], _ => rfl
  | _ :: _, h => by
    rw [atomsList, List.forall_mem_append] at h
    rw [expandList, expandList, expand_congr h.1, expandList_congr h.2]

end

/-! ## Formulas of one shape -/

mutual

/-- The formulas have the same shape, and `R` holds between the atoms in the same place. -/
def Alike (R : α → β → Prop) : Formula α → Formula β → Prop
  | atom a, atom b => R a b
  | all ps, all qs => AlikeList R ps qs
  | any ps, any qs => AlikeList R ps qs
  | _, _ => False

/-- The lists have formulas of the same shape in the same places. -/
def AlikeList (R : α → β → Prop) : List (Formula α) → List (Formula β) → Prop
  | [], [] => True
  | p :: ps, q :: qs => Alike R p q ∧ AlikeList R ps qs
  | _, _ => False

end

mutual

theorem forall₂_atoms {R : α → β → Prop} :
    ∀ {f : Formula α} {g : Formula β}, Alike R f g → List.Forall₂ R f.atoms g.atoms
  | atom _, atom _, h => .cons h .nil
  | all _, all _, h => forall₂_atomsList h
  | any _, any _, h => forall₂_atomsList h

theorem forall₂_atomsList {R : α → β → Prop} :
    ∀ {ps : List (Formula α)} {qs : List (Formula β)}, AlikeList R ps qs →
      List.Forall₂ R (atomsList ps) (atomsList qs)
  | [], [], _ => .nil
  | _ :: _, _ :: _, ⟨h, hs⟩ => List.rel_append (forall₂_atoms h) (forall₂_atomsList hs)

end

mutual

theorem Alike.imp {R S : α → β → Prop} (h : ∀ a b, R a b → S a b) :
    ∀ {f : Formula α} {g : Formula β}, Alike R f g → Alike S f g
  | atom a, atom b, hr => h a b hr
  | all _, all _, hr => AlikeList.imp h hr
  | any _, any _, hr => AlikeList.imp h hr

theorem AlikeList.imp {R S : α → β → Prop} (h : ∀ a b, R a b → S a b) :
    ∀ {ps : List (Formula α)} {qs : List (Formula β)}, AlikeList R ps qs → AlikeList S ps qs
  | [], [], _ => trivial
  | _ :: _, _ :: _, ⟨hr, hrs⟩ => ⟨Alike.imp h hr, AlikeList.imp h hrs⟩

end

mutual

/-- Mapping the atoms of one side moves into the relation. -/
theorem alike_map {R : α → γ → Prop} {k : β → γ} :
    ∀ {f : Formula α} {g : Formula β}, Alike R f (g.map k) ↔ Alike (fun a b => R a (k b)) f g
  | atom _, atom _ => Iff.rfl
  | all _, all _ => alikeList_map
  | any _, any _ => alikeList_map
  | atom _, all _ | atom _, any _ | all _, atom _ | all _, any _ | any _, atom _ | any _, all _ => Iff.rfl

theorem alikeList_map {R : α → γ → Prop} {k : β → γ} : ∀ {ps : List (Formula α)} {qs : List (Formula β)},
    AlikeList R ps (mapList k qs) ↔ AlikeList (fun a b => R a (k b)) ps qs
  | [], [] => Iff.rfl
  | _ :: _, _ :: _ => and_congr alike_map alikeList_map
  | [], _ :: _ | _ :: _, [] => Iff.rfl

end

theorem alikeList_atoms {R : β → γ → Prop} (g : α → β) (h : α → γ) :
    ∀ {xs : List α}, (∀ x ∈ xs, R (g x) (h x)) →
      AlikeList R (xs.map fun x => atom (g x)) (xs.map fun x => atom (h x))
  | [], _ => trivial
  | _ :: _, hr => ⟨hr _ List.mem_cons_self, alikeList_atoms g h fun x hx => hr x (List.mem_cons_of_mem _ hx)⟩

/-- What stands across from a place in the middle of a list. -/
theorem forall₂_middle {R : α → β → Prop} : ∀ {pre : List α} {a : α} {post : List α} {bs : List β},
    List.Forall₂ R (pre ++ a :: post) bs →
      ∃ pre' b post', bs = pre' ++ b :: post' ∧ List.Forall₂ R pre pre' ∧ R a b
  | [], _, _, b :: post', .cons h _ => ⟨[], b, post', rfl, .nil, h⟩
  | _ :: _, _, _, b :: _, .cons h hs => by
    obtain ⟨pre', b', post', rfl, hpre, hb⟩ := forall₂_middle hs
    exact ⟨b :: pre', b', post', rfl, .cons h hpre, hb⟩

mutual

/-- Replacing alike atoms by formulas that agree under `k` makes formulas that agree under `k`. -/
theorem map_expand_alike {δ : Type} {R : α → α → Prop} {f : α → Except ε (Formula β)} {k : β → δ}
    (hk : ∀ a b p q, R a b → f a = .ok p → f b = .ok q → p.map k = q.map k) :
    ∀ {q₁ q₂ : Formula α} {g₁ g₂ : Formula β}, Alike R q₁ q₂ → q₁.expand f = .ok g₁ → q₂.expand f = .ok g₂ →
      g₁.map k = g₂.map k
  | atom a, atom b, g₁, g₂, h, h₁, h₂ => hk a b g₁ g₂ h h₁ h₂
  | all _, all _, _, _, h, h₁, h₂ => by
    obtain ⟨gs₁, hg₁, rfl⟩ := map_ok h₁
    obtain ⟨gs₂, hg₂, rfl⟩ := map_ok h₂
    rw [map, map, mapList_expand_alike hk h hg₁ hg₂]
  | any _, any _, _, _, h, h₁, h₂ => by
    obtain ⟨gs₁, hg₁, rfl⟩ := map_ok h₁
    obtain ⟨gs₂, hg₂, rfl⟩ := map_ok h₂
    rw [map, map, mapList_expand_alike hk h hg₁ hg₂]

theorem mapList_expand_alike {δ : Type} {R : α → α → Prop} {f : α → Except ε (Formula β)} {k : β → δ}
    (hk : ∀ a b p q, R a b → f a = .ok p → f b = .ok q → p.map k = q.map k) :
    ∀ {ps qs : List (Formula α)} {gs₁ gs₂ : List (Formula β)}, AlikeList R ps qs → expandList f ps = .ok gs₁ →
      expandList f qs = .ok gs₂ → mapList k gs₁ = mapList k gs₂
  | [], [], _, _, _, h₁, h₂ => by
    cases h₁
    cases h₂
    rfl
  | _ :: _, _ :: _, _, _, ⟨h, hs⟩, h₁, h₂ => by
    obtain ⟨g₁, gs₁, hg₁, hgs₁, rfl⟩ := expandList_cons_ok.1 h₁
    obtain ⟨g₂, gs₂, hg₂, hgs₂, rfl⟩ := expandList_cons_ok.1 h₂
    rw [mapList, mapList, map_expand_alike hk h hg₁ hg₂, mapList_expand_alike hk hs hgs₁ hgs₂]

end

/-! ## Two replacements of one formula -/

section Two

variable {δ : Type} {R : β → γ → Prop} {f : α → Except ε (Formula β)} {g : α → Except δ (Formula γ)}

mutual

/-- Two replacements have the same shape if those of each atom do. -/
theorem expand_alike : ∀ {q : Formula α} {x : Formula β} {y : Formula γ}, q.expand f = .ok x → q.expand g = .ok y →
    (∀ a ∈ q.atoms, ∀ p r, f a = .ok p → g a = .ok r → Alike R p r) → Alike R x y
  | atom a, x, y, hx, hy, h => h a (List.mem_singleton_self a) x y hx hy
  | all _, _, _, hx, hy, h => by
    obtain ⟨xs, hxs, rfl⟩ := map_ok hx
    obtain ⟨ys, hys, rfl⟩ := map_ok hy
    exact expandList_alike hxs hys h
  | any _, _, _, hx, hy, h => by
    obtain ⟨xs, hxs, rfl⟩ := map_ok hx
    obtain ⟨ys, hys, rfl⟩ := map_ok hy
    exact expandList_alike hxs hys h

theorem expandList_alike : ∀ {ps : List (Formula α)} {xs : List (Formula β)} {ys : List (Formula γ)},
    expandList f ps = .ok xs → expandList g ps = .ok ys →
    (∀ a ∈ atomsList ps, ∀ p r, f a = .ok p → g a = .ok r → Alike R p r) → AlikeList R xs ys
  | [], _, _, hx, hy, _ => by
    cases hx
    cases hy
    trivial
  | _ :: _, _, _, hx, hy, h => by
    obtain ⟨x, xs, hx', hxs, rfl⟩ := expandList_cons_ok.1 hx
    obtain ⟨y, ys, hy', hys, rfl⟩ := expandList_cons_ok.1 hy
    exact ⟨expand_alike hx' hy' fun a ha => h a (List.mem_append_left _ ha),
      expandList_alike hxs hys fun a ha => h a (List.mem_append_right _ ha)⟩

end

/-- Two replacements fail at the same atom if they fail on the same atoms. -/
theorem error?_expand_map {q : Formula α} (k : ε → δ) (h : ∀ a ∈ q.atoms, error? (g a) = (error? (f a)).map k) :
    error? (q.expand g) = (error? (q.expand f)).map k := by
  rw [error?_expand, error?_expand, List.map_findSome?]
  generalize q.atoms = as at h
  induction as with
  | nil => rfl
  | cons a as ih =>
    rw [List.forall_mem_cons] at h
    rw [List.findSome?_cons, List.findSome?_cons, h.1, ih h.2]
    rfl

end Two

end CompactSearch.Formula

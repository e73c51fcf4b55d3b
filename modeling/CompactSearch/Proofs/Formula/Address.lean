/-
Places in a formula. An address leads from the whole formula down to a part of it: at each connective, it says which of
the parts to enter. Two places have one deepest place above both, their meet.

From left to right, the atoms of a formula stand at its `addresses` (`forall₂_addresses`), and between two neighbours
stands the connective at their meet, as `gaps` lists it (`between_addresses`). So the row of atoms with the connectives
between them says how the formula joins any atom to the next one.
-/
import CompactSearch.Proofs.Formula
import Mathlib.Data.List.Infix

namespace CompactSearch

/-- The two ways of joining parts. -/
inductive Connective where
  | all
  | any
deriving DecidableEq, Repr

namespace Formula

variable {α β γ κ : Type}

/-! ## Addresses -/

/-- The parts that the outermost connective joins; an atom has none. -/
def parts : Formula α → List (Formula α)
  | atom _ => []
  | all ps | any ps => ps

/-- The part at an address, if the address leads somewhere. -/
def part? : Formula α → List Nat → Option (Formula α)
  | f, [] => some f
  | f, n :: address => f.parts[n]?.bind fun p => part? p address

mutual

/-- The addresses of the atoms from left to right. -/
def addresses : Formula α → List (List Nat)
  | atom _ => [[]]
  | all ps => addressesList 0 ps
  | any ps => addressesList 0 ps

/-- The addresses of the atoms of parts that are numbered from `n` on. -/
def addressesList (n : Nat) : List (Formula α) → List (List Nat)
  | [] => []
  | p :: ps => (addresses p).map (n :: ·) ++ addressesList (n + 1) ps

end

/-- The meet of two places: the longest address that leads towards both. -/
def IsMeet (a x y : List Nat) : Prop := a <+: x ∧ a <+: y ∧ ∀ b, b <+: x → b <+: y → b <+: a

/-- What stands at the address is a connective of the kind. -/
def HasAt (f : Formula α) (a : List Nat) : Connective → Prop
  | .all => ∃ ps, f.part? a = some (.all ps)
  | .any => ∃ ps, f.part? a = some (.any ps)

/-- The lowest connective above both places is of the kind. -/
def JoinedBy (f : Formula α) (x : List Nat) (k : Connective) (y : List Nat) : Prop :=
  ∃ a, IsMeet a x y ∧ f.HasAt a k

theorem isMeet_unique {a b x y : List Nat} (h : IsMeet a x y) (h' : IsMeet b x y) : a = b := by
  obtain ⟨hx, hy, ha⟩ := h
  obtain ⟨hx', hy', hb⟩ := h'
  have hab : a <+: b := hb a hx hy
  have hba : b <+: a := ha b hx' hy'
  exact hab.eq_of_length (Nat.le_antisymm hab.length_le hba.length_le)

/-- Two places in different parts meet at the connective itself. -/
theorem isMeet_nil {m n : Nat} {x y : List Nat} (h : m ≠ n) : IsMeet [] (m :: x) (n :: y) := by
  refine ⟨List.nil_prefix, List.nil_prefix, ?_⟩
  rintro (_ | ⟨i, b⟩) hx hy
  · exact List.nil_prefix
  · exact absurd ((List.cons_prefix_cons.1 hx).1.symm.trans (List.cons_prefix_cons.1 hy).1) h

/-- Two places in one part meet in this part. -/
theorem isMeet_cons {n : Nat} {a x y : List Nat} (h : IsMeet a x y) : IsMeet (n :: a) (n :: x) (n :: y) := by
  obtain ⟨hx, hy, ha⟩ := h
  refine ⟨(List.prefix_cons_inj n).2 hx, (List.prefix_cons_inj n).2 hy, ?_⟩
  rintro (_ | ⟨i, b⟩) hbx hby
  · exact List.nil_prefix
  · obtain ⟨rfl, hbx'⟩ := List.cons_prefix_cons.1 hbx
    exact (List.prefix_cons_inj _).2 (ha b hbx' (List.cons_prefix_cons.1 hby).2)

theorem part?_cons {f p : Formula α} {n : Nat} {a : List Nat} (h : f.parts[n]? = some p) :
    f.part? (n :: a) = p.part? a := by
  rw [part?, h]
  rfl

theorem hasAt_cons {f p : Formula α} {n : Nat} {a : List Nat} {k : Connective} (h : f.parts[n]? = some p) :
    f.HasAt (n :: a) k ↔ p.HasAt a k := by
  cases k with
  | all => simp only [HasAt, part?_cons h]
  | any => simp only [HasAt, part?_cons h]

/-- A place has at most one kind of connective. -/
theorem hasAt_unique {f : Formula α} {a : List Nat} {k j : Connective} (h : f.HasAt a k) (h' : f.HasAt a j) :
    k = j := by
  cases k <;> cases j
  · rfl
  · obtain ⟨ps, h⟩ := h
    obtain ⟨qs, h'⟩ := h'
    rw [h] at h'
    cases h'
  · obtain ⟨ps, h⟩ := h
    obtain ⟨qs, h'⟩ := h'
    rw [h] at h'
    cases h'
  · rfl

/-! ## Rows with something between neighbours -/

/-- A row of one or more elements, with one thing between any two neighbours, such that `R` holds between them. -/
inductive Between (R : β → κ → β → Prop) : List β → List κ → Prop
  | one {x : β} : Between R [x] []
  | more {x y : β} {k : κ} {ys : List β} {ks : List κ} (h : R x k y) (hr : Between R (y :: ys) ks) :
    Between R (x :: y :: ys) (k :: ks)

theorem Between.length {R : β → κ → β → Prop} {xs : List β} {ks : List κ} (h : Between R xs ks) :
    xs.length = ks.length + 1 := by
  induction h with
  | one => rfl
  | more _ _ ih => simp only [List.length_cons] at ih ⊢; omega

theorem Between.imp {R S : β → κ → β → Prop} {xs : List β} {ks : List κ} (h : Between R xs ks)
    (hRS : ∀ x k y, R x k y → S x k y) : Between S xs ks := by
  induction h with
  | one => exact .one
  | more h _ ih => exact .more (hRS _ _ _ h) ih

theorem Between.map {R : β → κ → β → Prop} {S : γ → κ → γ → Prop} {xs : List β} {ks : List κ} (g : β → γ)
    (h : Between R xs ks) (hRS : ∀ x k y, R x k y → S (g x) k (g y)) : Between S (xs.map g) ks := by
  induction h with
  | one => exact .one
  | more h _ ih => exact .more (hRS _ _ _ h) ih

/-- Two rows are one row when something joins the last element of the first to the first element of the second. -/
theorem Between.append {R : β → κ → β → Prop} {xs ys : List β} {ks ls : List κ} {k : κ} (h : Between R xs ks)
    (h' : Between R ys ls) (hk : ∀ x ∈ xs, ∀ y ∈ ys, R x k y) : Between R (xs ++ ys) (ks ++ k :: ls) := by
  -- on the first row, whose last element meets the first one of the second row
  induction h with
  | @one x =>
    cases h' with
    | one => exact .more (hk x (by simp) _ (by simp)) .one
    | more h hr => exact .more (hk x (by simp) _ (by simp)) (.more h hr)
  | @more x y j xs ks h hr ih =>
    exact .more h (ih fun z hz => hk z (List.mem_cons_of_mem x hz))

/-! ## Connectives between neighbours -/

mutual

/-- The connectives between neighbouring atoms from left to right. -/
def gaps : Formula α → List Connective
  | atom _ => []
  | all ps => gapsList .all ps
  | any ps => gapsList .any ps

/-- The connectives between neighbouring atoms of parts that a connective joins. -/
def gapsList (k : Connective) : List (Formula α) → List Connective
  | [] => []
  | [p] => gaps p
  | p :: q :: ps => gaps p ++ k :: gapsList k (q :: ps)

end

theorem gapsList_concat (k : Connective) (q : Formula α) :
    ∀ {ps : List (Formula α)}, ps ≠ [] → gapsList k (ps ++ [q]) = gapsList k ps ++ k :: gaps q
  | [], h => absurd rfl h
  | [p], _ => rfl
  | p :: p' :: ps, _ => by
    have ih : gapsList k (p' :: (ps ++ [q])) = gapsList k (p' :: ps) ++ k :: gaps q :=
      gapsList_concat k q (List.cons_ne_nil p' ps)
    rw [List.cons_append, List.cons_append, gapsList, ih, gapsList, List.append_assoc, List.cons_append]

theorem atomsList_append : ∀ ps qs : List (Formula α), atomsList (ps ++ qs) = atomsList ps ++ atomsList qs
  | [], _ => rfl
  | p :: ps, qs => by rw [List.cons_append, atomsList, atomsList_append ps qs, atomsList, List.append_assoc]

mutual

theorem length_pos_atoms : ∀ {f : Formula α}, f.Branching → 0 < f.atoms.length
  | atom _, _ => Nat.one_pos
  | all _, h | any _, h => Nat.lt_of_lt_of_le (by have := h.1; omega) (length_le_atomsList h.2)

/-- Every part has an atom. -/
theorem length_le_atomsList : ∀ {ps : List (Formula α)}, BranchingList ps → ps.length ≤ (atomsList ps).length
  | [], _ => Nat.le_refl 0
  | p :: ps, h => by
    have hp := length_pos_atoms h.1
    have hps := length_le_atomsList h.2
    rw [atomsList, List.length_cons, List.length_append]
    omega

end

/-- The address leads to the atom in one of the parts, which are numbered from `n` on. -/
def LeadsIn (n : Nat) (ps : List (Formula α)) (x : List Nat) (a : α) : Prop :=
  ∃ m p x', x = (n + m) :: x' ∧ ps[m]? = some p ∧ p.part? x' = some (.atom a)

theorem part?_of_leadsIn {f : Formula α} {x : List Nat} {a : α} (h : LeadsIn 0 f.parts x a) :
    f.part? x = some (.atom a) := by
  obtain ⟨m, p, x', rfl, hp, ha⟩ := h
  rw [Nat.zero_add, part?_cons hp, ha]

theorem leadsIn_cons {n : Nat} {p : Formula α} {ps : List (Formula α)} {x : List Nat} {a : α}
    (h : LeadsIn (n + 1) ps x a) : LeadsIn n (p :: ps) x a := by
  obtain ⟨m, q, x', rfl, hq, ha⟩ := h
  exact ⟨m + 1, q, x', by rw [Nat.add_assoc, Nat.add_comm 1], by simpa using hq, ha⟩

mutual

/-- At the addresses stand the atoms, in the same order. -/
theorem forall₂_addresses : ∀ f : Formula α,
    List.Forall₂ (fun x a => f.part? x = some (.atom a)) f.addresses f.atoms
  | atom _ => .cons rfl .nil
  | all ps => (forall₂_addressesList 0 ps).imp fun _ _ h => part?_of_leadsIn (f := .all ps) h
  | any ps => (forall₂_addressesList 0 ps).imp fun _ _ h => part?_of_leadsIn (f := .any ps) h

theorem forall₂_addressesList (n : Nat) : ∀ ps : List (Formula α),
    List.Forall₂ (LeadsIn n ps) (addressesList n ps) (atomsList ps)
  | [] => .nil
  | p :: ps => by
    have hp : List.Forall₂ (LeadsIn n (p :: ps)) (p.addresses.map (n :: ·)) p.atoms := by
      rw [List.forall₂_map_left_iff]
      exact (forall₂_addresses p).imp fun x _ h => ⟨0, p, x, rfl, rfl, h⟩
    have hps : List.Forall₂ (LeadsIn n (p :: ps)) (addressesList (n + 1) ps) (atomsList ps) :=
      (forall₂_addressesList (n + 1) ps).imp fun _ _ h => leadsIn_cons h
    exact List.rel_append hp hps

end

/-- Two places among numbered parts: both lie in one part, which joins them, or they lie in different parts. -/
def JoinedIn (n : Nat) (ps : List (Formula α)) (k : Connective) (x : List Nat) (j : Connective) (y : List Nat) : Prop :=
  (∃ m p x' y', ps[m]? = some p ∧ x = (n + m) :: x' ∧ y = (n + m) :: y' ∧ p.JoinedBy x' j y') ∨
    (j = k ∧ ∃ m m' x' y', m ≠ m' ∧ x = m :: x' ∧ y = m' :: y')

theorem joinedBy_of_joinedIn {f : Formula α} {k j : Connective} {x y : List Nat} (hf : f.HasAt [] k)
    (h : JoinedIn 0 f.parts k x j y) : f.JoinedBy x j y := by
  rcases h with ⟨m, p, x', y', hp, rfl, rfl, a, ha, hj⟩ | ⟨rfl, m, m', x', y', hne, rfl, rfl⟩
  · rw [Nat.zero_add]
    exact ⟨m :: a, isMeet_cons ha, (hasAt_cons hp).2 hj⟩
  · exact ⟨[], isMeet_nil hne, hf⟩

theorem joinedIn_cons {n : Nat} {p : Formula α} {ps : List (Formula α)} {k j : Connective} {x y : List Nat}
    (h : JoinedIn (n + 1) ps k x j y) : JoinedIn n (p :: ps) k x j y := by
  rcases h with ⟨m, q, x', y', hq, rfl, rfl, hj⟩ | h
  · refine .inl ⟨m + 1, q, x', y', by simpa using hq, ?_, ?_, hj⟩ <;> rw [Nat.add_assoc, Nat.add_comm 1]
  · exact .inr h

/-- The addresses in parts numbered from `n` on start with numbers from `n` on. -/
theorem head_addressesList : ∀ {n : Nat} {ps : List (Formula α)} {x : List Nat}, x ∈ addressesList n ps →
    ∃ m x', n ≤ m ∧ x = m :: x'
  | n, [], x, h => by cases h
  | n, p :: ps, x, h => by
    rcases List.mem_append.1 h with h | h
    · obtain ⟨x', -, rfl⟩ := List.mem_map.1 h
      exact ⟨n, x', Nat.le_refl n, rfl⟩
    · obtain ⟨m, x', hm, rfl⟩ := head_addressesList h
      exact ⟨m, x', by omega, rfl⟩

theorem ne_nil_of_branches {ps : List (Formula α)} (h : 2 ≤ ps.length) : ps ≠ [] := by
  rintro rfl
  simp at h

mutual

/-- Between neighbouring atoms stand the connectives at their meets. -/
theorem between_addresses : ∀ {f : Formula α}, f.Branching → Between f.JoinedBy f.addresses f.gaps
  | atom _, _ => .one
  | all ps, h => by
    have hall : (Formula.all ps).HasAt [] .all := ⟨ps, rfl⟩
    exact (between_addressesList 0 .all (ne_nil_of_branches h.1) h.2).imp fun x j y => joinedBy_of_joinedIn hall
  | any ps, h => by
    have hany : (Formula.any ps).HasAt [] .any := ⟨ps, rfl⟩
    exact (between_addressesList 0 .any (ne_nil_of_branches h.1) h.2).imp fun x j y => joinedBy_of_joinedIn hany

theorem between_addressesList (n : Nat) (k : Connective) : ∀ {ps : List (Formula α)}, ps ≠ [] → BranchingList ps →
    Between (JoinedIn n ps k) (addressesList n ps) (gapsList k ps)
  | [], h, _ => absurd rfl h
  | p :: ps, _, h => by
    have hp : Between (JoinedIn n (p :: ps) k) (p.addresses.map (n :: ·)) p.gaps :=
      (between_addresses h.1).map (n :: ·) fun x j y hj => .inl ⟨0, p, x, y, rfl, rfl, rfl, hj⟩
    cases ps with
    | nil => rwa [addressesList, addressesList, List.append_nil, gapsList]
    | cons q ps =>
      rw [addressesList, gapsList]
      have hps : Between (JoinedIn n (p :: q :: ps) k) (addressesList (n + 1) (q :: ps)) (gapsList k (q :: ps)) :=
        (between_addressesList (n + 1) k (List.cons_ne_nil q ps) h.2).imp fun x j y => joinedIn_cons
      -- the last atom of `p` and the first one behind it lie in different parts
      refine hp.append hps ?_
      intro x hx y hy
      obtain ⟨x', -, rfl⟩ := List.mem_map.1 hx
      obtain ⟨m, y', hm, rfl⟩ := head_addressesList hy
      exact .inr ⟨rfl, n, m, x', y', by omega, rfl, rfl⟩

end

end Formula

end CompactSearch

/-
What writing a filter out does, said without the supply that is handed from part to part: the placeholders of the
filter's values are numbered from left to right (`write_supply`), the text is that of the expression over them
(`write_text`), and the bindings are those values under those numbers (`write_params`). All three are exact, so that
everything about a compiled condition follows from the expression and the list of values.
-/
import CompactSearch.Proofs.Sql.Bindings

namespace CompactSearch.Sql

/-! ## Values and numbers -/

section Numbering

variable {ι : Type}

/-- What the tests of a formula compare with, from left to right. -/
def values (f : Formula (ColumnTest ι)) : List ι := f.atoms.filterMap (·.value?)

/-- What the tests of a list of formulas compare with, from left to right. -/
def valuesList (fs : List (Formula (ColumnTest ι))) : List ι := (Formula.atomsList fs).filterMap (·.value?)

theorem valuesList_cons (f : Formula (ColumnTest ι)) (fs : List (Formula (ColumnTest ι))) :
    valuesList (f :: fs) = values f ++ valuesList fs :=
  List.filterMap_append

mutual

/-- The expression with placeholders numbered from left to right in place of the values. -/
def labelled (batch : String) (n : Nat) : Formula (ColumnTest ι) → Expression
  | .atom t => .atom (t.map fun _ => Placeholders.name batch n)
  | .all ps => .all (labelledList batch n ps)
  | .any ps => .any (labelledList batch n ps)

/-- The expressions of the parts, each numbered on from the one before. -/
def labelledList (batch : String) (n : Nat) : List (Formula (ColumnTest ι)) → List Expression
  | [] => []
  | p :: ps => labelled batch n p :: labelledList batch (n + (values p).length) ps

end

mutual

/-- The placeholders of a numbered expression are the numbers in a row. -/
theorem values_labelled {batch : String} : ∀ (n : Nat) (f : Formula (ColumnTest ι)),
    values (labelled batch n f) = (List.range' n (values f).length).map (Placeholders.name batch)
  | _, .atom (.like _ _) | _, .atom (.compare _ _ _) | _, .atom (.isNull _) => rfl
  | n, .all fs | n, .any fs => valuesList_labelled n fs

theorem valuesList_labelled {batch : String} : ∀ (n : Nat) (fs : List (Formula (ColumnTest ι))),
    valuesList (labelledList batch n fs) = (List.range' n (valuesList fs).length).map (Placeholders.name batch)
  | n, [] => rfl
  | n, f :: fs => by
    rw [labelledList, valuesList_cons, valuesList_cons, values_labelled n f, valuesList_labelled _ fs,
      ← List.map_append, List.range'_append_1, List.length_append]

end

mutual

theorem mem_labelled {batch : String} {t : ColumnTest String} : ∀ {n : Nat} {f : Formula (ColumnTest ι)},
    t ∈ (labelled batch n f).atoms → ∃ u ∈ f.atoms, ∃ i, t = u.map fun _ => Placeholders.name batch i
  | n, .atom u, h => ⟨u, List.mem_singleton_self u, n, List.mem_singleton.1 h⟩
  | _, .all _, h | _, .any _, h => mem_labelledList h

theorem mem_labelledList {batch : String} {t : ColumnTest String} :
    ∀ {n : Nat} {fs : List (Formula (ColumnTest ι))}, t ∈ Formula.atomsList (labelledList batch n fs) →
      ∃ u ∈ Formula.atomsList fs, ∃ i, t = u.map fun _ => Placeholders.name batch i
  | _, [], h => by cases h
  | _, f :: fs, h => by
    rcases List.mem_append.1 h with h' | h'
    · obtain ⟨u, hu, e⟩ := mem_labelled h'
      exact ⟨u, List.mem_append_left _ hu, e⟩
    · obtain ⟨u, hu, e⟩ := mem_labelledList h'
      exact ⟨u, List.mem_append_right _ hu, e⟩

end

theorem values_map {κ : Type} (g : ι → κ) (f : Formula (ColumnTest ι)) :
    values (f.map (ColumnTest.map g)) = (values f).map g := by
  rw [values, values, Formula.atoms_map, List.filterMap_map, List.map_filterMap]
  exact List.filterMap_congr fun t _ => ColumnTest.value?_map g t

mutual

/-- A numbered expression does not depend on the values. -/
theorem labelled_map {κ : Type} {batch : String} (g : ι → κ) : ∀ (n : Nat) (f : Formula (ColumnTest ι)),
    labelled batch n (f.map (ColumnTest.map g)) = labelled batch n f
  | _, .atom (.like _ _) | _, .atom (.compare _ _ _) | _, .atom (.isNull _) => rfl
  | n, .all fs => congrArg Formula.all (labelledList_map g n fs)
  | n, .any fs => congrArg Formula.any (labelledList_map g n fs)

theorem labelledList_map {κ : Type} {batch : String} (g : ι → κ) : ∀ (n : Nat) (fs : List (Formula (ColumnTest ι))),
    labelledList batch n (Formula.mapList (ColumnTest.map g) fs) = labelledList batch n fs
  | _, [] => rfl
  | n, f :: fs => by
    rw [Formula.mapList, labelledList, labelledList, labelled_map g n f, values_map, List.length_map,
      labelledList_map g _ fs]

end

end Numbering

/-! ## Looking placeholders up -/

/-- The test with the value that its placeholder is bound to. -/
def ColumnTest.bind? (b : Bindings) : ColumnTest String → Option (ColumnTest Bound)
  | .like f id => (b.lookup id).map (.like f)
  | .compare f s id => (b.lookup id).map (.compare f s)
  | .isNull f => some (.isNull f)

mutual

/-- Looking the numbered placeholders up gives the values back. -/
theorem bind_labelled {batch : String} {b : Bindings} : ∀ {n : Nat} {f : Formula (ColumnTest Bound)},
    (∀ p ∈ Bindings.numbered batch n (values f), b.lookup p.1 = some p.2) →
      (labelled batch n f).map (ColumnTest.bind? b) = f.map some
  | n, .atom (.like f v), h => by
    have hv : b.lookup (Placeholders.name batch n) = some v := h _ (List.mem_singleton_self _)
    simp only [labelled, Formula.map, ColumnTest.map, ColumnTest.bind?, hv, Option.map_some]
  | n, .atom (.compare f s v), h => by
    have hv : b.lookup (Placeholders.name batch n) = some v := h _ (List.mem_singleton_self _)
    simp only [labelled, Formula.map, ColumnTest.map, ColumnTest.bind?, hv, Option.map_some]
  | _, .atom (.isNull _), _ => rfl
  | _, .all _, h => congrArg Formula.all (bind_labelledList h)
  | _, .any _, h => congrArg Formula.any (bind_labelledList h)

theorem bind_labelledList {batch : String} {b : Bindings} : ∀ {n : Nat} {fs : List (Formula (ColumnTest Bound))},
    (∀ p ∈ Bindings.numbered batch n (valuesList fs), b.lookup p.1 = some p.2) →
      Formula.mapList (ColumnTest.bind? b) (labelledList batch n fs) = Formula.mapList some fs
  | _, [], _ => rfl
  | n, f :: fs, h => by
    rw [valuesList_cons, Bindings.numbered_append] at h
    rw [labelledList, Formula.mapList, Formula.mapList, bind_labelled fun p hp => h p (List.mem_append_left _ hp),
      bind_labelledList fun p hp => h p (List.mem_append_right _ hp)]

end

/-! ## The supply -/

/-- A clause as a test of its column, with the value that is bound. -/
def Clause.form : Clause → ColumnTest Bound
  | .contains field text => .like field (.text (likePattern .substring text))
  | .compare field op v => if v = .null then .isNull field else .compare field (Condition.comparisonText op) v
  | .isNull field => .isNull field

/-- A filter as a formula over tests. -/
abbrev Filter.tests (f : Filter) : Formula (ColumnTest Bound) := f.map Clause.form

theorem clause_supply {batch : String} (n : Nat) (c : Clause) :
    (c.write ⟨batch, n⟩).2 = ⟨batch, n + (values (.atom c.form)).length⟩ := by
  cases c with
  | contains => rfl
  | isNull => rfl
  | compare field op v =>
    rw [Clause.write, Condition.compare, Clause.form]
    split <;> rfl

mutual

/-- Writing takes one number for each value. -/
theorem write_supply {batch : String} : ∀ (n : Nat) (f : Filter),
    (Filter.write ⟨batch, n⟩ f).2 = ⟨batch, n + (values f.tests).length⟩
  | n, .atom c => clause_supply n c
  | n, .all fs => writeList_supply n fs
  | n, .any fs => writeList_supply n fs

theorem writeList_supply {batch : String} : ∀ (n : Nat) (fs : List Filter),
    (Filter.writeList ⟨batch, n⟩ fs).2 = ⟨batch, n + (valuesList (Formula.mapList Clause.form fs)).length⟩
  | n, [] => rfl
  | n, f :: fs => by
    show (Filter.writeList (Filter.write ⟨batch, n⟩ f).2 fs).2 = _
    rw [write_supply n f, writeList_supply _ fs, Formula.mapList, valuesList_cons, List.length_append, Nat.add_assoc]

end

/-- The parts of a list of filters, each written with the supply that the one before left. -/
theorem writeList_cons {batch : String} (n : Nat) (f : Filter) (fs : List Filter) :
    (Filter.writeList ⟨batch, n⟩ (f :: fs)).1 =
      (Filter.write ⟨batch, n⟩ f).1 :: (Filter.writeList ⟨batch, n + (values f.tests).length⟩ fs).1 := by
  rw [← write_supply n f]
  rfl

/-! ## The text -/

/-- The text belongs to the expression. -/
def IsTextOf (c : Condition) (e : Expression) : Prop := c.text.toList = e.chars

theorem joinTexts_chars {word : String} : ∀ {c : Condition} {cs : List Condition} {e : Expression}
    {es : List Expression}, List.Forall₂ IsTextOf (c :: cs) (e :: es) →
      (Condition.joinTexts word (c :: cs)).toList =
        '(' :: (e.chars ++ ')' :: Expression.charsMore (" " ++ word ++ " ").toList es)
  | c, [], e, [], .cons h .nil => by
    rw [← h]
    simp [Condition.joinTexts, Expression.charsMore]
  | c, d :: cs, e, e' :: es, .cons h hs => by
    have hi : (Condition.joinTexts word (d :: cs)).toList = _ := joinTexts_chars hs
    rw [Condition.joinTexts, List.map_cons] at hi
    rw [Condition.joinTexts, List.map_cons, List.map_cons, String.intercalate_cons_cons, Expression.charsMore, ← h]
    simp only [String.toList_append, hi]
    simp

theorem clause_text {batch : String} (n : Nat) (c : Clause) :
    (c.write ⟨batch, n⟩).1.text = (c.form.map fun _ => Placeholders.name batch n).text := by
  cases c with
  | contains => rfl
  | isNull => rfl
  | compare field op v =>
    rw [Clause.write, Condition.compare, Clause.form]
    split <;> rfl

mutual

/-- The text is that of the expression over the numbered placeholders. -/
theorem write_text {batch : String} : ∀ (n : Nat) (f : Filter),
    (Filter.write ⟨batch, n⟩ f).1.text.toList = (labelled batch n f.tests).chars
  | n, .atom c => congrArg String.toList (clause_text n c)
  | n, .all [] => rfl
  | n, .any [] => rfl
  | n, .all (f :: fs) => by
    have h : List.Forall₂ IsTextOf (Filter.writeList ⟨batch, n⟩ (f :: fs)).1 _ := writeList_text n (f :: fs)
    show (Condition.all (Filter.writeList ⟨batch, n⟩ (f :: fs)).1).text.toList = _
    rw [writeList_cons] at h ⊢
    exact joinTexts_chars h
  | n, .any (f :: fs) => by
    have h : List.Forall₂ IsTextOf (Filter.writeList ⟨batch, n⟩ (f :: fs)).1 _ := writeList_text n (f :: fs)
    show (Condition.any (Filter.writeList ⟨batch, n⟩ (f :: fs)).1).text.toList = _
    rw [writeList_cons] at h ⊢
    exact joinTexts_chars h

theorem writeList_text {batch : String} : ∀ (n : Nat) (fs : List Filter),
    List.Forall₂ IsTextOf (Filter.writeList ⟨batch, n⟩ fs).1 (labelledList batch n (Formula.mapList Clause.form fs))
  | n, [] => .nil
  | n, f :: fs => by
    rw [writeList_cons]
    exact .cons (write_text n f) (writeList_text _ fs)

end

/-! ## The bindings -/

theorem clause_params {batch : String} (n : Nat) (c : Clause) :
    (c.write ⟨batch, n⟩).1.params = Bindings.numbered batch n (values (.atom c.form)) := by
  cases c with
  | contains => rfl
  | isNull => rfl
  | compare field op v =>
    rw [Clause.write, Condition.compare, Clause.form]
    split <;> rfl

/-- Bindings of names in a row, merged with those of the names that follow. -/
theorem merge_numbered {batch : String} {n : Nat} {vs ws : List Bound} {b c : Bindings}
    (hb : b.Perm (Bindings.numbered batch n vs)) (hc : c.Perm (Bindings.numbered batch (n + vs.length) ws)) :
    (Bindings.merge b c).Perm (Bindings.numbered batch n (vs ++ ws)) := by
  have ha : (b ++ c).Perm (Bindings.numbered batch n (vs ++ ws)) := by
    rw [Bindings.numbered_append]
    exact hb.append hc
  -- the numbers go on where those of the first part end, so no name is bound twice
  refine (Bindings.merge_perm ?_).trans ha
  rw [← List.map_append, (ha.map (·.1)).nodup_iff, Bindings.keys_numbered]
  exact Bindings.nodup_names batch n _

mutual

/-- The bindings are the values under their numbers. -/
theorem write_params {batch : String} : ∀ (n : Nat) (f : Filter),
    (Filter.write ⟨batch, n⟩ f).1.params.Perm (Bindings.numbered batch n (values f.tests))
  | n, .atom c => by
    rw [Filter.write, clause_params]
    rfl
  | n, .all [] => .nil
  | n, .any [] => .nil
  | n, .all (f :: fs) => writeList_params n (f :: fs) [] .nil
  | n, .any (f :: fs) => writeList_params n (f :: fs) [] .nil

/-- The bindings of the parts go to those that were collected before. -/
theorem writeList_params {batch : String} : ∀ (m : Nat) (fs : List Filter) (vs : List Bound) {acc : Bindings},
    acc.Perm (Bindings.numbered batch m vs) →
      ((Filter.writeList ⟨batch, m + vs.length⟩ fs).1.foldl (fun acc c => acc.merge c.params) acc).Perm
        (Bindings.numbered batch m (vs ++ valuesList (Formula.mapList Clause.form fs)))
  | m, [], vs, acc, h => by
    show acc.Perm (Bindings.numbered batch m (vs ++ []))
    rw [List.append_nil]
    exact h
  | m, f :: fs, vs, acc, h => by
    rw [writeList_cons, List.foldl_cons, Formula.mapList, valuesList_cons, ← List.append_assoc, Nat.add_assoc,
      ← List.length_append]
    exact writeList_params m fs _ (merge_numbered h (write_params _ f))

end

theorem joinParams_sorted : ∀ (cs : List Condition) {acc : Bindings}, acc.Sorted →
    (cs.foldl (fun acc c => acc.merge c.params) acc).Sorted
  | [], _, h => h
  | _ :: cs, _, h => joinParams_sorted cs h.merge

theorem write_sorted {batch : String} (n : Nat) (f : Filter) : (Filter.write ⟨batch, n⟩ f).1.params.Sorted := by
  match f with
  | .atom c =>
    rw [Filter.write, clause_params]
    cases c.form <;> first | exact List.pairwise_singleton _ _ | exact .nil
  | .all [] | .any [] => exact .nil
  | .all (_ :: _) | .any (_ :: _) => exact joinParams_sorted _ .nil

/-- The bindings are known from the values. -/
theorem write_params_congr {batch : String} {n : Nat} {f g : Filter} (h : values f.tests = values g.tests) :
    (Filter.write ⟨batch, n⟩ f).1.params = (Filter.write ⟨batch, n⟩ g).1.params := by
  refine (write_sorted n f).eq_of_perm (write_sorted n g) ((write_params n f).trans ?_)
  rw [h]
  exact (write_params n g).symm

end CompactSearch.Sql

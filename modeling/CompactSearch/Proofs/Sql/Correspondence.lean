/-
Placeholders and bindings correspond. A text is scanned for placeholders with no knowledge of how it was put together:
a placeholder is an at sign and the longest run of letters, digits and underscores behind it. In a compiled condition
the scan finds the names of the batch from the number zero on, each once, and exactly these names are bound
(`placeholders_correspond`); their number can be told from the query.
-/
import CompactSearch.Proofs.Sql.Meaning

namespace CompactSearch.Sql

/-! ## Scanning -/

/-- The names behind the at signs of a text, from left to right, each as long as it can be. -/
def placeholdersIn : List Char → List String
  | [] => []
  | c :: cs =>
    if c = '@' then String.ofList (cs.takeWhile isNameChar) :: placeholdersIn cs else placeholdersIn cs

theorem placeholdersIn_append : ∀ {cs : List Char} (rest : List Char), '@' ∉ cs →
    placeholdersIn (cs ++ rest) = placeholdersIn rest
  | [], _, _ => rfl
  | c :: cs, rest, h => by
    rw [List.mem_cons, not_or] at h
    rw [List.cons_append, placeholdersIn, if_neg (Ne.symm h.1), placeholdersIn_append rest h.2]

theorem at_not_mem_of_isWord {id : String} (h : IsWord id) : '@' ∉ id.toList := by
  intro hm
  exact absurd (h _ hm) (by decide)

theorem placeholdersIn_name {id : String} {rest : List Char} (h : IsWord id)
    (hr : ∀ c ∈ rest.head?, isNameChar c = false) :
    placeholdersIn ('@' :: (id.toList ++ rest)) = id :: placeholdersIn rest := by
  rw [placeholdersIn, if_pos rfl, (span_of_head rest h hr).1, placeholdersIn_append rest (at_not_mem_of_isWord h),
    String.ofList_toList]

/-- The test can be scanned: it has no at sign but that of its placeholder, and the name of that one is a word. -/
structure ColumnTest.Scannable (t : ColumnTest String) : Prop where
  field : '@' ∉ t.field.toList
  symbol : ∀ s ∈ t.symbol?, s ∈ symbols
  name : ∀ id ∈ t.value?, IsWord id

theorem placeholdersIn_test {t : ColumnTest String} {rest : List Char} (h : t.Scannable) (hr : Stops rest) :
    placeholdersIn (t.text.toList ++ rest) = t.value?.toList ++ placeholdersIn rest := by
  cases t with
  | like f id =>
    have hf : '@' ∉ f.toList := h.field
    have e : (ColumnTest.like f id).text.toList ++ rest =
        f.toList ++ (" LIKE ".toList ++ ('@' :: (id.toList ++ (" ESCAPE '\\'".toList ++ rest)))) := by
      simp [ColumnTest.text, String.toList_append]
    -- the name ends at the blank in front of the escape clause
    rw [e, placeholdersIn_append _ hf, placeholdersIn_append _ (by decide),
      placeholdersIn_name (h.name id rfl) (fun c hc => by cases hc; rfl), placeholdersIn_append rest (by decide)]
    rfl
  | compare f s id =>
    have hf : '@' ∉ f.toList := h.field
    have e : (ColumnTest.compare f s id).text.toList ++ rest =
        f.toList ++ ((" " ++ s ++ " ").toList ++ ('@' :: (id.toList ++ rest))) := by
      simp [ColumnTest.text, String.toList_append]
    have hs : '@' ∉ (" " ++ s ++ " ").toList := by
      have hm := h.symbol s rfl
      simp only [symbols, List.mem_cons, List.not_mem_nil, or_false] at hm
      rcases hm with rfl | rfl | rfl | rfl | rfl <;> decide
    -- here it ends with the text or with the group
    have hn : ∀ c ∈ rest.head?, isNameChar c = false := by
      intro c hc
      rcases hr with rfl | ⟨r, rfl⟩
      · cases hc
      · cases hc
        rfl
    rw [e, placeholdersIn_append _ hf, placeholdersIn_append _ hs, placeholdersIn_name (h.name id rfl) hn]
    rfl
  | isNull f =>
    have hf : '@' ∉ f.toList := h.field
    have e : (ColumnTest.isNull f).text.toList ++ rest = f.toList ++ (" IS NULL".toList ++ rest) := by
      simp [ColumnTest.text, String.toList_append]
    rw [e, placeholdersIn_append _ hf, placeholdersIn_append _ (by decide)]
    rfl

theorem placeholdersIn_cons {c : Char} (hc : c ≠ '@') (cs : List Char) :
    placeholdersIn (c :: cs) = placeholdersIn cs := by
  rw [placeholdersIn, if_neg hc]

theorem values_atom {ι : Type} (t : ColumnTest ι) : values (.atom t) = t.value?.toList := by
  cases t <;> rfl

mutual

/-- Scanning the text of an expression finds what its tests compare with. -/
theorem placeholdersIn_chars : ∀ {e : Expression} {rest : List Char}, (∀ t ∈ e.atoms, t.Scannable) → Stops rest →
    placeholdersIn (e.chars ++ rest) = values e ++ placeholdersIn rest
  | .atom t, rest, h, hr => by
    rw [Expression.chars, placeholdersIn_test (h t (List.mem_singleton_self t)) hr, values_atom]
  | .all [], rest, _, _ => placeholdersIn_append rest (by decide)
  | .any [], rest, _, _ => placeholdersIn_append rest (by decide)
  | .all (e :: es), rest, h, hr | .any (e :: es), rest, h, hr => by
    rw [Expression.chars, List.cons_append, List.append_assoc, List.cons_append, placeholdersIn_cons (by decide),
      placeholdersIn_chars (fun t ht => h t (List.mem_append_left _ ht)) (.inr ⟨_, rfl⟩),
      placeholdersIn_cons (by decide),
      placeholdersIn_charsMore (by decide) (fun t ht => h t (List.mem_append_right _ ht)) hr, ← List.append_assoc]
    exact congrArg (· ++ placeholdersIn rest) (valuesList_cons e es).symm

theorem placeholdersIn_charsMore {word : List Char} (hw : '@' ∉ word) : ∀ {es : List Expression} {rest : List Char},
    (∀ t ∈ Formula.atomsList es, t.Scannable) → Stops rest →
      placeholdersIn (Expression.charsMore word es ++ rest) = valuesList es ++ placeholdersIn rest
  | [], _, _, _ => rfl
  | e :: es, rest, h, hr => by
    rw [Expression.charsMore, List.append_assoc, List.cons_append, List.append_assoc, List.cons_append,
      placeholdersIn_append _ hw, placeholdersIn_cons (by decide),
      placeholdersIn_chars (fun t ht => h t (List.mem_append_left _ ht)) (.inr ⟨_, rfl⟩),
      placeholdersIn_cons (by decide),
      placeholdersIn_charsMore hw (fun t ht => h t (List.mem_append_right _ ht)) hr, valuesList_cons, List.append_assoc]

end

/-! ## The number of placeholders -/

/-- A keyed leaf whose value is bound. -/
def bindsOnce : Leaf → Bool
  | .keyed _ _ v _ => !v.isNull
  | .bare _ _ => false

/-- A bare leaf whose value is bound, once for each bare field. -/
def bindsEach : Leaf → Bool
  | .keyed _ _ _ _ => false
  | .bare v _ => !v.isNull

/-- The number of placeholders that a query needs. -/
def placeholderCount (s : Settings) (q : Query) : Nat :=
  q.atoms.countP bindsOnce + q.atoms.countP bindsEach * (s.policy.bareFields?.getD []).length

/-- A leaf binds its value in each of its tests, or in none. -/
theorem countP_leafTests (s : Settings) (l : Leaf) :
    (s.leafTests l).countP (·.value?.isSome) = if l.value.isNull then 0 else (s.leafTests l).length := by
  cases h : l.value.isNull with
  | true =>
    rw [if_pos rfl, List.countP_eq_zero]
    intro t ht
    rw [(Settings.asks_of_mem ht).1.isSome_value?, h]
    decide
  | false =>
    rw [if_neg (by decide), List.countP_eq_length]
    intro t ht
    rw [(Settings.asks_of_mem ht).1.isSome_value?, h]
    rfl

/-- The number of values can be told from the query. -/
theorem length_values_tests {s : Settings} {q : Query} {f : Filter} (h : s.filter q = .ok f) :
    (values f.tests).length = placeholderCount s q := by
  rw [values, Settings.atoms_tests h, List.length_filterMap_eq_countP, placeholderCount]
  induction q.atoms with
  | nil => simp
  | cons l ls ih =>
    rw [List.flatMap_cons, List.countP_append, ih, countP_leafTests, List.countP_cons, List.countP_cons]
    cases l with
    | keyed field op v negated =>
      cases hv : v.isNull
      · simp [Settings.leafTests, bindsOnce, bindsEach, Leaf.value, hv]
        omega
      · simp [bindsOnce, bindsEach, Leaf.value, hv]
    | bare v negated =>
      cases hv : v.isNull
      · simp [Settings.leafTests, bindsOnce, bindsEach, Leaf.value, hv, Nat.add_mul]
        omega
      · simp [bindsOnce, bindsEach, Leaf.value, hv]

/-! ## The compiled condition -/

/-- The tests of a compiled condition can be scanned, where the bare fields have no at signs. -/
theorem scannable_compiled {s : Settings} {batch : String} {q : Query} {f : Filter} (hf : s.filter q = .ok f)
    (hb : IsWord batch) (hbare : ∀ fields, s.policy.bareFields? = some fields → ∀ field ∈ fields, '@' ∉ field.toList) :
    ∀ t ∈ (labelled batch 0 f.tests).atoms, t.Scannable := by
  intro t ht
  obtain ⟨hfield, hsymbol, hname⟩ := compiled_test hf ht
  refine ⟨?_, hsymbol, fun id hid => ?_⟩
  · rcases hfield with ⟨-, -, -, -, hc⟩ | ⟨fields, hp, hm⟩
    · intro hat
      exact absurd (isColumnChar_of_isColumn hc _ hat) (by decide)
    · exact hbare fields hp _ hm
  · obtain ⟨i, rfl⟩ := hname id hid
    exact Placeholders.isWord_name hb i

/-- The placeholders of a compiled text are the names of the batch from the number zero on, in order and each once, and
the names that are bound are the same; there is one for each keyed leaf that is not null, and one for each bare leaf
that is not null and each bare field. -/
theorem placeholders_correspond {s : Settings} {batch : String} {q : Query} {c : Condition} (hb : IsWord batch)
    (hbare : ∀ fields, s.policy.bareFields? = some fields → ∀ field ∈ fields, '@' ∉ field.toList)
    (h : compile s batch q = .ok c) :
    placeholdersIn c.text.toList = (List.range (placeholderCount s q)).map (Placeholders.name batch) ∧
      (placeholdersIn c.text.toList).Nodup ∧ (c.params.map (·.1)).Perm (placeholdersIn c.text.toList) := by
  obtain ⟨f, hf, ht, hp⟩ := compile_ok h
  have hs : placeholdersIn c.text.toList = (List.range (placeholderCount s q)).map (Placeholders.name batch) := by
    have hc := placeholdersIn_chars (scannable_compiled hf hb hbare) (.inl rfl : Stops [])
    rw [List.append_nil, placeholdersIn, List.append_nil, values_labelled, length_values_tests hf,
      ← List.range_eq_range'] at hc
    rw [ht, hc]
  have hk := hp.map (·.1)
  rw [Bindings.keys_numbered, length_values_tests hf, ← List.range_eq_range'] at hk
  refine ⟨hs, ?_, ?_⟩
  · rw [hs, List.range_eq_range']
    exact Bindings.nodup_names batch 0 _
  · rw [hs]
    exact hk

theorem placeholders_correspond_note :
    placeholdersIn noteCondition.text.toList =
        (List.range (placeholderCount noteSettings noteQuery)).map (Placeholders.name "b") ∧
      (placeholdersIn noteCondition.text.toList).Nodup ∧
      (noteCondition.params.map (·.1)).Perm (placeholdersIn noteCondition.text.toList) :=
  placeholders_correspond (s := noteSettings) (show IsWord "b" by decide) (by rintro _ ⟨⟩; decide) rfl

end CompactSearch.Sql

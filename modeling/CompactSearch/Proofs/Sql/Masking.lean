/-
Bare values under a policy that names no field for them. A search with such a value is a mistake of the configuration,
and it fails with the leftmost bare value. But compiling stops at the first leaf that has no condition, so a keyed leaf
in front of this value, with a field that is no column, masks the mistake: then the search matches every row
(`search_of_unnamed`, `search_masks_bare_value`).
-/
import CompactSearch.Proofs.Sql.Search

namespace CompactSearch

/-- The policy names no field for bare values: neither of the two lists that could do so has an entry. -/
def FieldPolicy.NamesNoBareField (p : FieldPolicy) : Prop :=
  p.any.getD [] = [] ∧ p.isString.getD [] = []

instance (p : FieldPolicy) : Decidable p.NamesNoBareField := inferInstanceAs (Decidable (_ ∧ _))

theorem bareFields?_eq_none_iff {p : FieldPolicy} : p.bareFields? = none ↔ p.NamesNoBareField := by
  unfold FieldPolicy.bareFields? FieldPolicy.NamesNoBareField
  rcases p.any with _ | _ | ⟨x, xs⟩ <;> rcases p.isString with _ | _ | ⟨y, ys⟩ <;> simp

namespace Leaf

/-- A leaf without a field. -/
def IsBare (l : Leaf) : Prop := ∃ v negated, l = .bare v negated

/-- A keyed leaf whose field is no column. -/
def IsMisnamed (l : Leaf) : Prop := ∃ field op v negated, l = .keyed field op v negated ∧ ¬ Sql.IsDotted field.toList

/-- Of the leaves with a property, one comes first. -/
theorem exists_first {P : Leaf → Prop} {ls : List Leaf} (h : ∃ l ∈ ls, P l) :
    ∃ pre l post, ls = pre ++ l :: post ∧ P l ∧ ∀ l' ∈ pre, ¬ P l' := by
  classical
  obtain ⟨l, hfind⟩ := Option.isSome_iff_exists.1 (List.find?_isSome (p := fun l => decide (P l)).2 (by simpa using h))
  obtain ⟨hl, pre, post, heq, hpre⟩ := List.find?_eq_some_iff_append.1 hfind
  exact ⟨pre, l, post, heq, by simpa using hl, by simpa using hpre⟩

end Leaf

namespace Sql

variable {s : Settings} {batch : String}

/-- Without bare fields, the leaves that have no condition are the bare ones and those with a field that is no
column. -/
theorem refuses_iff_of_unnamed (hp : s.policy.NamesNoBareField) {l : Leaf} :
    s.Refuses l ↔ l.IsBare ∨ l.IsMisnamed := by
  cases l with
  | bare v negated =>
    have hbare : (Leaf.bare v negated).IsBare := ⟨v, negated, rfl⟩
    exact iff_of_true (bareFields?_eq_none_iff.2 hp) (.inl hbare)
  | keyed field op v negated =>
    constructor
    · intro h
      exact .inr ⟨field, op, v, negated, rfl, h⟩
    · rintro (⟨w, n, he⟩ | ⟨f, o, w, n, he, h⟩)
      · cases he
      · cases he
        exact h

/-- No leaf with a bad field stands in front of the first bare value: the search fails with this value. -/
theorem search_of_first_bare {t : String} {q : Query} (hp : s.policy.NamesNoBareField)
    (h : parse .relational t = .ok q) {pre post : List Leaf} {v : Value} {negated : Bool}
    (ha : q.atoms = pre ++ .bare v negated :: post) (hbare : ∀ l ∈ pre, ¬ l.IsBare)
    (hpre : ∀ l ∈ pre, ¬ l.IsMisnamed) : search s batch (some t) = .error ⟨v.text⟩ := by
  apply search_unanswerable
  refine .bare h ⟨pre, post, ha, bareFields?_eq_none_iff.2 hp, ?_⟩
  intro l hl
  rw [refuses_iff_of_unnamed hp]
  rintro (hb | hm)
  · exact hbare l hl hb
  · exact hpre l hl hm

/-- A leaf with a bad field stands in front of every bare value: the search matches every row. -/
theorem search_of_first_misnamed {t : String} {q : Query} (hp : s.policy.NamesNoBareField)
    (h : parse .relational t = .ok q) {pre post : List Leaf} (ha : q.atoms = pre ++ post)
    (hbare : ∀ l ∈ pre, ¬ l.IsBare) (hpre : ∃ l ∈ pre, l.IsMisnamed) :
    search s batch (some t) = .ok .tautology := by
  -- the first bad field is the first leaf that is refused, since no bare value stands in front of it
  obtain ⟨before, l, mid, rfl, ⟨field, op, v, negated, rfl, hf⟩, hbefore⟩ := Leaf.exists_first hpre
  have hfirst : s.RefusesFirst q (.keyed field op v negated) := by
    refine ⟨before, mid ++ post, by simp [ha], hf, ?_⟩
    intro l hl
    rw [refuses_iff_of_unnamed hp]
    rintro (hb | hm)
    · exact hbare l (List.mem_append_left _ hl) hb
    · exact hbefore l hl hm
  exact search_unrestricted (.invalidField h hfirst)

/-- Under a policy that names no field for bare values, a query with a bare value gets no condition. The search fails
with the leftmost bare value exactly if no keyed leaf in front of it has a field that is no column, and matches every
row otherwise. -/
theorem search_of_unnamed (s : Settings) (batch t : String) (q : Query) (hp : s.policy.NamesNoBareField)
    (h : parse .relational t = .ok q) (hb : ∃ l ∈ q.atoms, l.IsBare) :
    ∃ pre v negated post, q.atoms = pre ++ .bare v negated :: post ∧ (∀ l ∈ pre, ¬ l.IsBare) ∧
      (search s batch (some t) = .error ⟨v.text⟩ ↔ ∀ l ∈ pre, ¬ l.IsMisnamed) ∧
      (search s batch (some t) = .ok .tautology ↔ ∃ l ∈ pre, l.IsMisnamed) := by
  obtain ⟨pre, l, post, ha, ⟨v, negated, rfl⟩, hpre⟩ := Leaf.exists_first hb
  refine ⟨pre, v, negated, post, ha, hpre, ?_⟩
  by_cases hm : ∃ l ∈ pre, l.IsMisnamed
  · have hs : search s batch (some t) = .ok .tautology := search_of_first_misnamed hp h ha hpre hm
    constructor
    · constructor
      · intro he
        rw [hs] at he
        cases he
      · intro hn
        obtain ⟨l, hl, hbad⟩ := hm
        exact absurd hbad (hn l hl)
    · exact iff_of_true hs hm
  · have hn : ∀ l ∈ pre, ¬ l.IsMisnamed := fun l hl hbad => hm ⟨l, hl, hbad⟩
    have hs : search s batch (some t) = .error ⟨v.text⟩ := search_of_first_bare hp h ha hpre hn
    constructor
    · exact iff_of_true hs hn
    · constructor
      · intro ht
        rw [hs] at ht
        cases ht
      · intro he
        exact absurd he hm

/-- The bare value decides in `k:a (b OR 9:a)`, where the bad field comes after it. -/
theorem search_of_unnamed_bare_first :
    keyedOnly.policy.NamesNoBareField ∧
      parse .relational "k:a (b OR 9:a)" = .ok (.all [.atom (.keyed "k" .default (.string "a") false),
        .any [.atom (.bare (.string "b") false), .atom (.keyed "9" .default (.string "a") false)]]) ∧
      search keyedOnly "b" (some "k:a (b OR 9:a)") = .error ⟨"b"⟩ := by
  have hp : keyedOnly.policy.NamesNoBareField := by decide
  have h : parse .relational "k:a (b OR 9:a)" = .ok (.all [.atom (.keyed "k" .default (.string "a") false),
      .any [.atom (.bare (.string "b") false), .atom (.keyed "9" .default (.string "a") false)]]) := by
    decide +kernel
  refine ⟨hp, h, ?_⟩
  obtain ⟨pre, v, negated, post, ha, hpre, herror, -⟩ := search_of_unnamed keyedOnly "b" _ _ hp h
    ⟨.bare (.string "b") false, by simp [Formula.atoms, Formula.atomsList], _, _, rfl⟩
  simp only [Formula.atoms, Formula.atomsList, List.cons_append, List.nil_append] at ha
  rcases pre with _ | ⟨l, _ | ⟨m, pre⟩⟩
  · cases ha
  · simp only [List.cons_append, List.nil_append, List.cons.injEq, Leaf.bare.injEq] at ha
    obtain ⟨rfl, ⟨rfl, rfl⟩, -⟩ := ha
    apply herror.2
    rintro l hl ⟨field, op, w, n, he, hf⟩
    rw [List.mem_singleton.1 hl] at he
    cases he
    exact hf (isColumn_iff.1 (by decide))
  · -- the value `b` would stand in front of the first bare one
    simp only [List.cons_append, List.cons.injEq] at ha
    exact absurd ⟨_, _, ha.2.1.symm⟩ (hpre m (by simp))

/-- Not every search with a bare value fails under a policy that names no field for it: in `9:a x` the field `9` comes
first, and every row matches. -/
theorem search_masks_bare_value :
    ¬ ∀ (s : Settings) (batch t : String) (q : Query), s.policy.NamesNoBareField → parse .relational t = .ok q →
      (∃ l ∈ q.atoms, l.IsBare) → ∃ e, search s batch (some t) = .error e := by
  intro hall
  let nine : Leaf := .keyed "9" .default (.string "a") false
  let x : Leaf := .bare (.string "x") false
  have h : parse .relational "9:a x" = .ok (.all [.atom nine, .atom x]) := by decide +kernel
  have hb : ∃ l ∈ (Formula.all [.atom nine, .atom x]).atoms, l.IsBare :=
    ⟨x, by simp [Formula.atoms, Formula.atomsList], _, _, rfl⟩
  have hnine : keyedOnly.RefusesFirst (.all [.atom nine, .atom x]) nine :=
    ⟨[], [x], rfl, fun hc => absurd (isColumn_iff.2 hc) (by decide), by simp⟩
  obtain ⟨e, he⟩ := hall keyedOnly "b" "9:a x" _ (by decide) h hb
  rw [search_unrestricted (.invalidField h hnine)] at he
  cases he

end Sql

end CompactSearch

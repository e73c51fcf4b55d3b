/-
Relative dates in conditions. The two rules for the operator of a relative date give conditions with the same bindings,
and texts that are the same but for the signs of comparison of relative dates on date fields (`compile_dateOverride`).
What such a date is compared as is its ISO text, and the order of these texts is that of time (`iso_sorts_like_time`).

A query asks its tests of columns before the rule for dates is known (`Asked`). The rule puts in the signs only, so both
runs number the same values, and the parts of the text (`textParts`) are fixed apart from those of relative dates.
-/
import CompactSearch.Proofs.Sql.Search
import CompactSearch.Proofs.Time.Iso

namespace CompactSearch.Sql

/-! ## Tests before the rule for dates -/

/-- The sign that compares with a relative date. -/
def dateSign : DateOverride → Operator → String
  | .always, _ => "<="
  | .defaultOperatorOnly, .default => "<="
  | .defaultOperatorOnly, op => op.text

theorem comparisonText_dateSign (o : DateOverride) (op : Operator) :
    Condition.comparisonText (o.operator op) = dateSign o op := by
  cases o <;> cases op <;> rfl

/-- The rule changes what is typed as a sign other than `<=`. -/
theorem dateSign_ne_iff (op : Operator) :
    dateSign .always op ≠ dateSign .defaultOperatorOnly op ↔ op ≠ .default ∧ op ≠ .lte := by
  cases op <;> decide

/-- What is asked of a column: a test that no rule for dates changes, or how a relative date was compared. -/
inductive Asked where
  | fixed (t : ColumnTest Bound)
  | date (field : String) (op : Operator) (t : Instant)

namespace Asked

/-- The test under a rule for dates. -/
def test (o : DateOverride) : Asked → ColumnTest Bound
  | fixed t => t
  | date field op t => .compare field (dateSign o op) (.text t.iso)

/-- What the column is compared with, which no rule for dates changes. -/
def value? : Asked → Option Bound
  | fixed t => t.value?
  | date _ _ t => some (.text t.iso)

/-- The relative date, if it is one. -/
def date? : Asked → Option (String × Operator × Instant)
  | fixed _ => none
  | date field op t => some (field, op, t)

theorem value?_test (o : DateOverride) (a : Asked) : (a.test o).value? = a.value? := by
  cases a <;> rfl

/-- What the tests of a formula compare with, from left to right. -/
def values (g : Formula Asked) : List Bound := g.atoms.filterMap value?

/-- What the tests of a list of formulas compare with, from left to right. -/
def valuesList (gs : List (Formula Asked)) : List Bound := (Formula.atomsList gs).filterMap value?

theorem valuesList_cons (g : Formula Asked) (gs : List (Formula Asked)) :
    valuesList (g :: gs) = values g ++ valuesList gs :=
  List.filterMap_append

theorem values_test (o : DateOverride) (g : Formula Asked) : Sql.values (g.map (test o)) = values g := by
  rw [Sql.values, values, Formula.atoms_map, List.filterMap_map]
  exact List.filterMap_congr fun a _ => value?_test o a

end Asked

/-! ## What a query asks -/

/-- A relative date on a date field compares with its ISO text, whatever else the policy says of the field. -/
theorem Settings.keyedClause_of_date {s : Settings} {field : String} {op : Operator} {v : Value} {t : Instant}
    (h : s.relativeDate? field v = some t) :
    s.keyedClause field op v = .compare field (s.dateOverride.operator op) (.text t.iso) := by
  unfold keyedClause
  rw [h]
  cases v with
  | string => rfl
  | number | null => cases h

section Leaves

variable (policy : FieldPolicy) (now : Instant)

/-- A relative date that a leaf compares a date field with: the field, the operator that was typed, and the instant. -/
def relativeDateLeaf? : Leaf → Option (String × Operator × Instant)
  | .keyed field op (.string text) _ =>
    if policy.isDateField field then (RelativeDate.resolve? text now).map fun t => (field, op, t) else none
  | _ => none

theorem relativeDateLeaf?_keyed (o : DateOverride) (field : String) (op : Operator) (v : Value) (negated : Bool) :
    relativeDateLeaf? policy now (.keyed field op v negated) =
      (Settings.relativeDate? ⟨policy, o, now⟩ field v).map fun t => (field, op, t) := by
  cases v with
  | string text =>
    unfold relativeDateLeaf? Settings.relativeDate?
    dsimp only
    split <;> rfl
  | number | null => rfl

/-- What a leaf asks. -/
def askedLeaf (l : Leaf) : Except SearchError (Formula Asked) :=
  match relativeDateLeaf? policy now l with
  | some (field, op, t) => if isColumn field then .ok (.atom (.date field op t)) else .error (.invalidField field)
  | none => (Settings.leafFilter ⟨policy, .always, now⟩ l).map (Formula.map fun c => .fixed c.form)

/-- What a query asks. -/
def asked (q : Query) : Except SearchError (Formula Asked) := q.expand (askedLeaf policy now)

/-- No rule for dates changes a leaf that is no relative date. -/
theorem leafFilter_of_no_date {l : Leaf} (h : relativeDateLeaf? policy now l = none) (o : DateOverride) :
    Settings.leafFilter ⟨policy, o, now⟩ l = Settings.leafFilter ⟨policy, .always, now⟩ l := by
  cases l with
  | bare v negated => rfl
  | keyed field op v negated =>
    have hd : ∀ o, Settings.relativeDate? ⟨policy, o, now⟩ field v = none := fun o => by
      rw [relativeDateLeaf?_keyed policy now o, Option.map_eq_none_iff] at h
      exact h
    simp only [Settings.leafFilter, Settings.keyedClause, hd]

/-- The tests of a leaf under a rule for dates are what it asks, with the signs of the rule. -/
theorem leafFilter_asked (o : DateOverride) (l : Leaf) :
    (Settings.leafFilter ⟨policy, o, now⟩ l).map (Formula.map Clause.form) =
      (askedLeaf policy now l).map (Formula.map (Asked.test o)) := by
  unfold askedLeaf
  split
  · rename_i field op t h
    cases l with
    | bare v negated => cases h
    | keyed field' op' v negated =>
      rw [relativeDateLeaf?_keyed policy now o, Option.map_eq_some_iff] at h
      obtain ⟨t', hd, he⟩ := h
      cases he
      unfold Settings.leafFilter
      dsimp only
      rw [Settings.keyedClause_of_date hd]
      split
      · show Except.ok (Formula.atom (Clause.compare field (o.operator op) (.text t.iso)).form) = _
        rw [Settings.form_compare _ _ (by simp), comparisonText_dateSign]
        rfl
      · rfl
  · rename_i h
    rw [leafFilter_of_no_date policy now h]
    cases Settings.leafFilter ⟨policy, .always, now⟩ l with
    | error e => rfl
    | ok f =>
      show Except.ok (f.map Clause.form) = .ok ((f.map _).map (Asked.test o))
      rw [Formula.map_map]
      rfl

/-- The tests of a query under a rule for dates are what it asks, with the signs of the rule. -/
theorem filter_asked (o : DateOverride) (q : Query) :
    (Settings.filter ⟨policy, o, now⟩ q).map Filter.tests = (asked policy now q).map (Formula.map (Asked.test o)) := by
  unfold Settings.filter asked
  rw [Formula.map_expand, Formula.map_expand]
  exact congrArg (fun f => q.expand f) (funext (leafFilter_asked policy now o))

/-- A query fails under both rules in the same way, or has the tests of what it asks. -/
theorem filter_cases (q : Query) :
    (∃ e, ∀ o, Settings.filter ⟨policy, o, now⟩ q = .error e) ∨
      ∃ g, asked policy now q = .ok g ∧
        ∀ o, ∃ f, Settings.filter ⟨policy, o, now⟩ q = .ok f ∧ f.tests = g.map (Asked.test o) := by
  have hfilter := fun o => filter_asked policy now o q
  cases ha : asked policy now q with
  | error e =>
    refine .inl ⟨e, fun o => ?_⟩
    have ho := hfilter o
    rw [ha] at ho
    cases hf : Settings.filter ⟨policy, o, now⟩ q with
    | error e' => rw [hf] at ho; cases ho; rfl
    | ok f => rw [hf] at ho; cases ho
  | ok g =>
    refine .inr ⟨g, rfl, fun o => ?_⟩
    have ho := hfilter o
    rw [ha] at ho
    obtain ⟨f, hf, he⟩ := Formula.map_ok ho
    exact ⟨f, hf, he.symm⟩

variable {policy now}

/-- The relative dates that a leaf asks for. -/
theorem dates_askedLeaf {l : Leaf} {g : Formula Asked} (h : askedLeaf policy now l = .ok g) :
    g.atoms.filterMap Asked.date? = (relativeDateLeaf? policy now l).toList := by
  unfold askedLeaf at h
  split at h
  · rename_i field op t hd
    split at h
    · cases h
      rw [hd]
      rfl
    · cases h
  · rename_i hd
    obtain ⟨f, -, rfl⟩ := Formula.map_ok h
    rw [hd, Formula.atoms_map, List.filterMap_map]
    exact List.filterMap_eq_nil_iff.2 fun _ _ => rfl

/-- The relative dates that a query asks for are those of its leaves, in order. -/
theorem dates_asked {q : Query} {g : Formula Asked} (h : asked policy now q = .ok g) :
    g.atoms.filterMap Asked.date? = q.atoms.filterMap (relativeDateLeaf? policy now) := by
  obtain ⟨parts, hp, ha⟩ := Formula.atoms_expand h
  rw [ha]
  clear ha
  generalize q.atoms = leaves at hp ⊢
  induction hp with
  | nil => rfl
  | @cons l p leaves parts hl _ ih =>
    rw [List.flatMap_cons, List.filterMap_append, ih, dates_askedLeaf hl, List.filterMap_cons]
    cases relativeDateLeaf? policy now l <;> rfl

end Leaves

/-! ## The parts of the text -/

/-- A part of a text: fixed, or the test of a relative date. -/
inductive TextPart where
  | fixed (s : String)
  | date (field : String) (op : Operator) (t : Instant) (id : String)

namespace TextPart

/-- The part as it is written under a rule for dates. -/
def text (o : DateOverride) : TextPart → String
  | fixed s => s
  | date field op _ id => field ++ " " ++ dateSign o op ++ " @" ++ id

/-- The relative date, if it is one. -/
def date? : TextPart → Option (String × Operator × Instant)
  | fixed _ => none
  | date field op t _ => some (field, op, t)

/-- The rules write a part in two ways where a relative date was typed with a sign other than `<=`. -/
theorem text_ne_iff {p : TextPart} : p.text .always ≠ p.text .defaultOperatorOnly ↔
    ∃ field op t id, p = .date field op t id ∧ op ≠ .default ∧ op ≠ .lte := by
  cases p with
  | fixed s => simp [text]
  | date field op t id =>
    have hcancel : ∀ s s' : String, field ++ " " ++ s ++ " @" ++ id = field ++ " " ++ s' ++ " @" ++ id ↔ s = s' := by
      intro s s'
      rw [← String.toList_inj, ← String.toList_inj]
      simp only [String.toList_append, List.append_assoc, List.append_cancel_left_eq, List.append_cancel_right_eq]
    rw [text, text, ne_eq, hcancel]
    constructor
    · intro h
      exact ⟨field, op, t, id, rfl, (dateSign_ne_iff op).1 h⟩
    · rintro ⟨_, _, _, _, he, hop⟩
      cases he
      exact (dateSign_ne_iff op).2 hop

/-- Parts in parentheses, in front of others. -/
def group (ps rest : List TextPart) : List TextPart := fixed "(" :: (ps ++ fixed ")" :: rest)

theorem chars_group (o : DateOverride) (ps rest : List TextPart) :
    ((group ps rest).flatMap fun p => (p.text o).toList) =
      '(' :: ((ps.flatMap fun p => (p.text o).toList) ++ ')' :: rest.flatMap fun p => (p.text o).toList) := by
  simp [group, text]

theorem dates_group (ps rest : List TextPart) :
    (group ps rest).filterMap date? = ps.filterMap date? ++ rest.filterMap date? := by
  rw [group, List.filterMap_cons_none rfl, List.filterMap_append, List.filterMap_cons_none rfl]

theorem date_mem_group {field id : String} {op : Operator} {t : Instant} {ps rest : List TextPart} :
    date field op t id ∈ group ps rest ↔ date field op t id ∈ ps ∨ date field op t id ∈ rest := by
  simp [group]

end TextPart

mutual

/-- The parts of the text of what is asked, with placeholders numbered from left to right. -/
def textParts (batch : String) (n : Nat) : Formula Asked → List TextPart
  | .atom (.fixed t) => [.fixed (t.map fun _ => Placeholders.name batch n).text]
  | .atom (.date field op t) => [.date field op t (Placeholders.name batch n)]
  | .all [] => [.fixed "TRUE"]
  | .any [] => [.fixed "FALSE"]
  | .all (g :: gs) =>
    TextPart.group (textParts batch n g) (textPartsMore " AND " batch (n + (Asked.values g).length) gs)
  | .any (g :: gs) =>
    TextPart.group (textParts batch n g) (textPartsMore " OR " batch (n + (Asked.values g).length) gs)

/-- The parts of further formulas, each in parentheses and after the word. -/
def textPartsMore (word batch : String) (n : Nat) : List (Formula Asked) → List TextPart
  | [] => []
  | g :: gs =>
    .fixed word :: TextPart.group (textParts batch n g) (textPartsMore word batch (n + (Asked.values g).length) gs)

end

section Parts

variable {batch : String}

mutual

/-- The parts make up the text under each rule for dates. -/
theorem chars_asked (o : DateOverride) : ∀ (n : Nat) (g : Formula Asked),
    (labelled batch n (g.map (Asked.test o))).chars = (textParts batch n g).flatMap fun p => (p.text o).toList
  | n, .atom (.fixed _) | n, .atom (.date _ _ _) | n, .all [] | n, .any [] => by
    rw [textParts, List.flatMap_singleton]
    rfl
  | n, .all (g :: gs) => by
    rw [textParts, TextPart.chars_group, ← chars_asked o n g, ← charsMore_asked o " AND " _ gs, ← Asked.values_test o g]
    rfl
  | n, .any (g :: gs) => by
    rw [textParts, TextPart.chars_group, ← chars_asked o n g, ← charsMore_asked o " OR " _ gs, ← Asked.values_test o g]
    rfl

theorem charsMore_asked (o : DateOverride) (word : String) : ∀ (n : Nat) (gs : List (Formula Asked)),
    Expression.charsMore word.toList (labelledList batch n (Formula.mapList (Asked.test o) gs)) =
      (textPartsMore word batch n gs).flatMap fun p => (p.text o).toList
  | n, [] => rfl
  | n, g :: gs => by
    rw [textPartsMore, List.flatMap_cons, TextPart.chars_group, ← chars_asked o n g, ← charsMore_asked o word _ gs,
      ← Asked.values_test o g]
    rfl

end

mutual

theorem dates_textParts : ∀ (n : Nat) (g : Formula Asked),
    (textParts batch n g).filterMap TextPart.date? = g.atoms.filterMap Asked.date?
  | n, .atom (.fixed _) | n, .atom (.date _ _ _) | n, .all [] | n, .any [] => rfl
  | n, .all (g :: gs) | n, .any (g :: gs) => by
    rw [textParts, TextPart.dates_group, dates_textParts n g, dates_textPartsMore _ _ gs, ← List.filterMap_append]
    rfl

theorem dates_textPartsMore (word : String) : ∀ (n : Nat) (gs : List (Formula Asked)),
    (textPartsMore word batch n gs).filterMap TextPart.date? = (Formula.atomsList gs).filterMap Asked.date?
  | n, [] => rfl
  | n, g :: gs => by
    rw [textPartsMore, List.filterMap_cons_none rfl, TextPart.dates_group, dates_textParts n g,
      dates_textPartsMore word _ gs, ← List.filterMap_append]
    rfl

end

mutual

/-- The placeholder of a relative date is the one that is numbered for its text. -/
theorem numbered_of_textParts {field id : String} {op : Operator} {t : Instant} : ∀ {n : Nat} {g : Formula Asked},
    .date field op t id ∈ textParts batch n g → (id, .text t.iso) ∈ Bindings.numbered batch n (Asked.values g)
  | n, .atom (.fixed _), h | n, .all [], h | n, .any [], h => by cases List.mem_singleton.1 h
  | n, .atom (.date _ _ _), h => by
    cases List.mem_singleton.1 h
    exact List.mem_singleton_self _
  | n, .all (g :: gs), h | n, .any (g :: gs), h => by
    show _ ∈ Bindings.numbered batch n (Asked.valuesList (g :: gs))
    rw [Asked.valuesList_cons, Bindings.numbered_append, List.mem_append]
    exact (TextPart.date_mem_group.1 h).imp numbered_of_textParts numbered_of_textPartsMore

theorem numbered_of_textPartsMore {word field id : String} {op : Operator} {t : Instant} :
    ∀ {n : Nat} {gs : List (Formula Asked)}, .date field op t id ∈ textPartsMore word batch n gs →
      (id, .text t.iso) ∈ Bindings.numbered batch n (Asked.valuesList gs)
  | n, [], h => by cases h
  | n, g :: gs, h => by
    rw [Asked.valuesList_cons, Bindings.numbered_append, List.mem_append]
    have h' := (List.mem_cons.1 h).resolve_left (by simp)
    exact (TextPart.date_mem_group.1 h').imp numbered_of_textParts numbered_of_textPartsMore

end

end Parts

/-! ## The two runs -/

/-- The rule for dates decides signs of comparison and nothing else. For every query, both rules give the same error, of
the leftmost leaf that is refused, or conditions with the same bindings whose texts are put together from the same parts.
The parts that are not fixed are the relative dates of date fields, in the order of the leaves, each compared with its
ISO text; and the rules write them differently where the sign that was typed is neither the colon nor `<=`. -/
theorem compile_dateOverride (policy : FieldPolicy) (now : Instant) (batch : String) (q : Query) :
    let run := fun o => compile ⟨policy, o, now⟩ batch q
    (∃ l, Settings.RefusesFirst ⟨policy, .always, now⟩ q l ∧ ∀ o, run o = .error (refusal l)) ∨
    ∃ (params : Bindings) (parts : List TextPart),
      (∀ o, ∃ c, run o = .ok c ∧ c.params = params ∧ c.text.toList = parts.flatMap fun p => (p.text o).toList) ∧
      parts.filterMap TextPart.date? = q.atoms.filterMap (relativeDateLeaf? policy now) ∧
      (∀ field op t id, .date field op t id ∈ parts → params.lookup id = some (.text t.iso)) ∧
      ∀ p ∈ parts, p.text .always ≠ p.text .defaultOperatorOnly ↔
        ∃ field op t id, p = .date field op t id ∧ op ≠ .default ∧ op ≠ .lte := by
  intro run
  rcases filter_cases policy now q with ⟨e, he⟩ | ⟨g, hg, hf⟩
  · have herror : ∀ o, run o = .error e := fun o => by
      show (Settings.filter ⟨policy, o, now⟩ q).map _ = _
      rw [he o]
      rfl
    obtain ⟨l, hl, rfl⟩ := compile_error_iff.1 (herror .always)
    exact .inl ⟨l, hl, herror⟩
  obtain ⟨f, -, hft⟩ := hf .always
  have hvalues : ∀ o, values (g.map (Asked.test o)) = values f.tests := fun o => by
    rw [hft, Asked.values_test, Asked.values_test]
  refine .inr ⟨(Filter.write ⟨batch, 0⟩ f).1.params, textParts batch 0 g, fun o => ?_, ?_, ?_, fun p _ => p.text_ne_iff⟩
  · obtain ⟨f', hf', hft'⟩ := hf o
    refine ⟨(Filter.write ⟨batch, 0⟩ f').1, ?_, write_params_congr ?_, ?_⟩
    · show (Settings.filter ⟨policy, o, now⟩ q).map _ = _
      rw [hf']
      rfl
    · rw [hft', hvalues]
    · rw [write_text, hft', chars_asked]
  · rw [dates_textParts, dates_asked hg]
  · intro field op t id hp
    have hparams : (Filter.write ⟨batch, 0⟩ f).1.params.Perm _ := write_params 0 f
    have hkeys : ((Filter.write ⟨batch, 0⟩ f).1.params.map (·.1)).Nodup := by
      rw [(hparams.map (·.1)).nodup_iff, Bindings.keys_numbered]
      exact Bindings.nodup_names batch 0 _
    refine Bindings.lookup_of_mem hkeys (hparams.mem_iff.2 ?_)
    rw [hft, Asked.values_test]
    exact numbered_of_textParts hp

/-- Both rules write `<=` where a colon was typed, on a field that is matched by substring otherwise. -/
example :
    let policy : FieldPolicy := { isDate := some ["due"], isString := some ["due"] }
    let run := fun o op => compile ⟨policy, o, ⟨0, 0⟩⟩ "b" (.atom (.keyed "due" op (.string "1d") false))
    let bound : Bindings := [("pb_0", .text "1970-01-02T00:00:00.000Z")]
    run .always .default = .ok ⟨"due <= @pb_0", bound⟩ ∧
      run .defaultOperatorOnly .default = .ok ⟨"due <= @pb_0", bound⟩ ∧
      run .always .gt = .ok ⟨"due <= @pb_0", bound⟩ ∧
      run .defaultOperatorOnly .gt = .ok ⟨"due > @pb_0", bound⟩ := by
  decide +kernel

/-! ## The order of the bound texts -/

/-- The comparison that an operator is written as; the colon compares for equality. -/
def Relates {α : Type} [LT α] [LE α] : Operator → α → α → Prop
  | .default, a, b | .eq, a, b => a = b
  | .gte, a, b => b ≤ a
  | .gt, a, b => b < a
  | .lte, a, b => a ≤ b
  | .lt, a, b => a < b

/-- Comparisons are known from the order. -/
theorem relates_congr {α β : Type} [LinearOrder α] [LinearOrder β] {a b : α} {c d : β} (h : a < b ↔ c < d)
    (h' : b < a ↔ d < c) (op : Operator) : Relates op a b ↔ Relates op c d := by
  cases op with
  | default | eq =>
    show a = b ↔ c = d
    rw [le_antisymm_iff, le_antisymm_iff, ← not_lt, ← not_lt, ← not_lt, ← not_lt, h, h']
  | gte =>
    show b ≤ a ↔ d ≤ c
    rw [← not_lt, ← not_lt, h]
  | lte =>
    show a ≤ b ↔ c ≤ d
    rw [← not_lt, ← not_lt, h']
  | gt => exact h'
  | lt => exact h

/-- ISO texts are faithful, and their order is that of time. Read back by the calendar, the text of an instant is the
instant cut off to the millisecond, in every year. Where both years have four digits, the order of texts is that of the
milliseconds, so that comparing a stored text with the one that is bound for a relative date compares the times. -/
theorem iso_sorts_like_time :
    (∀ t : Instant, t.IsRepresentable →
      ∃ m, DateTime.read? t.iso = some m ∧ ∀ millis, m.At millis ↔ millis = t.total / 1000000) ∧
    ∀ t u : Instant, t.IsRepresentable → u.IsRepresentable → (0 ≤ t.date.year ∧ t.date.year ≤ 9999) →
      (0 ≤ u.date.year ∧ u.date.year ≤ 9999) →
        (t.iso ≤ u.iso ↔ t.total / 1000000 ≤ u.total / 1000000) ∧
        ∀ (s : Settings) (field : String) (op : Operator) (v : Value), s.relativeDate? field v = some u →
          ∃ op', s.keyedClause field op v = .compare field op' (.text u.iso) ∧
            (Relates op' t.iso u.iso ↔ Relates op' (t.total / 1000000) (u.total / 1000000)) := by
  constructor
  · intro t ht
    exact ⟨t.dateTime, t.read?_iso, fun _ => Instant.at_dateTime ht.nanos_lt⟩
  · intro t u ht hu hty huy
    have hlt := Instant.iso_lt_iff ht.nanos_lt hu.nanos_lt hty huy
    have hgt := Instant.iso_lt_iff hu.nanos_lt ht.nanos_lt huy hty
    have horder := relates_congr hlt hgt
    exact ⟨horder .lte, fun s field op v h => ⟨_, Settings.keyedClause_of_date h, horder _⟩⟩

/-- The first instant of all, and two instants around the start of 1970. -/
theorem iso_sorts_like_time_epoch :
    let t : Instant := ⟨-1, 999999999⟩
    let u : Instant := ⟨0, 1⟩
    let s : Settings := { policy := { isDate := some ["due"] }, dateOverride := .always, now := u }
    Instant.first.IsRepresentable ∧
      (∃ m, DateTime.read? Instant.first.iso = some m ∧ m.At (-8334601228800000)) ∧
      t.IsRepresentable ∧ u.IsRepresentable ∧ t.date = ⟨1969, 12, 31⟩ ∧ u.date = ⟨1970, 1, 1⟩ ∧ t.iso ≤ u.iso ∧
      s.relativeDate? "due" (.string "now") = some u ∧
      ∃ op, s.keyedClause "due" .gt (.string "now") = .compare "due" op (.text u.iso) ∧ Relates op t.iso u.iso := by
  intro t u s
  have hfirst : Instant.first.IsRepresentable := ⟨by decide +kernel, le_refl _, by decide +kernel⟩
  have ht : t.IsRepresentable := ⟨by decide, by decide +kernel, by decide +kernel⟩
  have hu : u.IsRepresentable := ⟨by decide, by decide +kernel, by decide +kernel⟩
  have hdate : s.relativeDate? "due" (.string "now") = some u := by decide +kernel
  obtain ⟨m, hm, hat⟩ := iso_sorts_like_time.1 Instant.first hfirst
  obtain ⟨hle, hclause⟩ := iso_sorts_like_time.2 t u ht hu (by decide +kernel) (by decide +kernel)
  obtain ⟨op, he, hop⟩ := hclause s "due" .gt (.string "now") hdate
  refine ⟨hfirst, ⟨m, hm, (hat _).2 (by decide +kernel)⟩, ht, hu, by decide +kernel, by decide +kernel,
    hle.2 (by decide), hdate, op, he, hop.2 ?_⟩
  cases he
  exact show t.total / 1000000 ≤ u.total / 1000000 by decide

end CompactSearch.Sql

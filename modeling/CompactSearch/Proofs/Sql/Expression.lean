/-
Boolean expressions as they stand in the text of a condition, and their reader. An expression is `TRUE`, `FALSE`, a test
of one column against a placeholder, or parts in parentheses with one of the words `AND` and `OR` between them.

The main statement is that reading is exact: whatever the columns and the placeholders are, the reader finds in the
written text the expression that was written, to the last character, up to connectives of a single part, which the
text does not show (`read_chars`).
-/
import CompactSearch.Proofs.Formula
import CompactSearch.Proofs.Sql.Column
import CompactSearch.Proofs.Text.Run

namespace CompactSearch.Sql

/-! ## Tests and expressions -/

/-- A test of one column, with `x` in the place of the value that it is compared with. -/
inductive ColumnTest (ι : Type) where
  | like (field : String) (x : ι)
  | compare (field symbol : String) (x : ι)
  | isNull (field : String)
deriving DecidableEq, Repr

namespace ColumnTest

variable {ι κ : Type}

def field : ColumnTest ι → String
  | like f _ => f
  | compare f _ _ => f
  | isNull f => f

/-- The sign of the comparison. -/
def symbol? : ColumnTest ι → Option String
  | compare _ s _ => some s
  | like _ _ | isNull _ => none

/-- What the column is compared with. -/
def value? : ColumnTest ι → Option ι
  | like _ x => some x
  | compare _ _ x => some x
  | isNull _ => none

def map (g : ι → κ) : ColumnTest ι → ColumnTest κ
  | like f x => like f (g x)
  | compare f s x => compare f s (g x)
  | isNull f => isNull f

theorem value?_map (g : ι → κ) (t : ColumnTest ι) : (t.map g).value? = t.value?.map g := by
  cases t <;> rfl

theorem field_map (g : ι → κ) (t : ColumnTest ι) : (t.map g).field = t.field := by
  cases t <;> rfl

theorem symbol?_map (g : ι → κ) (t : ColumnTest ι) : (t.map g).symbol? = t.symbol? := by
  cases t <;> rfl

/-- The test as it is written, with the name of a placeholder for the value. -/
def text : ColumnTest String → String
  | like f id => f ++ " LIKE @" ++ id ++ " ESCAPE '\\'"
  | compare f s id => f ++ " " ++ s ++ " @" ++ id
  | isNull f => f ++ " IS NULL"

end ColumnTest

/-- An expression over tests against placeholders, which are known by their names. -/
abbrev Expression := Formula (ColumnTest String)

mutual

/-- The characters of an expression. -/
def Expression.chars : Expression → List Char
  | .atom t => t.text.toList
  | .all [] => "TRUE".toList
  | .all (e :: es) => '(' :: (Expression.chars e ++ ')' :: Expression.charsMore " AND ".toList es)
  | .any [] => "FALSE".toList
  | .any (e :: es) => '(' :: (Expression.chars e ++ ')' :: Expression.charsMore " OR ".toList es)

/-- The characters of further parts, each in parentheses and after the word. -/
def Expression.charsMore (word : List Char) : List Expression → List Char
  | [] => []
  | e :: es => word ++ '(' :: (Expression.chars e ++ ')' :: Expression.charsMore word es)

end

/-! ## Reading -/

/-- What follows the text `w` at the front of a text. -/
def after? : (w cs : List Char) → Option (List Char)
  | [], cs => some cs
  | _ :: _, [] => none
  | w :: ws, c :: cs => if w = c then after? ws cs else none

/-- The signs of comparisons. -/
def symbols : List String := ["=", ">=", ">", "<=", "<"]

/-- A sign of comparison in front of a placeholder, and what follows the mark of the placeholder. -/
def readSymbol (cs : List Char) : Option (String × List Char) :=
  symbols.findSome? fun s => (after? (" " ++ s ++ " @").toList cs).map (s, ·)

/-- What is asked of a column, in front of a text, and what follows it. The name of a placeholder is the longest run of
letters, digits and underscores. -/
def readTail (field : String) (cs : List Char) : Option (ColumnTest String × List Char) :=
  match after? " IS NULL".toList cs with
  | some r => some (.isNull field, r)
  | none =>
    match after? " LIKE @".toList cs with
    | some r =>
      (after? " ESCAPE '\\'".toList (r.dropWhile isNameChar)).map fun r' =>
        (.like field (String.ofList (r.takeWhile isNameChar)), r')
    | none =>
      (readSymbol cs).map fun (s, r) =>
        (.compare field s (String.ofList (r.takeWhile isNameChar)), r.dropWhile isNameChar)

/-- A test at the front of a text, and what follows it. -/
def readTest (cs : List Char) : Option (ColumnTest String × List Char) :=
  let field := String.ofList (cs.takeWhile isColumnChar)
  if isColumn field then readTail field (cs.dropWhile isColumnChar) else none

/-- A test or a constant at the front of a text, and what follows it. -/
def readSimple (cs : List Char) : Option (Expression × List Char) :=
  match readTest cs with
  | some (t, r) => some (.atom t, r)
  | none =>
    match after? "TRUE".toList cs with
    | some r => some (.all [], r)
    | none => (after? "FALSE".toList cs).map (.any [], ·)

/-- An expression in parentheses, which `read` reads. -/
def readGroup (read : List Char → Option (Expression × List Char)) (cs : List Char) :
    Option (Expression × List Char) :=
  match after? ['('] cs with
  | none => none
  | some r =>
    match read r with
    | none => none
    | some (e, r') => (after? [')'] r').map (e, ·)

mutual

/-- An expression at the front of a text, and what follows it. The number bounds the characters of the expression. -/
def readFrom : Nat → List Char → Option (Expression × List Char)
  | 0, _ => none
  | n + 1, cs =>
    match readGroup (readFrom n) cs with
    | none => readSimple cs
    | some (e, r) =>
      match readMore n " AND ".toList r with
      | none => none
      | some (e' :: es, r') => some (.all (e :: e' :: es), r')
      | some ([], _) => (readMore n " OR ".toList r).map fun (es, r') => (.joined .any (e :: es), r')

/-- Further parts after the same word at the front of a text, and what follows them. -/
def readMore : Nat → (word cs : List Char) → Option (List Expression × List Char)
  | 0, _, _ => none
  | n + 1, word, cs =>
    match after? word cs with
    | none => some ([], cs)
    | some r =>
      match readGroup (readFrom n) r with
      | none => none
      | some (e, r') => (readMore n word r').map fun (es, r'') => (e :: es, r'')

end

/-- The expression that a whole text is. -/
def Expression.read (s : String) : Option Expression :=
  match readFrom (s.length + 1) s.toList with
  | some (e, []) => some e
  | _ => none

/-! ## What can be written -/

/-- The characters that a placeholder's name is made of. -/
def IsWord (s : String) : Prop := ∀ c ∈ s.toList, isNameChar c = true

instance : DecidablePred IsWord := fun _ => decidable_of_iff _ List.all_eq_true

/-- The test can be read back. -/
structure ColumnTest.Readable (t : ColumnTest String) : Prop where
  column : isColumn t.field = true
  symbol : ∀ s ∈ t.symbol?, s ∈ symbols
  name : ∀ id ∈ t.value?, IsWord id

/-- What can follow an expression: the end of the text or the end of the group around it. -/
def Stops (rest : List Char) : Prop := rest = [] ∨ ∃ r, rest = ')' :: r

theorem after?_append : ∀ w r : List Char, after? w (w ++ r) = some r
  | [], _ => rfl
  | c :: w, r => by rw [List.cons_append, after?, if_pos rfl, after?_append w r]

theorem after?_of_stops {c : Char} {w rest : List Char} (hc : c ≠ ')') (h : Stops rest) :
    after? (c :: w) rest = none := by
  rcases h with rfl | ⟨r, rfl⟩
  · rfl
  · rw [after?, if_neg hc]

theorem span_of_stops {p : Char → Bool} {cs rest : List Char} (h : ∀ c ∈ cs, p c = true) (hp : p ')' = false)
    (hr : Stops rest) : (cs ++ rest).takeWhile p = cs ∧ (cs ++ rest).dropWhile p = rest := by
  refine span_of_head rest h fun c hc => ?_
  rcases hr with rfl | ⟨r, rfl⟩
  · cases hc
  · cases hc
    exact hp

/-! ## Reading what was written -/

theorem readSymbol_of_stops {rest : List Char} (h : Stops rest) : readSymbol rest = none := by
  rcases h with rfl | ⟨r, rfl⟩ <;> rfl

theorem readTail_of_stops {field : String} {rest : List Char} (h : Stops rest) : readTail field rest = none := by
  rw [readTail, show " IS NULL".toList = ' ' :: "IS NULL".toList from rfl, after?_of_stops (by decide) h,
    show " LIKE @".toList = ' ' :: "LIKE @".toList from rfl, after?_of_stops (by decide) h, readSymbol_of_stops h]
  rfl

/-- A column in front of something that no column goes on with is read to its end. -/
theorem readTest_append {field : String} {rest : List Char} (h : isColumn field = true)
    (hr : ∀ c ∈ rest.head?, isColumnChar c = false) :
    readTest (field.toList ++ rest) = readTail field rest := by
  obtain ⟨ht, hd⟩ := span_of_head rest (isColumnChar_of_isColumn h) hr
  rw [readTest, ht, hd, String.ofList_toList, if_pos h]

theorem readTail_like {field id : String} {rest : List Char} (h : IsWord id) :
    readTail field (" LIKE @".toList ++ (id.toList ++ (" ESCAPE '\\'".toList ++ rest))) =
      some (.like field id, rest) := by
  obtain ⟨ht, hd⟩ := span_of_head (" ESCAPE '\\'".toList ++ rest) h (fun c hc => by cases hc; rfl)
  rw [readTail, after?_append]
  have hn : after? " IS NULL".toList (" LIKE @".toList ++ (id.toList ++ (" ESCAPE '\\'".toList ++ rest))) = none := rfl
  simp only [hn, ht, hd, after?_append, String.ofList_toList, Option.map_some]

theorem readSymbol_append {s : String} (h : s ∈ symbols) (rest : List Char) :
    readSymbol ((" " ++ s ++ " @").toList ++ rest) = some (s, rest) := by
  simp only [symbols, List.mem_cons, List.not_mem_nil, or_false] at h
  rcases h with rfl | rfl | rfl | rfl | rfl <;> rfl

theorem readTail_compare {field s id : String} {rest : List Char} (hs : s ∈ symbols) (h : IsWord id)
    (hr : Stops rest) :
    readTail field ((" " ++ s ++ " @").toList ++ (id.toList ++ rest)) = some (.compare field s id, rest) := by
  obtain ⟨ht, hd⟩ := span_of_stops h (by decide) hr
  have hn : after? " IS NULL".toList ((" " ++ s ++ " @").toList ++ (id.toList ++ rest)) = none ∧
      after? " LIKE @".toList ((" " ++ s ++ " @").toList ++ (id.toList ++ rest)) = none := by
    simp only [symbols, List.mem_cons, List.not_mem_nil, or_false] at hs
    rcases hs with rfl | rfl | rfl | rfl | rfl <;> exact ⟨rfl, rfl⟩
  simp only [readTail, hn.1, hn.2, readSymbol_append hs, ht, hd, String.ofList_toList, Option.map_some]

/-- A test is read back from its text. -/
theorem readTest_text {t : ColumnTest String} {rest : List Char} (ht : t.Readable) (hr : Stops rest) :
    readTest (t.text.toList ++ rest) = some (t, rest) := by
  cases t with
  | like f id =>
    have hf : isColumn f = true := ht.column
    have e : (ColumnTest.like f id).text.toList ++ rest =
        f.toList ++ (" LIKE @".toList ++ (id.toList ++ (" ESCAPE '\\'".toList ++ rest))) := by
      simp only [ColumnTest.text, String.toList_append, List.append_assoc]
    rw [e, readTest_append hf (fun c hc => by cases hc; rfl), readTail_like (ht.name id rfl)]
  | compare f s id =>
    have hf : isColumn f = true := ht.column
    have e : (ColumnTest.compare f s id).text.toList ++ rest =
        f.toList ++ ((" " ++ s ++ " @").toList ++ (id.toList ++ rest)) := by
      simp only [ColumnTest.text, String.toList_append, List.append_assoc]
    have hsp : ((" " ++ s ++ " @").toList ++ (id.toList ++ rest)).head? = some ' ' := by simp
    rw [e, readTest_append hf (fun c hc => by rw [hsp] at hc; cases hc; rfl),
      readTail_compare (ht.symbol s rfl) (ht.name id rfl) hr]
  | isNull f =>
    have hf : isColumn f = true := ht.column
    rw [ColumnTest.text, String.toList_append, List.append_assoc,
      readTest_append hf (fun c hc => by cases hc; rfl), readTail, after?_append]

theorem readSimple_text {t : ColumnTest String} {rest : List Char} (ht : t.Readable) (hr : Stops rest) :
    readSimple (t.text.toList ++ rest) = some (.atom t, rest) := by
  rw [readSimple, readTest_text ht hr]

/-- The words for the empty connectives could be columns, but nothing is asked of them. -/
theorem readSimple_true {rest : List Char} (hr : Stops rest) :
    readSimple ("TRUE".toList ++ rest) = some (.all [], rest) := by
  have hs := span_of_stops (List.all_eq_true.1 (rfl : "TRUE".toList.all isColumnChar = true)) (by decide) hr
  have ht : readTest ("TRUE".toList ++ rest) = none := by
    rw [readTest, hs.1, hs.2, readTail_of_stops hr, ite_self]
  rw [readSimple, ht, after?_append]

theorem readSimple_false {rest : List Char} (hr : Stops rest) :
    readSimple ("FALSE".toList ++ rest) = some (.any [], rest) := by
  have hs := span_of_stops (List.all_eq_true.1 (rfl : "FALSE".toList.all isColumnChar = true)) (by decide) hr
  have ht : readTest ("FALSE".toList ++ rest) = none := by
    rw [readTest, hs.1, hs.2, readTail_of_stops hr, ite_self]
  have hn : after? "TRUE".toList ("FALSE".toList ++ rest) = none := rfl
  rw [readSimple, ht, after?_append]
  simp only [hn, Option.map_some]

theorem readGroup_none {read : List Char → Option (Expression × List Char)} {c : Char} {cs : List Char}
    (h : '(' ≠ c) : readGroup read (c :: cs) = none := by
  rw [readGroup, after?, if_neg h]

theorem readGroup_some {read : List Char → Option (Expression × List Char)} {e : Expression} {cs rest : List Char}
    (h : read (cs ++ ')' :: rest) = some (e, ')' :: rest)) :
    readGroup read ('(' :: (cs ++ ')' :: rest)) = some (e, rest) := by
  rw [readGroup, after?, if_pos rfl, after?]
  simp only [h]
  rfl

theorem readFrom_simple {n : Nat} {c : Char} {cs : List Char} (h : '(' ≠ c) :
    readFrom (n + 1) (c :: cs) = readSimple (c :: cs) := by
  rw [readFrom, readGroup_none h]

/-- A test starts with its column. -/
theorem text_eq_cons {t : ColumnTest String} (h : t.Readable) :
    ∃ c cs, t.text.toList = c :: cs ∧ '(' ≠ c := by
  obtain ⟨c, cs, e, hc⟩ := column_eq_cons h.column
  have hp : t.field.toList <+: t.text.toList := by
    cases t <;> simp [ColumnTest.text, ColumnTest.field, String.toList_append]
  obtain ⟨r, hr⟩ := hp
  refine ⟨c, cs ++ r, by rw [← hr, e, List.cons_append], ?_⟩
  rintro rfl
  exact absurd hc (by decide)

theorem and_of_stops {rest : List Char} (h : Stops rest) : after? " AND ".toList rest = none :=
  after?_of_stops (c := ' ') (w := "AND ".toList) (by decide) h

theorem or_of_stops {rest : List Char} (h : Stops rest) : after? " OR ".toList rest = none :=
  after?_of_stops (c := ' ') (w := "OR ".toList) (by decide) h

theorem readMore_nil {n : Nat} {word cs : List Char} (h : after? word cs = none) :
    readMore (n + 1) word cs = some ([], cs) := by
  rw [readMore, h]

/-- Parts after the one word are no parts after the other. -/
theorem and_of_or {es : List Expression} {rest : List Char} (h : Stops rest) :
    after? " AND ".toList (Expression.charsMore " OR ".toList es ++ rest) = none := by
  cases es with
  | nil => exact and_of_stops h
  -- the two words part at their second character
  | cons e es => rfl

mutual

-- The recursion is on the expression; all that is asked of the number is that it exceeds the characters that are left.
/-- Reading takes from the front of a text exactly the expression that was written there. -/
theorem readFrom_chars : ∀ {n : Nat} (e : Expression) (rest : List Char), e.chars.length < n → Stops rest →
    (∀ t ∈ e.atoms, t.Readable) → readFrom n (e.chars ++ rest) = some (e.collapse, rest)
  | 0, _, _, h, _, _ => absurd h (Nat.not_lt_zero _)
  | n + 1, .atom t, rest, _, hr, ha => by
    have ht := ha t (List.mem_singleton_self t)
    obtain ⟨c, cs, e, hc⟩ := text_eq_cons ht
    rw [Expression.chars, e, List.cons_append, readFrom_simple hc, ← List.cons_append, ← e, readSimple_text ht hr]
    rfl
  | n + 1, .all [], rest, _, hr, _ => by
    show readFrom (n + 1) ('T' :: ("RUE".toList ++ rest)) = _
    rw [readFrom_simple (by decide)]
    exact readSimple_true hr
  | n + 1, .any [], rest, _, hr, _ => by
    show readFrom (n + 1) ('F' :: ("ALSE".toList ++ rest)) = _
    rw [readFrom_simple (by decide)]
    exact readSimple_false hr
  | 1, .all (e :: es), _, hl, _, _ | 1, .any (e :: es), _, hl, _, _ => by
    rw [Expression.chars, List.length_cons] at hl
    omega
  | n + 2, .all (e :: es), rest, hl, hr, ha => by
    rw [Expression.chars, List.length_cons, List.length_append, List.length_cons] at hl
    have h := readFrom_chars (n := n + 1) e (')' :: (Expression.charsMore " AND ".toList es ++ rest))
      (by omega) (.inr ⟨_, rfl⟩) fun t ht => ha t (List.mem_append_left _ ht)
    have hs := readMore_chars (n := n + 1) (fun _ => and_of_stops) es rest (by omega) hr
      fun t ht => ha t (List.mem_append_right _ ht)
    rw [Expression.chars, List.cons_append, List.append_assoc, List.cons_append, readFrom, readGroup_some h]
    cases es with
    | nil =>
      -- one part reads as itself: neither word follows it
      have ho := readMore_nil (n := n) (or_of_stops hr)
      simp only [Expression.charsMore, List.nil_append] at hs ⊢
      simp only [hs, ho, Formula.collapseList, Option.map_some]
      rfl
    | cons e' es =>
      simp only [hs, Formula.collapseList]
      rfl
  | n + 2, .any (e :: es), rest, hl, hr, ha => by
    rw [Expression.chars, List.length_cons, List.length_append, List.length_cons] at hl
    have h := readFrom_chars (n := n + 1) e (')' :: (Expression.charsMore " OR ".toList es ++ rest))
      (by omega) (.inr ⟨_, rfl⟩) fun t ht => ha t (List.mem_append_left _ ht)
    have hs := readMore_chars (n := n + 1) (fun _ => or_of_stops) es rest (by omega) hr
      fun t ht => ha t (List.mem_append_right _ ht)
    rw [Expression.chars, List.cons_append, List.append_assoc, List.cons_append, readFrom, readGroup_some h]
    simp only [readMore_nil (and_of_or hr), hs, Option.map_some]
    rfl

/-- The same for further parts after a word that does not stand at the end of a group. -/
theorem readMore_chars : ∀ {n : Nat} {word : List Char} (_ : ∀ r, Stops r → after? word r = none)
    (es : List Expression) (rest : List Char), (Expression.charsMore word es).length < n → Stops rest →
    (∀ t ∈ Formula.atomsList es, t.Readable) →
      readMore n word (Expression.charsMore word es ++ rest) = some (Formula.collapseList es, rest)
  | 0, _, _, _, _, h, _, _ => absurd h (Nat.not_lt_zero _)
  | n + 1, word, hw, [], rest, _, hr, _ => readMore_nil (hw rest hr)
  | n + 1, word, hw, e :: es, rest, hl, hr, ha => by
    rw [Expression.charsMore, List.length_append, List.length_cons, List.length_append, List.length_cons] at hl
    have h := readFrom_chars (n := n) e (')' :: (Expression.charsMore word es ++ rest))
      (by omega) (.inr ⟨_, rfl⟩) fun t ht => ha t (List.mem_append_left _ ht)
    have hs := readMore_chars (n := n) hw es rest (by omega) hr
      fun t ht => ha t (List.mem_append_right _ ht)
    rw [Expression.charsMore, List.append_assoc, List.cons_append, List.append_assoc, List.cons_append, readMore,
      after?_append]
    simp only [readGroup_some h, hs, Option.map_some]
    rfl

end

/-- The reader finds the expression that a text was written from. -/
theorem Expression.read_chars {e : Expression} {s : String} (h : s.toList = e.chars)
    (ha : ∀ t ∈ e.atoms, t.Readable) : Expression.read s = some e.collapse := by
  have hr := readFrom_chars (n := s.length + 1) e [] (by rw [← h, String.length_toList]; omega) (.inl rfl) ha
  rw [List.append_nil, ← h] at hr
  rw [Expression.read, hr]

end CompactSearch.Sql

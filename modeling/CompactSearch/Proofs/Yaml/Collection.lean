/-
Block collections read back. A sequence stands in the column of the mapping around it, one scalar to a line
(`blockItems?_items`), and a mapping has one member to a key (`blockEntries?_members`). What may stand behind the
colon of a key is told by what reading it comes to (`ReadsValue`): nothing but a pair of brackets, a word, or a
sequence or a mapping on the lines below.
-/
import CompactSearch.Proofs.Yaml.Scalar

namespace CompactSearch.Yaml

variable {base column fuel l : Nat} {c : Char} {cs r t : List Char} {k k' : Cursor} {s : String} {isPlain : Bool}

/-! ## Tokens -/

theorem Cursor.atEnd_of_column (h : k.column ≠ 0) (hk : k.rest = c :: r) : k.atEnd = false := by
  simp [atEnd, hk, h]

theorem Cursor.atEnd_of_isAlpha (h : c.isAlpha = true) (hk : k.rest = c :: r) : k.atEnd = false := by
  have hdash : '-' ≠ c := (ne_of_class h (by decide)).symm
  have hpoint : '.' ≠ c := (ne_of_class h (by decide)).symm
  simp [atEnd, hk, isMarker, startsDocument, endsDocument, hdash, hpoint]

theorem Cursor.next?_ne_of_isAlpha {d : Char} (h : c.isAlpha = true) (hk : k.rest = c :: r) (hd : d.isAlpha = false) :
    k.next? ≠ some d := by
  rw [next?, hk]
  exact fun hc => ne_of_class h hd (Option.some.inj hc)

/-- There is no colon in front of the first word of a line. -/
theorem keyEnd?_onLine {start : Cursor} (hk : k'.toToken false = k.onLine l t) (ht : StartsEntry t) :
    keyEnd? start k' = none := by
  have hcolon := ht.head_ne_colon
  rw [keyEnd?, hk]
  simp [Cursor.isColonOf, Cursor.next?, Cursor.onLine, hcolon]

/-- The colon right behind a key. -/
theorem keyEnd?_colon {start : Cursor} (hk : k.rest = ':' :: r) (hr : endsWord r = true)
    (hline : k.position.line = start.position.line) (hcolumn : k.column ≤ start.column + 1024) :
    keyEnd? start k = some k := by
  have htoken : k.toToken false = k := by
    refine Cursor.toToken_of_startsToken ?_
    rw [hk]
    exact startsToken_colon
  rw [keyEnd?, htoken]
  simp [Cursor.isColonOf, Cursor.atIndicator, Cursor.next?, hk, hr, hline, hcolumn]

/-! ## Scalars -/

theorem lineNode?_scalar (h : k.StartsScalar) : lineNode? (fuel + 2) base {} k = scalarNode? false base none k := by
  rw [lineNode?, if_neg (h.next?_ne (by decide)), if_neg (by simp), content?, if_neg (h.next?_ne (by decide)),
    if_neg (h.next?_ne (by decide))]
  exact Option.map_id'

/-- A node of one line without properties, which may be the first key of a mapping. -/
theorem blockNode?_line {n : Node} {indentless : Bool} (hitem : k.atIndicator '-' = false)
    (hkey : k.atIndicator '?' = false) (hanchor : k.next? ≠ some '&') (htag : k.next? ≠ some '!')
    (h : lineNode? fuel base {} k = some (n, k')) :
    blockNode? (fuel + 1) base indentless k = orMapping? fuel k n k' := by
  rw [blockNode?, if_neg (by simp [hitem]), if_neg (by simp [hkey]), if_neg (not_or.2 ⟨hanchor, htag⟩), h]

/-- A scalar that is no key. -/
theorem blockNode?_scalar (fuel : Nat) (indentless : Bool) (h : k.ReadsScalar base isPlain s t) (ht : StartsEntry t) :
    ∃ k' l, blockNode? (fuel + 3) base indentless k = some (.scalar none isPlain s, k') ∧
      k'.toToken false = k.onLine l t := by
  obtain ⟨hstart, k', l, hscalar, hline⟩ := h
  have hnode : lineNode? (fuel + 2) base {} k = some (.scalar none isPlain s, k') :=
    (lineNode?_scalar hstart).trans hscalar
  refine ⟨k', l, ?_, hline⟩
  rw [blockNode?_line hstart.1 hstart.2.1 (hstart.next?_ne (by decide)) (hstart.next?_ne (by decide)) hnode,
    orMapping?, keyEnd?_onLine hline ht]

/-- A value to the right of its key. -/
theorem blockValue?_of_le {indentless : Bool} (hk : k.atEnd = false) (hcolumn : base ≤ k.column) :
    blockValue? (fuel + 1) base indentless k = blockNode? fuel base indentless k := by
  rw [blockValue?, if_neg (by simp [hk]), if_pos hcolumn]

/-! ## Sequences -/

/-- The node that a text is read as. -/
def textNode (s : String) : Node := .scalar none (styleOf s.toList == .plain) s

/-- The lines of a sequence in a column. -/
def itemLines (column : Nat) (ss : List String) : List Char :=
  ss.flatMap fun s => spaces column ++ '-' :: ' ' :: scalarLine (column + 2) s

/-- A line that starts with a key, or the end of the text. -/
def StartsKey (t : List Char) : Prop := ∀ c ∈ (wordOf t).head?, c.isAlpha = true

theorem StartsKey.startsEntry (h : StartsKey t) : StartsEntry t := fun c hc => .inl (h c hc)

theorem itemLines_cons (s : String) (ss : List String) (t : List Char) : itemLines column (s :: ss) ++ t =
    spaces column ++ '-' :: (' ' :: (scalarLine (column + 2) s ++ (itemLines column ss ++ t))) := by
  simp [itemLines]

theorem startsEntry_itemLines (ss : List String) (ht : StartsEntry t) : StartsEntry (itemLines column ss ++ t) := by
  cases ss with
  | nil => exact ht
  | cons s ss =>
    rw [itemLines_cons]
    exact startsEntry_spaces_cons column (.inr rfl)

theorem indentOf_itemLines (ss : List String) (ht : indentOf t < column + 1) :
    indentOf (itemLines column ss ++ t) < column + 1 := by
  cases ss with
  | nil => exact ht
  | cons s ss =>
    rw [itemLines_cons, indentOf_spaces_cons (by decide)]
    exact Nat.lt_succ_self column

/-- The items of a sequence that stands in the column of the mapping around it, up to the next key. -/
theorem blockItems?_items (hcolumn : 0 < column) (ht : StartsKey t) (hindent : indentOf t < column + 1) :
    ∀ (ss : List String) (fuel l : Nat) (k : Cursor), (itemLines column ss).length + 5 ≤ fuel →
      ∃ l', blockItems? fuel true column (k.onLine l (itemLines column ss ++ t)) =
        some (ss.map textNode, k.onLine l' t)
  | [], fuel, l, k, hfuel => by
    obtain ⟨fuel, rfl⟩ : ∃ m, fuel = m + 1 := ⟨fuel - 1, by omega⟩
    -- the sequence ends at the next key, because it stands in the column of the keys and has no end of its own
    have hdash : (k.onLine l t).atIndicator '-' = false := by
      have hne : (wordOf t).head? ≠ some '-' := fun hc => absurd (ht '-' hc) (by decide)
      simp [Cursor.atIndicator, Cursor.next?, Cursor.onLine, hne]
    refine ⟨l, ?_⟩
    rw [itemLines, List.flatMap_nil, List.nil_append, blockItems?]
    simp [hdash]
  | s :: ss, fuel, l, k, hfuel => by
    obtain ⟨fuel, rfl⟩ : ∃ m, fuel = m + 5 := ⟨fuel - 5, by omega⟩
    let t' := itemLines column ss ++ t
    let k₀ : Cursor :=
      { k with rest := '-' :: ' ' :: (scalarLine (column + 2) s ++ t'), position := ⟨l, column⟩, fresh := true }
    let k₁ : Cursor := { k with rest := scalarLine (column + 2) s ++ t', position := ⟨l, column + 2⟩, fresh := true }
    have hfirst : k.onLine l (itemLines column (s :: ss) ++ t) = k₀ := by
      rw [itemLines_cons, Cursor.onLine_spaces_cons (by decide)]
    have hitem : (k₀.skip 1).freshen.toToken false = k₁ :=
      Cursor.toToken_blank rfl (startsToken_scalarLine (column + 2) s t')
    have hread : k₁.ReadsScalar (column + 1) (styleOf s.toList == .plain) s t' :=
      readsScalar_scalarLine (Nat.succ_pos column) rfl (Nat.succ_ne_zero _) (startsEntry_itemLines ss ht.startsEntry)
        (indentOf_itemLines ss hindent)
    obtain ⟨k₂, l₂, hnode, hline⟩ := blockNode?_scalar fuel false hread (startsEntry_itemLines ss ht.startsEntry)
    -- an item has at least the two characters of its dash, which pay for the step
    have hrest : (itemLines column ss).length + 5 ≤ fuel + 4 := by
      rw [itemLines, List.flatMap_cons, List.length_append, List.length_append, List.length_cons,
        List.length_cons] at hfuel
      rw [itemLines]
      omega
    obtain ⟨l', hitems⟩ := blockItems?_items hcolumn ht hindent ss (fuel + 4) l₂ k hrest
    have hend : k₁.atEnd = false := by
      obtain ⟨c, r, hcons⟩ := List.exists_cons_of_ne_nil (scalarLine_ne_nil (column + 2) s)
      have hk : k₁.rest = c :: (r ++ t') := congrArg (· ++ t') hcons
      exact Cursor.atEnd_of_column (Nat.succ_ne_zero _) hk
    have hvalue : blockValue? (fuel + 4) (column + 1) false k₁ = some (textNode s, k₂) := by
      rw [blockValue?_of_le hend (Nat.le_succ _), hnode]
      rfl
    have hdash : k₀.atIndicator '-' = true := rfl
    have hend₀ : k₀.atEnd = false := Cursor.atEnd_of_column hcolumn.ne' rfl
    refine ⟨l', ?_⟩
    rw [hfirst, blockItems?, if_neg (by simp [hend₀, k₀, Cursor.column]), if_pos ⟨rfl, hdash⟩, hitem, hvalue]
    simp only
    rw [hline]
    exact congrArg (Option.map _) hitems

/-! ## Values -/

/-- A word that is no longer than a key may be. -/
def IsKey (cs : List Char) : Prop := cs ≠ [] ∧ cs.all Char.isAlpha = true ∧ cs.length ≤ 1024

instance : DecidablePred IsKey := fun cs =>
  inferInstanceAs (Decidable (cs ≠ [] ∧ cs.all Char.isAlpha = true ∧ cs.length ≤ 1024))

theorem IsKey.isAlpha {key : List Char} (h : IsKey key) : ∀ c ∈ key, c.isAlpha = true := List.all_eq_true.1 h.2.1

/-- A key starts with a letter. -/
theorem IsKey.cons {key : List Char} (h : IsKey key) : ∃ c cs, key = c :: cs ∧ c.isAlpha = true := by
  obtain ⟨c, cs, rfl⟩ := List.exists_cons_of_ne_nil h.1
  exact ⟨c, cs, rfl, h.isAlpha c List.mem_cons_self⟩

/-- The text `v` behind the colon of a key is read as the node `n`, if the line behind it starts with a key to the
left of `base`. -/
structure ReadsValue (base : Nat) (v : List Char) (n : Node) : Prop where
  ne_nil : v ≠ []
  ends : endsWord v = true
  reads : ∀ (fuel : Nat) (k : Cursor) (t : List Char), k.rest = v ++ t → base ≤ k.column → StartsKey t →
    indentOf t < base → 2 * v.length + 8 ≤ fuel →
      ∃ k' l, blockValue? fuel base true (k.toToken false) = some (n, k') ∧ k'.toToken false = k.onLine l t

/-- A sequence on the lines below the key, in the column of the key. -/
theorem readsValue_items {ss : List String} (hcolumn : 0 < column) (hss : ss ≠ []) :
    ReadsValue (column + 1) ('\n' :: itemLines column ss) (.sequence (ss.map textNode)) where
  ne_nil := List.cons_ne_nil _ _
  ends := rfl
  reads fuel k t hk _ ht hindent hfuel := by
    obtain ⟨fuel, rfl⟩ : ∃ m, fuel = m + 1 := ⟨fuel - 1, by omega⟩
    obtain ⟨s, ss, rfl⟩ := List.exists_cons_of_ne_nil hss
    let k₀ : Cursor := k.onLine (k.position.line + 1) (itemLines column (s :: ss) ++ t)
    have hline : k.toToken false = k₀ := Cursor.toToken_newline hk (startsEntry_itemLines _ ht.startsEntry)
    have hfirst : k₀.rest = '-' :: (' ' :: (scalarLine (column + 2) s ++ (itemLines column ss ++ t))) ∧
        k₀.column = column := by
      simp only [k₀, itemLines_cons, Cursor.onLine_spaces_cons (show '-' ≠ ' ' by decide), Cursor.column, and_self]
    obtain ⟨hrest, hcol⟩ := hfirst
    have hend : k₀.atEnd = false := Cursor.atEnd_of_column (by omega) hrest
    have hdash : k₀.atIndicator '-' = true := by
      rw [Cursor.atIndicator, Cursor.next?, hrest]
      rfl
    obtain ⟨l', hitems⟩ := blockItems?_items hcolumn ht hindent (s :: ss) fuel (k.position.line + 1) k (by
      rw [List.length_cons] at hfuel
      omega)
    refine ⟨k.onLine l' t, l', ?_, Cursor.toToken_onLine ht.startsEntry⟩
    rw [hline, blockValue?, if_neg (by simp [hend]), if_neg (by omega), if_pos ⟨by rw [hcol], rfl, rfl, hdash⟩,
      hcol, hitems]
    rfl

/-- A word behind the key. -/
theorem readsValue_word (h : IsKey s.toList) : ReadsValue base (' ' :: s.toList ++ ['\n']) (.scalar none true s) where
  ne_nil := List.cons_ne_nil _ _
  ends := rfl
  reads fuel k t hk hcolumn ht hindent hfuel := by
    obtain ⟨fuel, rfl⟩ : ∃ m, fuel = m + 4 := ⟨fuel - 4, by omega⟩
    obtain ⟨c, cs, hcs, hc⟩ := h.cons
    have hfull : s = String.ofList (c :: cs) := by rw [← hcs, String.ofList_toList]
    have hword := h.isAlpha
    rw [hcs] at hk hword
    let k₁ : Cursor := { k with rest := c :: (cs ++ '\n' :: t), position := k.position.right 1 }
    have hrest : k.rest = ' ' :: (c :: (cs ++ '\n' :: t)) := by simpa using hk
    have htoken : k.toToken false = k₁ := by
      rw [Cursor.toToken_blank hrest (startsToken_of_isAlpha hc), Cursor.skip, hrest]
      rfl
    have hread : k₁.ReadsScalar base true (String.ofList (c :: cs)) t :=
      readsScalar_plain rfl (startsPlain_of_isAlpha hc) (isPlainText_of_isAlpha hword) (Nat.succ_ne_zero _)
        ht.startsEntry hindent
    obtain ⟨k', l, hnode, hline⟩ := blockNode?_scalar fuel true hread ht.startsEntry
    refine ⟨k', l, ?_, hline⟩
    rw [htoken, blockValue?_of_le (Cursor.atEnd_of_isAlpha hc rfl) (Nat.le_succ_of_le hcolumn), hnode, hfull]

/-- A closing bracket is the next token. -/
theorem flowToken?_close (hk : k.rest = c :: r) (hcolumn : k.column ≠ 0) (hc : c = ']' ∨ c = '\x7d') :
    k.flowToken? = some k := by
  have hend : k.atEnd = false := Cursor.atEnd_of_column hcolumn hk
  have htoken : k.toToken true = k := by
    rw [Cursor.toToken, hk]
    rcases hc with rfl | rfl <;> simp [skipGaps, isBreak, byteOrderMark, ← hk]
  simp [Cursor.flowToken?, htoken, hend, hcolumn]

/-- No entries up to a closing bracket. -/
theorem flowEntries?_close (hk : k.rest = c :: r) : flowEntries? (fuel + 1) c base true k = some ([], k.skip 1) := by
  rw [flowEntries?, if_pos (by rw [Cursor.next?, hk]; rfl)]

/-- A pair of brackets at a cursor. -/
theorem content?_brackets (isSequence : Bool) {tag : Option String}
    (hk : k.rest = if isSequence then '[' :: ']' :: r else '\x7b' :: '\x7d' :: r) :
    content? (fuel + 2) false base tag k =
      some (if isSequence then .sequence [] else .mapping [], (k.skip 1).skip 1) := by
  have hcolumn : (k.skip 1).column ≠ 0 := Nat.succ_ne_zero _
  cases isSequence with
  | false =>
    have hnext : k.next? = some '\x7b' := by rw [Cursor.next?, hk]; rfl
    have hrest : (k.skip 1).rest = '\x7d' :: r := by rw [Cursor.skip, hk]; rfl
    rw [content?, if_neg (by simp [hnext]), if_pos hnext, flowToken?_close hrest hcolumn (.inr rfl)]
    simp [flowEntries?_close hrest]
  | true =>
    have hnext : k.next? = some '[' := by rw [Cursor.next?, hk]; rfl
    have hrest : (k.skip 1).rest = ']' :: r := by rw [Cursor.skip, hk]; rfl
    rw [content?, if_pos hnext, flowToken?_close hrest hcolumn (.inl rfl)]
    simp [flowEntries?_close hrest]

/-- A pair of brackets behind the key. -/
theorem readsValue_brackets (isSequence : Bool) :
    ReadsValue base (if isSequence then " []\n".toList else " \x7b\x7d\n".toList)
      (if isSequence then .sequence [] else .mapping []) where
  ne_nil := by cases isSequence <;> decide
  ends := by cases isSequence <;> rfl
  reads fuel k t hk hcolumn ht hindent hfuel := by
    obtain ⟨fuel, rfl⟩ : ∃ m, fuel = m + 5 := ⟨fuel - 5, by omega⟩
    obtain ⟨c, r, hrest, hc, hcons⟩ : ∃ c r, k.rest = ' ' :: c :: r ∧ (c = '[' ∨ c = '\x7b') ∧
        c :: r = if isSequence then '[' :: ']' :: '\n' :: t else '\x7b' :: '\x7d' :: '\n' :: t := by
      cases isSequence with
      | false => exact ⟨'\x7b', _, hk, .inr rfl, rfl⟩
      | true => exact ⟨'[', _, hk, .inl rfl, rfl⟩
    let k₁ : Cursor := { k with rest := c :: r, position := k.position.right 1 }
    have hword : k.toToken false = k₁ := by
      have htoken : StartsToken (c :: r) := by
        rintro _ ⟨⟩
        rcases hc with rfl | rfl <;> decide
      rw [Cursor.toToken_blank hrest htoken, Cursor.skip, hrest]
      rfl
    have hend : k₁.atEnd = false := Cursor.atEnd_of_column (Nat.succ_ne_zero _) rfl
    have hline : ((k₁.skip 1).skip 1).toToken false = k.onLine (k.position.line + 1) t := by
      refine Cursor.toToken_newline ?_ ht.startsEntry
      simp only [Cursor.skip, k₁, hcons]
      cases isSequence <;> rfl
    have hnext : ∀ d, d ≠ '[' → d ≠ '\x7b' → k₁.next? ≠ some d := by
      rintro d h₁ h₂ h
      rcases hc with rfl | rfl <;> cases h <;> contradiction
    have hnode : lineNode? (fuel + 3) base {} k₁ =
        some (if isSequence then .sequence [] else .mapping [], (k₁.skip 1).skip 1) := by
      rw [lineNode?, if_neg (hnext '*' (by decide) (by decide)), if_neg (by simp), content?_brackets isSequence hcons]
      rfl
    refine ⟨(k₁.skip 1).skip 1, _, ?_, hline⟩
    rw [hword, blockValue?_of_le hend (Nat.le_succ_of_le hcolumn),
      blockNode?_line (by simp [Cursor.atIndicator, hnext]) (by simp [Cursor.atIndicator, hnext])
        (hnext '&' (by decide) (by decide)) (hnext '!' (by decide) (by decide)) hnode,
      orMapping?, keyEnd?_onLine hline ht.startsEntry]

/-! ## Mappings -/

/-- A key with what stands behind its colon. -/
structure Member where
  key : List Char
  text : List Char
  node : Node

namespace Member

def pair (m : Member) : Node × Node := (.scalar none true (String.ofList m.key), m.node)

/-- The key is a word, and its value is read to the right of column `base`. -/
structure Reads (base : Nat) (m : Member) : Prop where
  isKey : IsKey m.key
  value : ReadsValue base m.text m.node

end Member

/-- The lines of a mapping in a column. -/
def memberLines (column : Nat) (ms : List Member) : List Char :=
  ms.flatMap fun m => spaces column ++ (m.key ++ ':' :: m.text)

theorem memberLines_cons (m : Member) (ms : List Member) (t : List Char) : memberLines column (m :: ms) ++ t =
    spaces column ++ (m.key ++ ':' :: (m.text ++ (memberLines column ms ++ t))) := by
  simp [memberLines]

/-- A cursor in front of the first key. -/
theorem onLine_memberLines {m : Member} (hm : m.Reads base) (ms : List Member) (t : List Char) :
    k.onLine l (memberLines column (m :: ms) ++ t) =
      { k with
        rest := m.key ++ ':' :: (m.text ++ (memberLines column ms ++ t)), position := ⟨l, column⟩, fresh := true } := by
  obtain ⟨c, cs, hkey, hc⟩ := hm.isKey.cons
  rw [memberLines_cons, hkey, List.cons_append, Cursor.onLine_spaces_cons (ne_of_class hc (by decide))]

theorem atEnd_memberLines {m : Member} (hm : m.Reads base) (ms : List Member) (t : List Char) :
    (k.onLine l (memberLines column (m :: ms) ++ t)).atEnd = false ∧
      (k.onLine l (memberLines column (m :: ms) ++ t)).column = column := by
  obtain ⟨c, cs, hkey, hc⟩ := hm.isKey.cons
  rw [onLine_memberLines hm, hkey]
  exact ⟨Cursor.atEnd_of_isAlpha hc rfl, rfl⟩

theorem startsKey_memberLines {ms : List Member} (hms : ∀ m ∈ ms, m.Reads base) (ht : StartsKey t) :
    StartsKey (memberLines column ms ++ t) := by
  cases ms with
  | nil => exact ht
  | cons m ms =>
    obtain ⟨c, cs, hkey, hc⟩ := (hms m List.mem_cons_self).isKey.cons
    rw [memberLines_cons, hkey, List.cons_append, StartsKey, wordOf_spaces_cons (ne_of_class hc (by decide))]
    rintro _ ⟨⟩
    exact hc

theorem indentOf_memberLines {ms : List Member} (hms : ∀ m ∈ ms, m.Reads base) (ht : indentOf t < column ∨ t = []) :
    indentOf (memberLines column ms ++ t) < column + 1 := by
  cases ms with
  | nil =>
    rcases ht with ht | rfl
    · exact Nat.lt_succ_of_lt ht
    · exact Nat.succ_pos column
  | cons m ms =>
    obtain ⟨c, cs, hkey, hc⟩ := (hms m List.mem_cons_self).isKey.cons
    rw [memberLines_cons, hkey, List.cons_append, indentOf_spaces_cons (ne_of_class hc (by decide))]
    exact Nat.lt_succ_self column

/-- A key is read up to its colon. -/
theorem scalarNode?_key {m : Member} (hm : m.Reads base) {n : Nat} (hk : k.rest = m.key ++ ':' :: r)
    (hr : endsWord r = true) :
    scalarNode? false n none k = some (m.pair.1, k.skip m.key.length) ∧
      keyEnd? k (k.skip m.key.length) = some (k.skip m.key.length) ∧ k.StartsScalar ∧ k.atEnd = false := by
  obtain ⟨c, cs, hkey, hc⟩ := hm.isKey.cons
  have halpha := hm.isKey.isAlpha
  have hlength := hm.isKey.2.2
  rw [Member.pair, hkey]
  rw [hkey] at hk halpha hlength
  have hstart : startsPlain false c (cs ++ ':' :: r) = true := startsPlain_of_isAlpha hc
  have hend := Cursor.atEnd_of_isAlpha hc hk
  have hdrop : (k.skip (c :: cs).length).rest = ':' :: r := by
    rw [Cursor.skip, hk]
    exact List.drop_left
  have hskip : k.skip (c :: cs).length =
      { k with rest := ':' :: r, position := k.position.right (c :: cs).length, fresh := false } := by
    rw [← hdrop]
    rfl
  have hmarker : k.column = 0 → isMarker k.rest = false := by
    intro hcolumn
    simpa [Cursor.atEnd, hk, hcolumn] using hend
  refine ⟨?_, keyEnd?_colon hdrop hr rfl (Nat.add_le_add_left hlength _), startsScalar_of_startsPlain hk hstart, hend⟩
  rw [scalarNode?_plain hk hstart (isPlainText_of_isAlpha halpha) hmarker (plain_colon hr) rfl, hskip]

theorem properties?_none (h : k.StartsScalar) : properties? false k = some ({}, k) := by
  unfold properties?
  split
  · exact absurd (by assumption) (h.next?_ne (by decide))
  · exact absurd (by assumption) (h.next?_ne (by decide))
  · rfl

/-- What reading the lines of a mapping comes to. -/
def ReadsMembers (column : Nat) (ms : List Member) : Prop :=
  ∀ (fuel l : Nat) (k : Cursor) (t : List Char), StartsKey t → (indentOf t < column ∨ t = []) →
    2 * (memberLines column ms).length + 8 ≤ fuel →
      ∃ l', blockEntries? fuel column (k.onLine l (memberLines column ms ++ t)) =
        some (ms.map Member.pair, k.onLine l' t)

/-- The first member of a mapping from its colon on, if the other ones are read. -/
theorem blockPair?_members {m : Member} {ms : List Member} (hm : m.Reads (column + 1))
    (hms : ∀ m ∈ ms, m.Reads (column + 1)) (hrest : ReadsMembers column ms) (ht : StartsKey t)
    (hindent : indentOf t < column ∨ t = [])
    (hk : k.rest = ':' :: (m.text ++ (memberLines column ms ++ t))) (hcolumn : column ≤ k.column)
    (hfuel : 2 * (m.text.length + (memberLines column ms).length) + 10 ≤ fuel) :
    ∃ l', blockPair? fuel column m.pair.1 k = some ((m :: ms).map Member.pair, k.onLine l' t) := by
  obtain ⟨fuel, rfl⟩ : ∃ n, fuel = n + 1 := ⟨fuel - 1, by omega⟩
  have hnext : (k.skip 1).rest = m.text ++ (memberLines column ms ++ t) := by
    rw [Cursor.skip, hk, List.drop_one, List.tail_cons]
  -- behind the value stands another key or the end, to the left of where the value may go on
  obtain ⟨k', l, hvalue, hline⟩ := hm.value.reads fuel (k.skip 1) _ hnext (Nat.succ_le_succ hcolumn)
    (startsKey_memberLines hms ht) (indentOf_memberLines hms hindent) (by omega)
  obtain ⟨l', hentries⟩ := hrest fuel l (k.skip 1) t ht hindent (by omega)
  refine ⟨l', ?_⟩
  rw [blockPair?, hvalue]
  simp only
  rw [hline, hentries]
  rfl

/-- The first member of a mapping from its key on, if the other ones are read. -/
theorem firstMember {m : Member} {ms : List Member} (hms : ∀ m' ∈ m :: ms, m'.Reads (column + 1))
    (hrest : ReadsMembers column ms) (ht : StartsKey t) (hindent : indentOf t < column ∨ t = [])
    (hfuel : 2 * (memberLines column (m :: ms)).length + 6 ≤ fuel) (l : Nat) (k : Cursor) :
    ∃ k₀ k₁ l', k.onLine l (memberLines column (m :: ms) ++ t) = k₀ ∧ k₀.column = column ∧ k₀.fresh = true ∧
      k₀.atEnd = false ∧ k₀.StartsScalar ∧ (∀ n, scalarNode? false n none k₀ = some (m.pair.1, k₁)) ∧
      keyEnd? k₀ k₁ = some k₁ ∧
      blockPair? fuel column m.pair.1 k₁ = some ((m :: ms).map Member.pair, k.onLine l' t) := by
  have hm := hms m List.mem_cons_self
  let r := m.text ++ (memberLines column ms ++ t)
  let k₀ : Cursor := { k with rest := m.key ++ ':' :: r, position := ⟨l, column⟩, fresh := true }
  have hends : endsWord r = true := by
    rw [endsWord_append hm.value.ne_nil]
    exact hm.value.ends
  have hkey := fun n => scalarNode?_key (k := k₀) (n := n) hm rfl hends
  have hdrop : (k₀.skip m.key.length).rest = ':' :: r := List.drop_left
  have hlength : 2 * (m.text.length + (memberLines column ms).length) + 10 ≤ fuel := by
    have hpos := List.length_pos_iff.2 hm.isKey.1
    simp only [memberLines, List.flatMap_cons, List.length_append, List.length_cons] at hfuel ⊢
    omega
  obtain ⟨l', hpair⟩ := blockPair?_members hm (fun m' hm' => hms m' (List.mem_cons_of_mem m hm')) hrest ht hindent hdrop
    (Nat.le_add_right column m.key.length) hlength
  obtain ⟨-, hcolon, hscalar, hend⟩ := hkey 0
  exact ⟨k₀, _, l', onLine_memberLines hm ms t, rfl, rfl, hend, hscalar, fun n => (hkey n).1, hcolon, hpair⟩

/-- The members of a mapping, up to a line that is indented by less. -/
theorem blockEntries?_members : ∀ {ms : List Member}, (∀ m ∈ ms, m.Reads (column + 1)) → ReadsMembers column ms
  | [], _ => by
    intro fuel l k t ht hindent hfuel
    obtain ⟨fuel, rfl⟩ : ∃ n, fuel = n + 1 := ⟨fuel - 1, by omega⟩
    have hend : (k.onLine l t).atEnd = true ∨ (k.onLine l t).column < column := by
      rcases hindent with hindent | rfl
      · exact .inr hindent
      · exact .inl rfl
    refine ⟨l, ?_⟩
    rw [memberLines, List.flatMap_nil, List.nil_append, blockEntries?, if_pos hend]
    rfl
  | m :: ms, hms => by
    intro fuel l k t ht hindent hfuel
    obtain ⟨fuel, rfl⟩ : ∃ n, fuel = n + 3 := ⟨fuel - 3, by omega⟩
    have hrest := blockEntries?_members fun m' hm' => hms m' (List.mem_cons_of_mem m hm')
    have hfuel' : 2 * (memberLines column (m :: ms)).length + 6 ≤ fuel + 2 := by omega
    obtain ⟨k₀, k₁, l', hfirst, hcolumn, -, hend, hscalar, hkey, hcolon, hpair⟩ :=
      firstMember hms hrest ht hindent hfuel' l k
    refine ⟨l', ?_⟩
    rw [hfirst, blockEntries?, if_neg (by simp [hend, hcolumn]), if_neg (by simp [hcolumn]),
      if_neg (by simp [hscalar.2.1]), properties?_none hscalar]
    simp only
    rw [if_neg (by simp [hscalar.1]), lineNode?_scalar hscalar, hkey]
    simp only
    rw [hcolon]
    exact hpair

/-- A mapping at its first key. -/
theorem blockNode?_members {m : Member} {ms : List Member} (hms : ∀ m' ∈ m :: ms, m'.Reads (column + 1))
    (ht : StartsKey t) (hindent : indentOf t < column ∨ t = []) (hfuel : 2 * (memberLines column (m :: ms)).length + 8 ≤ fuel)
    (base l : Nat) (indentless : Bool) (k : Cursor) :
    ∃ l', blockNode? fuel base indentless (k.onLine l (memberLines column (m :: ms) ++ t)) =
      some (.mapping ((m :: ms).map Member.pair), k.onLine l' t) := by
  obtain ⟨fuel, rfl⟩ : ∃ n, fuel = n + 3 := ⟨fuel - 3, by omega⟩
  have hrest := blockEntries?_members fun m' hm' => hms m' (List.mem_cons_of_mem m hm')
  have hfuel' : 2 * (memberLines column (m :: ms)).length + 6 ≤ fuel + 1 := by omega
  obtain ⟨k₀, k₁, l', hfirst, hcolumn, hfresh, hend, hscalar, hkey, hcolon, hpair⟩ :=
    firstMember hms hrest ht hindent hfuel' l k
  have hnode : lineNode? (fuel + 2) base {} k₀ = some (m.pair.1, k₁) := by rw [lineNode?_scalar hscalar, hkey]
  refine ⟨l', ?_⟩
  rw [hfirst, blockNode?_line hscalar.1 hscalar.2.1 (hscalar.next?_ne (by decide)) (hscalar.next?_ne (by decide)) hnode,
    orMapping?, hcolon]
  simp only
  rw [if_pos hfresh, hcolumn, hpair]
  rfl

/-- A mapping on the lines below the key. -/
theorem readsValue_members {ms : List Member} (hbase : base ≤ column) (hne : ms ≠ [])
    (hms : ∀ m ∈ ms, m.Reads (column + 1)) :
    ReadsValue base ('\n' :: memberLines column ms) (.mapping (ms.map Member.pair)) where
  ne_nil := List.cons_ne_nil _ _
  ends := rfl
  reads fuel k t hk _ ht hindent hfuel := by
    obtain ⟨fuel, rfl⟩ : ∃ n, fuel = n + 1 := ⟨fuel - 1, by omega⟩
    obtain ⟨m, ms, rfl⟩ := List.exists_cons_of_ne_nil hne
    have hstart : StartsKey (memberLines column (m :: ms) ++ t) := startsKey_memberLines hms ht
    let k₀ := k.onLine (k.position.line + 1) (memberLines column (m :: ms) ++ t)
    have hline : k.toToken false = k₀ := Cursor.toToken_newline hk hstart.startsEntry
    obtain ⟨hend, hcolumn⟩ := atEnd_memberLines (k := k) (l := k.position.line + 1) (hms m List.mem_cons_self) ms t
    have hfuel' : 2 * (memberLines column (m :: ms)).length + 8 ≤ fuel := by
      rw [List.length_cons] at hfuel
      omega
    obtain ⟨l', hnode⟩ := blockNode?_members hms ht (.inl (Nat.lt_of_lt_of_le hindent hbase)) hfuel' base
      (k.position.line + 1) true k
    refine ⟨k.onLine l' t, l', ?_, Cursor.toToken_onLine ht.startsEntry⟩
    rw [hline, blockValue?_of_le hend (hbase.trans hcolumn.ge), hnode]

end CompactSearch.Yaml

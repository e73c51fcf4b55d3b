/-
Lists of field names in one text. A comma between two lists joins them (`fieldList_append`), every name read is one that can
stand between commas as it is (`isFieldName_of_mem`), and such names are read back however they are padded and whatever
blank items stand among them (`fieldList_items`).
-/
import CompactSearch.CommandLine.Arguments
import CompactSearch.Proofs.Text.Trim

namespace CompactSearch

/-- A name that a list can give: some characters, no comma among them and no white space at their ends. -/
structure IsFieldName (name : String) : Prop where
  ne_nil : name.toList ≠ []
  no_comma : ',' ∉ name.toList
  trimmed : Text.IsTrimmed name.toList

/-- What stands between two commas of a list: a name with something around it, or no name. -/
inductive ListItem where
  | named (before name after : String)
  | blank (space : String)
deriving DecidableEq, Repr

namespace ListItem

def text : ListItem → String
  | named before name after => before ++ (name ++ after)
  | blank space => space

def name? : ListItem → Option String
  | named _ name _ => some name
  | blank _ => none

/-- A name with nothing around it. -/
def plain (name : String) : ListItem := named "" name ""

/-- All that is not the name is white space. -/
def IsPadded : ListItem → Prop
  | named before _ after => Text.IsSpace before.toList ∧ Text.IsSpace after.toList
  | blank space => Text.IsSpace space.toList

instance : DecidablePred IsPadded
  | named before _ after => inferInstanceAs (Decidable (Text.IsSpace before.toList ∧ Text.IsSpace after.toList))
  | blank space => inferInstanceAs (Decidable (Text.IsSpace space.toList))

theorem text_plain (name : String) : (plain name).text = name := by
  rw [plain, text, String.empty_append, String.append_empty]

theorem isPadded_plain (name : String) : (plain name).IsPadded := ⟨by decide, by decide⟩

end ListItem

/-! ## Pieces -/

section Pieces

variable {cs : List Char}

theorem splitCommas_ne_nil : ∀ cs : List Char, splitCommas cs ≠ []
  | [] => List.cons_ne_nil _ _
  | c :: cs => by
    unfold splitCommas
    split
    · exact List.cons_ne_nil _ _
    · split <;> exact List.cons_ne_nil _ _

/-- A character that is no comma goes to the piece that follows. -/
theorem splitCommas_cons {c : Char} (h : c ≠ ',') (cs : List Char) :
    ∃ piece pieces, splitCommas cs = piece :: pieces ∧ splitCommas (c :: cs) = (c :: piece) :: pieces := by
  obtain ⟨piece, pieces, hcs⟩ := List.exists_cons_of_ne_nil (splitCommas_ne_nil cs)
  refine ⟨piece, pieces, hcs, ?_⟩
  rw [splitCommas, if_neg h, hcs]

theorem splitCommas_append (bs : List Char) : ∀ as : List Char,
    splitCommas (as ++ ',' :: bs) = splitCommas as ++ splitCommas bs
  | [] => rfl
  | c :: as => by
    have ih := splitCommas_append bs as
    by_cases hc : c = ','
    · subst hc
      exact congrArg ([] :: ·) ih
    · obtain ⟨piece, pieces, has, hcons⟩ := splitCommas_cons hc as
      obtain ⟨piece', pieces', hall, hcons'⟩ := splitCommas_cons hc (as ++ ',' :: bs)
      rw [ih, has, List.cons_append, List.cons.injEq] at hall
      obtain ⟨rfl, rfl⟩ := hall
      rw [List.cons_append, hcons', hcons, List.cons_append]

theorem splitCommas_of_not_mem : ∀ {cs : List Char}, ',' ∉ cs → splitCommas cs = [cs]
  | [], _ => rfl
  | c :: cs, h => by
    rw [List.mem_cons, not_or] at h
    obtain ⟨piece, pieces, hcs, hcons⟩ := splitCommas_cons (Ne.symm h.1) cs
    rw [splitCommas_of_not_mem h.2, List.cons.injEq] at hcs
    obtain ⟨rfl, rfl⟩ := hcs
    exact hcons

theorem comma_not_mem_of_mem_splitCommas : ∀ {cs piece : List Char}, piece ∈ splitCommas cs → ',' ∉ piece
  | [], _, h => by
    rw [List.mem_singleton.1 h]
    exact List.not_mem_nil
  | c :: cs, piece, h => by
    by_cases hc : c = ','
    · rw [splitCommas, if_pos hc, List.mem_cons] at h
      rcases h with rfl | h
      · exact List.not_mem_nil
      · exact comma_not_mem_of_mem_splitCommas h
    · obtain ⟨first, pieces, hcs, hcons⟩ := splitCommas_cons hc cs
      have ih : ∀ p ∈ first :: pieces, ',' ∉ p := fun p hp => comma_not_mem_of_mem_splitCommas (hcs ▸ hp)
      rw [hcons, List.mem_cons] at h
      rcases h with rfl | h
      · rw [List.mem_cons, not_or]
        exact ⟨Ne.symm hc, ih first List.mem_cons_self⟩
      · exact ih piece (List.mem_cons_of_mem first h)

theorem comma_not_mem_of_isSpace (h : Text.IsSpace cs) : ',' ∉ cs := fun hc => absurd (h ',' hc) (by decide)

end Pieces

/-! ## Names -/

/-- A comma between two lists joins them. -/
theorem fieldList_append (a b : String) : fieldList (a ++ "," ++ b) = fieldList a ++ fieldList b := by
  have hchars : (a ++ "," ++ b).toList = a.toList ++ ',' :: b.toList := by
    rw [String.toList_append, String.toList_append, List.append_assoc]
    rfl
  simp only [fieldList, hchars, splitCommas_append, List.map_append, List.filter_append]

/-- Every name read is one that a list can give. -/
theorem isFieldName_of_mem {s name : String} (h : name ∈ fieldList s) : IsFieldName name := by
  unfold fieldList at h
  obtain ⟨cs, hcs, rfl⟩ := List.mem_map.1 h
  obtain ⟨hmem, hne⟩ := List.mem_filter.1 hcs
  obtain ⟨piece, hpiece, rfl⟩ := List.mem_map.1 hmem
  rw [Bool.not_eq_true', List.isEmpty_eq_false_iff] at hne
  obtain ⟨before, after, -, -, hpadded⟩ := Text.exists_padding piece
  have hcomma : ',' ∉ Text.trimChars piece := by
    intro hc
    refine comma_not_mem_of_mem_splitCommas hpiece ?_
    rw [hpadded]
    exact List.mem_append_right before (List.mem_append_left after hc)
  constructor
  · rwa [String.toList_ofList]
  · rwa [String.toList_ofList]
  · rw [String.toList_ofList]
    exact Text.isTrimmed_trimChars piece

/-- A text without commas names what is left of it between its white space, if that is anything. -/
theorem fieldList_of_no_comma {s : String} (h : ',' ∉ s.toList) :
    fieldList s = ([Text.trimChars s.toList].filter (!·.isEmpty)).map String.ofList := by
  rw [fieldList, splitCommas_of_not_mem h, List.map_singleton]

theorem fieldList_item {i : ListItem} (hpad : i.IsPadded) (hname : ∀ name ∈ i.name?, IsFieldName name) :
    fieldList i.text = i.name?.toList := by
  cases i with
  | named before name after =>
    have hn := hname name rfl
    have hchars : (ListItem.named before name after).text.toList = before.toList ++ (name.toList ++ after.toList) := by
      rw [ListItem.text, String.toList_append, String.toList_append]
    have hcomma : ',' ∉ (ListItem.named before name after).text.toList := by
      rw [hchars, List.mem_append, List.mem_append, not_or, not_or]
      exact ⟨comma_not_mem_of_isSpace hpad.1, hn.no_comma, comma_not_mem_of_isSpace hpad.2⟩
    rw [fieldList_of_no_comma hcomma, hchars, Text.trimChars_padded hpad.1 hn.trimmed hpad.2,
      List.filter_cons_of_pos (by simpa using hn.ne_nil), List.filter_nil, List.map_singleton, String.ofList_toList]
    rfl
  | blank space =>
    have htrim : Text.trimChars space.toList = [] := Text.trimChars_eq_nil_iff.2 hpad
    rw [ListItem.text, fieldList_of_no_comma (comma_not_mem_of_isSpace hpad), htrim]
    rfl

/-- The names of items with commas between them are the names of the items. -/
theorem fieldList_items : ∀ {items : List ListItem}, (∀ i ∈ items, i.IsPadded) →
    (∀ name ∈ items.filterMap ListItem.name?, IsFieldName name) →
      fieldList (",".intercalate (items.map ListItem.text)) = items.filterMap ListItem.name?
  | [], _, _ => rfl
  | [i], hpad, hname => by
    have hi : [i].filterMap ListItem.name? = i.name?.toList := by
      cases h : i.name? <;> simp [h]
    rw [hi] at hname ⊢
    rw [List.map_singleton, String.intercalate_singleton]
    exact fieldList_item (hpad i List.mem_cons_self) fun name h => hname name (by simpa using h)
  | i :: j :: items, hpad, hname => by
    have hi : (i :: j :: items).filterMap ListItem.name? =
        i.name?.toList ++ (j :: items).filterMap ListItem.name? := by
      cases h : i.name? <;> simp [List.filterMap_cons, h]
    rw [hi] at hname ⊢
    rw [List.map_cons, List.map_cons, String.intercalate_cons_cons, fieldList_append, ← List.map_cons]
    rw [fieldList_item (hpad i List.mem_cons_self) fun name h => hname name (by simp [Option.mem_def.1 h]),
      fieldList_items (fun k hk => hpad k (List.mem_cons_of_mem i hk))
        fun name h => hname name (List.mem_append_right _ h)]

/-- The names of a text are read again from any list of them. -/
theorem fieldList_of_names {s : String} {items : List ListItem} (hpad : ∀ i ∈ items, i.IsPadded)
    (hnames : items.filterMap ListItem.name? = fieldList s) :
    fieldList (",".intercalate (items.map ListItem.text)) = fieldList s := by
  have hvalid : ∀ name ∈ items.filterMap ListItem.name?, IsFieldName name := by
    rw [hnames]
    exact fun name => isFieldName_of_mem
  rw [fieldList_items hpad hvalid, hnames]

theorem fieldList_intercalate (s : String) : fieldList (",".intercalate (fieldList s)) = fieldList s := by
  have hnames : ((fieldList s).map ListItem.plain).filterMap ListItem.name? = fieldList s := by
    rw [List.filterMap_map]
    exact List.filterMap_some
  have htexts : ((fieldList s).map ListItem.plain).map ListItem.text = fieldList s := by
    rw [List.map_map]
    exact List.map_id'' ListItem.text_plain _
  have h := fieldList_of_names (List.forall_mem_map.2 fun name _ => ListItem.isPadded_plain name) hnames
  rwa [htexts] at h

/-- Reading is compositional and stable: lists are joined by a comma, every name that is read can stand in a list as it is,
and the names of a text are read again from any list of them, however its items are padded and wherever blank ones
stand. -/
theorem fieldList_compositional :
    (∀ a b : String, fieldList (a ++ "," ++ b) = fieldList a ++ fieldList b) ∧
      (∀ s : String, ∀ name ∈ fieldList s, IsFieldName name) ∧
      (∀ (s : String) (items : List ListItem), (∀ i ∈ items, i.IsPadded) →
        items.filterMap ListItem.name? = fieldList s →
          fieldList (",".intercalate (items.map ListItem.text)) = fieldList s) ∧
      ∀ s : String, fieldList (",".intercalate (fieldList s)) = fieldList s :=
  ⟨fieldList_append, fun _ _ => isFieldName_of_mem, fun _ _ => fieldList_of_names, fieldList_intercalate⟩

/-- Wide and narrow spaces around the names, a blank item in front and an empty one behind. -/
theorem fieldList_compositional_wide_space :
    let items : List ListItem := [.blank "\u2003", .named "\u3000" "a" "", .named "\t" "b c" "\u00a0 ", .blank ""]
    "b c" ∈ fieldList " a,, b c," ∧ IsFieldName "b c" ∧ (∀ i ∈ items, i.IsPadded) ∧
      items.filterMap ListItem.name? = fieldList " a,, b c," ∧
      fieldList "\u2003,\u3000a,\tb c\u00a0 ," = ["a", "b c"] := by
  have hmem : "b c" ∈ fieldList " a,, b c," := by decide +kernel
  obtain ⟨-, hvalid, hstable, -⟩ := fieldList_compositional
  refine ⟨hmem, hvalid _ _ hmem, by decide +kernel, by decide +kernel, ?_⟩
  exact hstable " a,, b c," [.blank "\u2003", .named "\u3000" "a" "", .named "\t" "b c" "\u00a0 ", .blank ""]
    (by decide +kernel) (by decide +kernel)

end CompactSearch

/-
Stored policies, said without the machine that reads them: which tokens describe which lists (`Describes`). An object
gives the list of each role at its key, an array gives the lists in order, and what stands at any other key says nothing,
however deep it is. The machine accepts a text only if its tokens describe the lists that it has found
(`describes_of_ofJsonText`), and no tokens describe two policies (`Describes.unique`).

Where a value ends is told by the brackets alone: it is the first place where as many are closed as are opened. So the
machine needs no other memory of a value that it passes over than how many brackets are open, which its stack holds.
-/
import CompactSearch.Policy.Json
import Mathlib.Data.List.Infix

namespace CompactSearch

/-! ## Brackets -/

namespace Json.Token

/-- By how much the token changes the number of open brackets. -/
def weight : Token → Int
  | openArray | openObject => 1
  | closeArray | closeObject => -1
  | _ => 0

/-- A value can start with the token. -/
def startsValue : Token → Bool
  | openArray | openObject | string _ _ | plain _ _ => true
  | _ => false

end Json.Token

namespace Policy

open Json (Token)

/-- The lists of a policy by their roles, as they are stored. -/
abbrev Entry := FieldRole × Option (List String)

variable {α : Type} {b b' : Bracket} {t : Token} {ts us vs pre post : List Token} {es es' : List Entry}
  {role : FieldRole} {fields fields' : Option (List String)}

/-- How many more brackets are opened than closed. -/
def depth : List Token → Int
  | [] => 0
  | t :: ts => t.weight + depth ts

@[simp] theorem depth_nil : depth [] = 0 := rfl

@[simp] theorem depth_cons (t : Token) (ts : List Token) : depth (t :: ts) = t.weight + depth ts := rfl

@[simp] theorem depth_append (ts us : List Token) : depth (ts ++ us) = depth ts + depth us := by
  induction ts with
  | nil => simp
  | cons t ts ih =>
    rw [List.cons_append, depth_cons, depth_cons, ih]
    omega

/-- A value has started, and no bracket that it has opened first is closed. -/
structure IsOpen (ts : List Token) : Prop where
  start : ∃ t us, ts = t :: us ∧ t.startsValue = true
  inside : ∀ pre post, ts = pre ++ post → pre ≠ [] → 0 < depth pre

/-- One value from its start to its end. -/
structure IsValue (ts : List Token) : Prop where
  start : ∃ t us, ts = t :: us ∧ t.startsValue = true
  closed : depth ts = 0
  inside : ∀ pre post, ts = pre ++ post → pre ≠ [] → post ≠ [] → 0 < depth pre

/-- One token more changes nothing in front of it. -/
theorem IsOpen.inside_concat (h : IsOpen ts) (heq : ts ++ [t] = pre ++ post) (hpre : pre ≠ []) (hpost : post ≠ []) :
    0 < depth pre := by
  rcases List.eq_nil_or_concat post with rfl | ⟨post, x, rfl⟩
  · exact absurd rfl hpost
  · rw [List.concat_eq_append, ← List.append_assoc] at heq
    exact h.inside pre post (List.append_inj_left' heq rfl) hpre

theorem IsOpen.concat (h : IsOpen ts) (ht : 0 < depth (ts ++ [t])) : IsOpen (ts ++ [t]) := by
  constructor
  · obtain ⟨x, us, rfl, hx⟩ := h.start
    exact ⟨x, us ++ [t], rfl, hx⟩
  · intro pre post heq hpre
    by_cases hpost : post = []
    · rw [hpost, List.append_nil] at heq
      rwa [← heq]
    · exact h.inside_concat heq hpre hpost

theorem IsOpen.close (h : IsOpen ts) (ht : depth (ts ++ [t]) = 0) : IsValue (ts ++ [t]) := by
  constructor
  · obtain ⟨x, us, rfl, hx⟩ := h.start
    exact ⟨x, us ++ [t], rfl, hx⟩
  · exact ht
  · intro pre post heq hpre hpost
    exact h.inside_concat heq hpre hpost

theorem isOpen_singleton (ht : t.startsValue = true) (hw : t.weight = 1) : IsOpen [t] := by
  refine ⟨⟨t, [], rfl, ht⟩, ?_⟩
  intro pre post heq hpre
  cases pre with
  | nil => exact absurd rfl hpre
  | cons x pre =>
    rw [List.cons_append, List.cons.injEq] at heq
    obtain ⟨rfl, hnil⟩ := heq
    obtain ⟨rfl, -⟩ := List.append_eq_nil_iff.1 hnil.symm
    rw [depth_cons, hw]
    decide

theorem isValue_singleton (ht : t.startsValue = true) (hw : t.weight = 0) : IsValue [t] := by
  refine ⟨⟨t, [], rfl, ht⟩, by rw [depth_cons, hw]; rfl, ?_⟩
  intro pre post heq hpre hpost
  cases pre with
  | nil => exact absurd rfl hpre
  | cons x pre =>
    rw [List.cons_append, List.cons.injEq] at heq
    exact absurd (List.append_eq_nil_iff.1 heq.2.symm).2 hpost

/-! ## Descriptions -/

/-- Parts with commas between them. -/
inductive Listed {α : Type} (P : List Token → List α → Prop) : List Token → List α → Prop
  | one {ts : List Token} {xs : List α} (h : P ts xs) : Listed P ts xs
  | more {ts us : List Token} {xs ys : List α} (h : Listed P ts xs) (hu : P us ys) :
    Listed P (ts ++ .comma :: us) (xs ++ ys)

/-- No parts, or parts with commas between them. -/
inductive Enclosed {α : Type} (P : List Token → List α → Prop) : List Token → List α → Prop
  | nothing : Enclosed P [] []
  | parts {ts : List Token} {xs : List α} (h : Listed P ts xs) : Enclosed P ts xs

/-- A string is a name. -/
inductive SpellsName : List Token → List String → Prop
  | name (s : String) (e : Option Json.ReadError) : SpellsName [.string (.ok s) e] [s]

/-- A list of names, or null for an absent list. -/
inductive SpellsList : List Token → Option (List String) → Prop
  | null (e : Option Json.ReadError) : SpellsList [.plain (.ok true) e] none
  | names {ts : List Token} {xs : List String} (h : Enclosed SpellsName ts xs) :
    SpellsList (.openArray :: (ts ++ [.closeArray])) (some xs)

/-- A member of an object: the list of a role, or any value at another key. -/
inductive Member : List Token → List Entry → Prop
  | known {key : String} {e : Option Json.ReadError} {role : FieldRole} {ts : List Token}
    {fields : Option (List String)} (hk : FieldRole.ofKey? key = some role) (h : SpellsList ts fields) :
    Member (.string (.ok key) e :: .colon :: ts) [(role, fields)]
  | unknown {key : String} {e : Option Json.ReadError} {ts : List Token} (hk : FieldRole.ofKey? key = none)
    (h : IsValue ts) : Member (.string (.ok key) e :: .colon :: ts) []

/-- An item of an array: the list of a role. -/
inductive Item : List Token → List (Option (List String)) → Prop
  | item {ts : List Token} {fields : Option (List String)} (h : SpellsList ts fields) : Item ts [fields]

namespace Bracket

def opening : Bracket → Token
  | array => .openArray
  | object => .openObject

def closing : Bracket → Token
  | array => .closeArray
  | object => .closeObject

end Bracket

/-- A policy with one part or more, up to the end of its last part. No role has two lists, and an array has no more than
one list for each role. -/
inductive Unclosed : Bracket → List Token → List Entry → Prop
  | members {ts : List Token} {es : List Entry} (h : Listed Member ts es) (hd : (es.map (·.1)).Nodup) :
    Unclosed .object (.openObject :: ts) es
  | items {ts : List Token} {lists : List (Option (List String))} (h : Listed Item ts lists)
    (hl : lists.length ≤ FieldRole.every.length) : Unclosed .array (.openArray :: ts) (FieldRole.every.zip lists)

/-- The tokens of a whole policy, with the lists that they describe in order. -/
inductive Describes : List Token → List Entry → Prop
  | empty (b : Bracket) : Describes [b.opening, b.closing] []
  | parts {b : Bracket} {ts : List Token} {es : List Entry} (h : Unclosed b ts es) : Describes (ts ++ [b.closing]) es

/-! ## One description at most -/

/-- As many brackets are opened as closed, and every comma stands between them. -/
structure IsPart (ts : List Token) : Prop where
  ne_nil : ts ≠ []
  closed : depth ts = 0
  commas : ∀ pre post, ts = pre ++ .comma :: post → 0 < depth pre

theorem IsValue.isPart (h : IsValue ts) : IsPart ts := by
  obtain ⟨⟨x, us, rfl, hx⟩, hclosed, hinside⟩ := h
  refine ⟨List.cons_ne_nil x us, hclosed, ?_⟩
  intro pre post heq
  refine hinside pre _ heq ?_ (List.cons_ne_nil _ _)
  rintro rfl
  cases heq
  cases hx

/-- A token of weight zero in front of a part leaves it a part, if it is no comma. -/
theorem IsPart.cons (h : IsPart ts) (hw : t.weight = 0) (ht : t ≠ .comma) : IsPart (t :: ts) := by
  obtain ⟨-, hclosed, hcommas⟩ := h
  refine ⟨List.cons_ne_nil t ts, by rw [depth_cons, hw, hclosed]; rfl, ?_⟩
  intro pre post heq
  cases pre with
  | nil =>
    cases heq
    exact absurd rfl ht
  | cons x pre =>
    rw [List.cons_append, List.cons.injEq] at heq
    obtain ⟨rfl, heq⟩ := heq
    have hpre := hcommas pre post heq
    rw [depth_cons, hw]
    omega

theorem depth_listed {P : List Token → List α → Prop} (hP : ∀ ts xs, P ts xs → IsPart ts) {xs : List α}
    (h : Listed P ts xs) : depth ts = 0 := by
  induction h with
  | one h => exact (hP _ _ h).closed
  | more _ hu ih =>
    rw [depth_append, depth_cons, ih, (hP _ _ hu).closed]
    rfl

theorem ne_nil_of_listed {P : List Token → List α → Prop} (hP : ∀ ts xs, P ts xs → IsPart ts) {xs : List α}
    (h : Listed P ts xs) : ts ≠ [] := by
  cases h with
  | one h => exact (hP _ _ h).ne_nil
  | more => simp

/-- A part behind a comma is the same wherever the comma is looked for. -/
theorem part_unique (hu : IsPart us) (hv : IsPart vs) {ts ts' : List Token}
    (heq : ts ++ .comma :: us = ts' ++ .comma :: vs) : ts = ts' ∧ us = vs := by
  have hlong : ∀ {us vs ts ts' x : List Token}, IsPart us → IsPart vs → ts' = ts ++ x →
      ts ++ .comma :: us = ts' ++ .comma :: vs → ts = ts' ∧ us = vs := by
    rintro us vs ts _ x hu hv rfl heq
    rw [List.append_assoc, List.append_right_inj] at heq
    cases x with
    | nil =>
      cases heq
      exact ⟨(List.append_nil ts).symm, rfl⟩
    | cons y x =>
      -- the second comma would stand inside the part behind the first one, which would end deeper than it started
      rw [List.cons_append, List.cons.injEq] at heq
      obtain ⟨rfl, rfl⟩ := heq
      have hx := hu.commas x vs rfl
      have hclosed := hu.closed
      rw [depth_append, depth_cons, hv.closed] at hclosed
      simp only [Token.weight] at hclosed
      omega
  rcases List.append_eq_append_iff.1 heq with ⟨x, hts, -⟩ | ⟨x, hts, -⟩
  · exact hlong hu hv hts heq
  · obtain ⟨h₁, h₂⟩ := hlong hv hu hts heq.symm
    exact ⟨h₁.symm, h₂.symm⟩

theorem Listed.unique {P : List Token → List α → Prop} (hP : ∀ ts xs, P ts xs → IsPart ts)
    (huniq : ∀ ts xs ys, P ts xs → P ts ys → xs = ys) {xs ys : List α} (h : Listed P ts xs) (h' : Listed P ts ys) :
    xs = ys := by
  induction h generalizing ys with
  | one h =>
    cases h' with
    | one h' => exact huniq _ _ _ h h'
    | more h' _ =>
      have hdepth := depth_listed hP h'
      have hpos := (hP _ _ h).commas _ _ rfl
      omega
  | @more ts us xs xs' h hu ih =>
    generalize hvs : ts ++ Token.comma :: us = vs at h'
    cases h' with
    | one h' =>
      have hdepth := depth_listed hP h
      have hpos := (hP _ _ h').commas _ _ hvs.symm
      omega
    | @more ts' us' ys ys' h' hu' =>
      obtain ⟨rfl, rfl⟩ := part_unique (hP _ _ hu) (hP _ _ hu') hvs
      rw [ih h', huniq _ _ _ hu hu']

theorem Enclosed.unique {P : List Token → List α → Prop} (hP : ∀ ts xs, P ts xs → IsPart ts)
    (huniq : ∀ ts xs ys, P ts xs → P ts ys → xs = ys) {xs ys : List α} (h : Enclosed P ts xs) (h' : Enclosed P ts ys) :
    xs = ys := by
  cases h with
  | nothing =>
    cases h' with
    | nothing => rfl
    | parts h' => exact absurd rfl (ne_nil_of_listed hP h')
  | parts h =>
    cases h' with
    | nothing => exact absurd rfl (ne_nil_of_listed hP h)
    | parts h' => exact h.unique hP huniq h'

theorem isPart_name {xs : List String} (h : SpellsName ts xs) : IsPart ts := by
  cases h with
  | name s e => exact (isValue_singleton rfl rfl).isPart

theorem unique_name {xs ys : List String} (h : SpellsName ts xs) (h' : SpellsName ts ys) : xs = ys := by
  cases h
  cases h'
  rfl

/-- The tokens between two brackets stay open if every bracket opened inside is closed there. -/
theorem isOpen_names {xs : List String} (h : Listed SpellsName ts xs) : IsOpen (.openArray :: ts) := by
  induction h with
  | one h =>
    cases h with
    | name s e => exact (isOpen_singleton rfl rfl).concat (by simp [Token.weight])
  | @more ts us xs ys h hu ih =>
    have hdepth : depth ts = 0 := depth_listed (fun _ _ => isPart_name) h
    cases hu with
    | name s e =>
      have hcomma : IsOpen (.openArray :: ts ++ [.comma]) := ih.concat (by simp [hdepth, Token.weight])
      have hname : IsOpen (.openArray :: ts ++ [.comma] ++ [.string (.ok s) e]) :=
        hcomma.concat (by simp [hdepth, Token.weight])
      simpa using hname

theorem isValue_list (h : SpellsList ts fields) : IsValue ts := by
  cases h with
  | null e => exact isValue_singleton rfl rfl
  | @names us _ h =>
    cases h with
    | nothing => exact (isOpen_singleton rfl rfl).close rfl
    | parts h =>
      have hdepth : depth us = 0 := depth_listed (fun _ _ => isPart_name) h
      exact (isOpen_names h).close (by simp [hdepth, Token.weight])

theorem unique_list (h : SpellsList ts fields) (h' : SpellsList ts fields') : fields = fields' := by
  cases h with
  | null e =>
    cases h'
    rfl
  | @names us xs h =>
    generalize hts : Token.openArray :: (us ++ [Token.closeArray]) = ts at h'
    cases h' with
    | null => cases hts
    | @names vs ys h' =>
      rw [List.cons.injEq] at hts
      obtain rfl : us = vs := List.append_inj_left' hts.2 rfl
      rw [h.unique (fun _ _ => isPart_name) (fun _ _ _ => unique_name) h']

theorem isPart_member (h : Member ts es) : IsPart ts := by
  have hkey : ∀ {key : String} {e : Option Json.ReadError} {ts : List Token}, IsValue ts →
      IsPart (.string (.ok key) e :: .colon :: ts) :=
    fun h => (h.isPart.cons rfl (by simp)).cons rfl (by simp)
  cases h with
  | known _ h => exact hkey (isValue_list h)
  | unknown _ h => exact hkey h

theorem unique_member (h : Member ts es) (h' : Member ts es') : es = es' := by
  cases h with
  | known hk h =>
    cases h' with
    | known hk' h' =>
      rw [hk] at hk'
      cases hk'
      rw [unique_list h h']
    | unknown hk' _ =>
      rw [hk] at hk'
      cases hk'
  | unknown hk _ =>
    cases h' with
    | known hk' _ =>
      rw [hk] at hk'
      cases hk'
    | unknown => rfl

theorem isPart_item {lists : List (Option (List String))} (h : Item ts lists) : IsPart ts := by
  cases h with
  | item h => exact (isValue_list h).isPart

theorem unique_item {lists lists' : List (Option (List String))} (h : Item ts lists) (h' : Item ts lists') :
    lists = lists' := by
  cases h with
  | item h =>
    cases h' with
    | item h' => rw [unique_list h h']

theorem Unclosed.unique (h : Unclosed b ts es) (h' : Unclosed b' ts es') : es = es' := by
  cases h with
  | members h _ =>
    cases h' with
    | members h' _ => exact h.unique (fun _ _ => isPart_member) (fun _ _ _ => unique_member) h'
  | items h _ =>
    cases h' with
    | items h' _ => rw [h.unique (fun _ _ => isPart_item) (fun _ _ _ => unique_item) h']

/-- Behind its opening bracket a policy with parts goes on. -/
theorem not_unclosed_singleton : ¬ Unclosed b [t] es := by
  intro h
  cases h with
  | members h _ => exact ne_nil_of_listed (fun _ _ => isPart_member) h rfl
  | items h _ => exact ne_nil_of_listed (fun _ _ => isPart_item) h rfl

/-- Tokens describe one policy at most. -/
theorem Describes.unique (h : Describes ts es) (h' : Describes ts es') : es = es' := by
  have hempty : ∀ {b b' : Bracket} {ts : List Token} {es : List Entry}, Unclosed b' ts es →
      [b.opening, b.closing] ≠ ts ++ [b'.closing] := by
    intro b b' ts es hu heq
    have heq' : [b.opening] ++ [b.closing] = ts ++ [b'.closing] := heq
    have hts : [b.opening] = ts := List.append_inj_left' heq' rfl
    rw [← hts] at hu
    exact not_unclosed_singleton hu
  cases h with
  | empty b =>
    generalize hts : [b.opening, b.closing] = ts at h'
    cases h' with
    | empty => rfl
    | parts hu => exact absurd hts (hempty hu)
  | @parts b ts es hu =>
    generalize hts : ts ++ [b.closing] = us at h'
    cases h' with
    | empty => exact absurd hts.symm (hempty hu)
    | parts hu' =>
      obtain rfl := List.append_inj_left' hts rfl
      exact hu.unique hu'

end Policy

end CompactSearch

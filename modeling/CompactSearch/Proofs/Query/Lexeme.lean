/-
Lexemes. Which characters of a text become its first token is said without the lexer: a token takes one of its spellings
in front of what cannot go on with it (`Takes`), and a text that no token starts is refused for a reason and at a place
that are seen in the text (`Refuses`). Every text does one or the other (`takes_or_refuses`), and the lexer follows
(`firstToken_of_takes`, `firstToken_of_refuses`).
-/
import CompactSearch.Proofs.Text.Run
import CompactSearch.Query.Lexer

namespace CompactSearch.Lexer

variable {d : Dialect}

/-! ## Spellings -/

/-- A run of characters that the dialect leaves free. -/
structure IsRun (d : Dialect) (cs : List Char) : Prop where
  ne_nil : cs ≠ []
  free : ∀ c ∈ cs, d.isReserved c = false

theorem isRun_iff {cs : List Char} : IsRun d cs ↔ cs ≠ [] ∧ cs.all (!d.isReserved ·) = true := by
  rw [List.all_eq_true]
  exact ⟨fun h => ⟨h.ne_nil, fun c hc => by simp [h.free c hc]⟩, fun h => ⟨h.1, fun c hc => by simpa using h.2 c hc⟩⟩

instance (cs : List Char) : Decidable (IsRun d cs) := decidable_of_iff' _ isRun_iff

/-- The characters that a token can be spelled by. -/
inductive Spells (d : Dialect) : Token → List Char → Prop
  | value {run : List Char} (k : Nat) (h : IsRun d run) :
    Spells d (.value (.ofRun (String.ofList run))) (List.replicate k '"' ++ (run ++ List.replicate k '"'))
  | op (o : Operator) : Spells d (.op o) o.text.toList
  | space : Spells d .space [' ']
  | or : Spells d .or [' ', 'O', 'R', ' ']
  | minus (h : d = .document) : Spells d .minus ['-']
  | openGroup : Spells d .openGroup ['(']
  | closeGroup : Spells d .closeGroup [')']

/-- The text that starts here starts with something other than the characters of a run. -/
def EndsRun (d : Dialect) (rest : List Char) : Prop := ∀ c ∈ rest.head?, d.isReserved c = true

/-- Quotes in front of a text that does not start with one. -/
def quotes (k : Nat) (cs : List Char) : List Char := List.replicate k '"' ++ cs

/-- The first token of a text, its spelling and the rest of the text; `leafStart` says whether a leaf can start here. A
run goes on as long as it can, an equals sign belongs to the comparison in front of it, and a space to the `OR` behind
it. -/
inductive Takes (d : Dialect) (leafStart : Bool) : Token → List Char → List Char → Prop
  | quoted (k : Nat) {run rest : List Char} (h : IsRun d run) :
    Takes d leafStart (.value (.ofRun (String.ofList run))) (quotes (k + 1) (run ++ List.replicate (k + 1) '"')) rest
  | run {run rest : List Char} (h : IsRun d run) (hm : run.head? = some '-' → (d.hasNegation && leafStart) = false)
    (hr : EndsRun d rest) : Takes d leafStart (.value (.ofRun (String.ofList run))) run rest
  | minus {rest : List Char} (hm : (d.hasNegation && leafStart) = true) : Takes d leafStart .minus ['-'] rest
  | op (o : Operator) {rest : List Char} (h : o = .gt ∨ o = .lt → rest.head? ≠ some '=') :
    Takes d leafStart (.op o) o.text.toList rest
  | space {rest : List Char} (h : ¬ ['O', 'R', ' '] <+: rest) : Takes d leafStart .space [' '] rest
  | or {rest : List Char} : Takes d leafStart .or [' ', 'O', 'R', ' '] rest
  | openGroup {rest : List Char} : Takes d leafStart .openGroup ['('] rest
  | closeGroup {rest : List Char} : Takes d leafStart .closeGroup [')'] rest

/-- Why no token starts a text at position `p`. -/
inductive Refuses (d : Dialect) (p : Nat) : List Char → ParseError → Prop
  | tilde {rest : List Char} (h : d = .relational) : Refuses d p ('~' :: rest) (.unexpected p (.char '~') .value)
  | noRun (k : Nat) {c : Char} {rest : List Char} (h : d.isReserved c = true) (hc : c ≠ '"') :
    Refuses d p (quotes (k + 1) (c :: rest)) (.unexpected (p + (k + 1)) (.char c) .value)
  | noMore (k : Nat) : Refuses d p (quotes (k + 1) []) (.unterminatedQuote (p + k))
  | badClose {j k : Nat} {run : List Char} {c : Char} {rest : List Char} (h : IsRun d run) (hj : j ≤ k)
    (hr : EndsRun d (quotes j (c :: rest))) (hc : c ≠ '"') :
    Refuses d p (quotes (k + 1) (run ++ quotes j (c :: rest)))
      (.unexpected (p + (k + 1) + run.length + j) (.char c) .closingQuote)
  | noClose {j k : Nat} {run : List Char} (h : IsRun d run) (hj : j ≤ k) :
    Refuses d p (quotes (k + 1) (run ++ quotes j [])) (.unterminatedQuote (p + (k - j)))

/-! ## Quoted values -/

@[simp] theorem quotes_zero (cs : List Char) : quotes 0 cs = cs := rfl

@[simp] theorem quotes_succ (k : Nat) (cs : List Char) : quotes (k + 1) cs = '"' :: quotes k cs := rfl

theorem quotes_append (k : Nat) (cs rest : List Char) : quotes k cs ++ rest = quotes k (cs ++ rest) :=
  List.append_assoc ..

theorem quotes_add (j k : Nat) (cs : List Char) : quotes (j + k) cs = quotes j (quotes k cs) := by
  rw [quotes, quotes, quotes, ← List.append_assoc, List.replicate_append_replicate]

/-- Every text starts with some quotes, often with none. -/
theorem exists_quotes : ∀ cs : List Char, ∃ k rest, cs = quotes k rest ∧ rest.head? ≠ some '"'
  | [] => ⟨0, [], rfl, by simp⟩
  | c :: cs => by
    by_cases hc : c = '"'
    · obtain ⟨k, rest, rfl, hr⟩ := exists_quotes cs
      exact ⟨k + 1, rest, by rw [hc, quotes_succ], hr⟩
    · exact ⟨0, c :: cs, rfl, by simpa using hc⟩

theorem endsRun_quotes_nil (k : Nat) : EndsRun d (quotes k []) := by
  cases k with
  | zero => rintro c ⟨⟩
  | succ k => rintro c ⟨⟩; cases d <;> rfl

/-- A free character is none of those that both dialects reserve. -/
theorem ne_sign_of_free {c : Char} (h : d.isReserved c = false) :
    ∀ x ∈ [' ', '(', ')', ':', '=', '>', '<', '"'], c ≠ x := by
  have hsigns : [' ', '(', ')', ':', '=', '>', '<', '"'].all d.isReserved = true := by cases d <;> rfl
  rintro x hx rfl
  rw [List.all_eq_true.1 hsigns c hx] at h
  cases h

theorem ne_quote_of_free {c : Char} (h : d.isReserved c = false) : c ≠ '"' := ne_sign_of_free h '"' (by decide)

theorem head?_ne_quote {run rest : List Char} (h : IsRun d run) : (run ++ rest).head? ≠ some '"' := by
  obtain ⟨hne, hfree⟩ := h
  cases run with
  | nil => exact absurd rfl hne
  | cons c run => simpa using ne_quote_of_free (hfree c List.mem_cons_self)

/-- The closing quotes are counted from the innermost level on. -/
theorem closingError?_quotes {start : Nat} : ∀ {levels j p : Nat} {rest : List Char}, rest.head? ≠ some '"' →
    closingError? start levels p (quotes j rest) =
      if levels ≤ j then none
      else match rest with
        | [] => some (.unterminatedQuote (start + (levels - 1 - j)))
        | c :: _ => some (.unexpected (p + j) (.char c) .closingQuote)
  | 0, j, p, rest, _ => by rw [if_pos (Nat.zero_le j)]; rfl
  | level + 1, 0, p, [], _ => by rw [if_neg (by omega)]; rfl
  | level + 1, 0, p, c :: rest, h => by
    have hc : c ≠ '"' := by simpa using h
    rw [if_neg (by omega), quotes_zero, closingError?, if_neg hc]
    rfl
  | level + 1, j + 1, p, rest, h => by
    rw [quotes_succ, closingError?, if_pos rfl, closingError?_quotes h]
    cases rest with
    | nil => simp [Nat.sub_sub, Nat.add_comm]
    | cons c rest => simp [Nat.add_assoc, Nat.add_comm 1 j]

theorem levels_quotes {k : Nat} {rest : List Char} (h : rest.head? ≠ some '"') :
    ((quotes k rest).takeWhile (· == '"')).length = k := by
  have hin : ∀ c ∈ List.replicate k '"', (c == '"') = true := by simp
  have hspan := span_of_head rest hin fun c hc => beq_eq_false_iff_ne.2 fun hc' => h (hc' ▸ hc)
  rw [quotes, hspan.1, List.length_replicate]

theorem drop_quotes (k : Nat) (rest : List Char) : (quotes k rest).drop k = rest :=
  List.drop_left' List.length_replicate

theorem readQuoted_nil (p k : Nat) : readQuoted d p (quotes (k + 1) []) = .error (.unterminatedQuote (p + k)) := by
  have hq : ([] : List Char).head? ≠ some '"' := by simp
  simp only [readQuoted, levels_quotes hq, drop_quotes]
  rfl

theorem readQuoted_reserved {p k : Nat} {c : Char} {rest : List Char} (h : d.isReserved c = true) (hc : c ≠ '"') :
    readQuoted d p (quotes (k + 1) (c :: rest)) = .error (.unexpected (p + (k + 1)) (.char c) .value) := by
  have hq : (c :: rest).head? ≠ some '"' := by simpa using hc
  simp only [readQuoted, levels_quotes hq, drop_quotes, List.takeWhile_cons, h]
  rfl

theorem readQuoted_run {p k : Nat} {run tail : List Char} (h : IsRun d run) (hr : EndsRun d tail) :
    readQuoted d p (quotes (k + 1) (run ++ tail)) =
      match closingError? p (k + 1) (p + (k + 1) + run.length) tail with
      | some e => .error e
      | none => .ok (.ofRun (String.ofList run), k + 1 + run.length + (k + 1)) := by
  have hin : ∀ c ∈ run, (!d.isReserved c) = true := fun c hc => by simp [h.free c hc]
  have hspan := span_of_head tail hin fun c hc => by simp [hr c hc]
  have hne := h.ne_nil
  simp only [readQuoted, levels_quotes (head?_ne_quote h), drop_quotes]
  cases run with
  | nil => exact absurd rfl hne
  | cons c run =>
    have hdrop : ((c :: run) ++ tail).drop (c :: run).length = tail := List.drop_left
    simp only [List.cons_append] at hspan hdrop ⊢
    simp only [hspan.1, hdrop]
    exact if_neg (by simp)

/-! ## What the lexer takes -/

section FirstToken

variable {b : Bool} {p : Nat} {t : Token} {w rest cs : List Char} {e : ParseError}

theorem firstToken_quotes (k : Nat) (cs : List Char) :
    firstToken d b p '"' (quotes k cs) = (readQuoted d p (quotes (k + 1) cs)).map fun (v, n) => (.value v, n - 1) :=
  rfl

/-- A free character starts a run, unless it is a sign of negation. -/
theorem firstToken_free {c : Char} {r : List Char} (hc : d.isReserved c = false)
    (hm : c = '-' → (d.hasNegation && b) = false) :
    firstToken d b p c r =
      .ok (.value (.ofRun (String.ofList (c :: r.takeWhile (!d.isReserved ·)))),
        (r.takeWhile (!d.isReserved ·)).length) := by
  have hne := ne_sign_of_free hc
  have hm' : ¬ (c = '-' ∧ d.hasNegation = true ∧ b = true) := by
    rintro ⟨hd, hn, hb⟩
    have := hm hd
    rw [hn, hb] at this
    cases this
  simp only [List.forall_mem_cons] at hne
  obtain ⟨h₁, h₂, h₃, h₄, h₅, h₆, h₇, h₈, -⟩ := hne
  rw [firstToken, if_neg h₁, if_neg h₂, if_neg h₃, if_neg h₄, if_neg h₅, if_neg h₆, if_neg h₇, if_neg h₈, if_neg hm',
    if_neg (by rw [hc]; decide)]

/-- A quoted value is read to its end whatever follows, more quotes included. -/
theorem readQuoted_closed {k : Nat} {run : List Char} (rest : List Char) (h : IsRun d run) :
    readQuoted d p (quotes (k + 1) (run ++ List.replicate (k + 1) '"' ++ rest)) =
      .ok (.ofRun (String.ofList run), k + 1 + run.length + (k + 1)) := by
  obtain ⟨j, rest, rfl, hq⟩ := exists_quotes rest
  have hends : EndsRun d (quotes (k + 1 + j) rest) := by
    rw [Nat.add_right_comm, quotes_succ]
    rintro c ⟨⟩
    cases d <;> rfl
  have hclose : List.replicate (k + 1) '"' ++ quotes j rest = quotes (k + 1 + j) rest := (quotes_add ..).symm
  rw [List.append_assoc, hclose, readQuoted_run h hends, closingError?_quotes hq,
    if_pos (Nat.le_add_right _ _)]

/-- A token is read by its spelling, wherever it stands. -/
theorem firstToken_of_takes (h : Takes d b t w rest) :
    ∃ c v, w = c :: v ∧ ∀ p, firstToken d b p c (v ++ rest) = .ok (t, v.length) := by
  cases h with
  | @quoted k run _ h =>
    refine ⟨'"', quotes k _, quotes_succ .., fun p => ?_⟩
    rw [quotes_append, firstToken_quotes, readQuoted_closed rest h]
    simp [Except.map, quotes]
    omega
  | run h hm hr =>
    cases w with
    | nil => exact absurd rfl h.ne_nil
    | cons c run =>
      refine ⟨c, run, rfl, fun p => ?_⟩
      have hin : ∀ x ∈ run, (!d.isReserved x) = true := fun x hx => by simp [h.free x (List.mem_cons_of_mem c hx)]
      rw [firstToken_free (h.free c List.mem_cons_self) fun hc => hm (congrArg some hc),
        (span_of_head rest hin fun x hx => by simp [hr x hx]).1]
  | minus hm =>
    obtain ⟨hd, hb⟩ := Bool.and_eq_true_iff.1 hm
    exact ⟨'-', [], rfl, fun p => by simp [firstToken, hd, hb]⟩
  | op o h =>
    cases o with
    | default => exact ⟨':', [], rfl, fun _ => rfl⟩
    | eq => exact ⟨'=', [], rfl, fun _ => rfl⟩
    | gte => exact ⟨'>', ['='], rfl, fun _ => rfl⟩
    | lte => exact ⟨'<', ['='], rfl, fun _ => rfl⟩
    | gt => exact ⟨'>', [], rfl, fun _ => if_neg (h (.inl rfl))⟩
    | lt => exact ⟨'<', [], rfl, fun _ => if_neg (h (.inr rfl))⟩
  | space h =>
    refine ⟨' ', [], rfl, fun p => ?_⟩
    rw [List.nil_append, firstToken, if_pos rfl, if_neg (fun ho => h (List.isPrefixOf_iff_prefix.1 ho))]
    rfl
  | or => exact ⟨' ', _, rfl, fun _ => rfl⟩
  | openGroup => exact ⟨'(', _, rfl, fun _ => rfl⟩
  | closeGroup => exact ⟨')', _, rfl, fun _ => rfl⟩

theorem firstToken_of_refuses (h : Refuses d p cs e) :
    ∃ c r, cs = c :: r ∧ ∀ b, firstToken d b p c r = .error e := by
  cases h with
  | tilde h =>
    subst h
    exact ⟨'~', _, rfl, fun _ => rfl⟩
  | noRun k h hc =>
    refine ⟨'"', quotes k _, quotes_succ .., fun b => ?_⟩
    rw [firstToken_quotes, readQuoted_reserved h hc]
    rfl
  | noMore k =>
    refine ⟨'"', quotes k _, quotes_succ .., fun b => ?_⟩
    rw [firstToken_quotes, readQuoted_nil]
    rfl
  | @badClose j k run c rest h hj hr hc =>
    refine ⟨'"', quotes k _, quotes_succ .., fun b => ?_⟩
    have hq : (c :: rest).head? ≠ some '"' := by simpa using hc
    rw [firstToken_quotes, readQuoted_run h hr, closingError?_quotes hq, if_neg (by omega)]
    rfl
  | @noClose j k run h hj =>
    refine ⟨'"', quotes k _, quotes_succ .., fun b => ?_⟩
    rw [firstToken_quotes, readQuoted_run h (endsRun_quotes_nil j), closingError?_quotes (by simp), if_neg (by omega)]
    simp [Except.map]

/-! ## Every text does one or the other -/

theorem exists_run {c : Char} (r : List Char) (hc : d.isReserved c = false) :
    ∃ run rest, c :: r = (c :: run) ++ rest ∧ IsRun d (c :: run) ∧ EndsRun d rest := by
  refine ⟨r.takeWhile (!d.isReserved ·), r.dropWhile (!d.isReserved ·), ?_, ⟨List.cons_ne_nil _ _, ?_⟩, ?_⟩
  · rw [List.cons_append, List.takeWhile_append_dropWhile]
  · exact List.forall_mem_cons.2 ⟨hc, fun x hx => by simpa using List.mem_takeWhile_imp hx⟩
  · intro x hx
    have := List.head?_dropWhile_not (fun x => !d.isReserved x) r
    rw [hx] at this
    simpa using this

/-- A text that starts with a quote is a quoted value with something behind it, or there is no such value. -/
theorem takes_or_refuses_quotes (k : Nat) {rest : List Char} (hq : rest.head? ≠ some '"') :
    (∃ t w rest', quotes (k + 1) rest = w ++ rest' ∧ Takes d b t w rest') ∨
      ∃ e, Refuses d p (quotes (k + 1) rest) e := by
  cases rest with
  | nil => exact .inr ⟨_, .noMore k⟩
  | cons c r =>
    have hc : c ≠ '"' := by simpa using hq
    cases hr : d.isReserved c with
    | true => exact .inr ⟨_, .noRun k hr hc⟩
    | false =>
      obtain ⟨run, tail, hrun, h, hends⟩ := exists_run r hr
      obtain ⟨j, tail', rfl, hq'⟩ := exists_quotes tail
      rw [hrun]
      by_cases hj : j ≤ k
      · cases tail' with
        | nil => exact .inr ⟨_, .noClose h hj⟩
        | cons x tail' => exact .inr ⟨_, .badClose h hj hends (by simpa using hq')⟩
      · refine .inl ⟨_, _, quotes (j - (k + 1)) tail', ?_, .quoted k h⟩
        have hsplit : quotes j tail' = List.replicate (k + 1) '"' ++ quotes (j - (k + 1)) tail' := by
          rw [← quotes, ← quotes_add]
          congr 1
          omega
        rw [hsplit, quotes_append, List.append_assoc]

/-- A comparison is widened by an equals sign behind it. -/
theorem takes_comparison (wide narrow : Operator) {x : Char} (r : List Char) (hw : wide.text.toList = [x, '='])
    (hn : narrow.text.toList = [x]) (hne : wide ≠ .gt ∧ wide ≠ .lt) :
    ∃ t w rest, x :: r = w ++ rest ∧ Takes d b t w rest := by
  by_cases hr : r.head? = some '='
  · obtain ⟨r', rfl⟩ : ∃ r', r = '=' :: r' := by
      cases r with
      | nil => cases hr
      | cons y r' => cases hr; exact ⟨r', rfl⟩
    have h : Takes d b (.op wide) wide.text.toList r' := .op wide fun h => absurd h (by simp [hne])
    rw [hw] at h
    exact ⟨_, _, r', rfl, h⟩
  · have h : Takes d b (.op narrow) narrow.text.toList r := .op narrow fun _ => hr
    rw [hn] at h
    exact ⟨_, _, r, rfl, h⟩

theorem takes_or_refuses (d : Dialect) (b : Bool) (p : Nat) (c : Char) (r : List Char) :
    (∃ t w rest, c :: r = w ++ rest ∧ Takes d b t w rest) ∨ ∃ e, Refuses d p (c :: r) e := by
  cases hc : d.isReserved c with
  | false =>
    by_cases hm : c = '-' ∧ (d.hasNegation && b) = true
    · obtain ⟨rfl, hm⟩ := hm
      exact .inl ⟨_, _, r, rfl, .minus hm⟩
    · obtain ⟨run, rest, hrun, h, hr⟩ := exists_run r hc
      rw [hrun]
      refine .inl ⟨_, _, rest, rfl, .run h ?_ hr⟩
      rintro ⟨⟩
      exact Bool.eq_false_iff.2 fun hn => hm ⟨rfl, hn⟩
  | true =>
    simp only [Dialect.isReserved, Bool.or_eq_true, Bool.and_eq_true, beq_iff_eq] at hc
    rcases hc with (((((((rfl | rfl) | rfl) | rfl) | rfl) | rfl) | rfl) | rfl) | ⟨rfl, hd⟩
    · by_cases hr : ['O', 'R', ' '] <+: r
      · obtain ⟨rest, rfl⟩ := hr
        exact .inl ⟨_, _, rest, rfl, .or⟩
      · exact .inl ⟨_, _, r, rfl, .space hr⟩
    · obtain ⟨k, rest, hk, hq⟩ := exists_quotes r
      have htext : '"' :: r = quotes (k + 1) rest := by rw [hk, quotes_succ]
      rw [htext]
      exact takes_or_refuses_quotes k hq
    · exact .inl ⟨_, _, r, rfl, .op .default (by simp)⟩
    · exact .inl (takes_comparison .gte .gt r rfl rfl (by simp))
    · exact .inl ⟨_, _, r, rfl, .op .eq (by simp)⟩
    · exact .inl (takes_comparison .lte .lt r rfl rfl (by simp))
    · exact .inl ⟨_, _, r, rfl, .openGroup⟩
    · exact .inl ⟨_, _, r, rfl, .closeGroup⟩
    · exact .inr ⟨_, .tilde (by simpa using hd)⟩

end FirstToken

end CompactSearch.Lexer

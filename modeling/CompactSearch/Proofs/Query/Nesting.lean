/-
Quotes inside quotes. A quoted value is said level by level: a quote, a value that may be quoted again, and the closing
quote (`nestedValue`). The lexer goes another way, it counts all opening quotes first and then looks for as many closing
ones, but it reads the same value to the same place, and where there is none it blames the same place for the same reason
(`readQuoted_nested`). So a value does not depend on the number of quotes around it.
-/
import CompactSearch.Proofs.Query.Lexeme

namespace CompactSearch.Lexer

/-! ## The rule for one level -/

/-- Closes the quote at position `q` behind the value inside it: the answer is this value and the position behind the
closing quote. -/
def closeQuote (chars : List Char) (q : Nat) : Value × Nat → Except ParseError (Value × Nat)
  | (v, e) =>
    match chars[e]? with
    | none => .error (.unterminatedQuote q)
    | some c => if c = '"' then .ok (v, e + 1) else .error (.unexpected e (.char c) .closingQuote)

/-- The value of the run at position `p`, where the character `c` stands, and the position behind it. -/
def runValue (d : Dialect) (chars : List Char) (p : Nat) (c : Char) : Except ParseError (Value × Nat) :=
  let run := (chars.drop p).takeWhile (!d.isReserved ·)
  if run.isEmpty then .error (.unexpected p (.char c) .value)
  else .ok (.ofRun (String.ofList run), p + run.length)

/-- The value that starts with the quote at position `q`, and the position behind its closing quote. Behind the quote
stands a quoted value or a run, and behind that the closing quote. -/
def nestedValue (d : Dialect) (chars : List Char) (q : Nat) : Except ParseError (Value × Nat) :=
  match h : chars[q + 1]? with
  | none => .error (.unterminatedQuote q)
  | some c =>
    (if c = '"' then nestedValue d chars (q + 1) else runValue d chars (q + 1) c) >>= closeQuote chars q
termination_by chars.length - q
decreasing_by
  have hlt := (List.getElem?_eq_some_iff.1 h).1
  omega

section Levels

variable {d : Dialect} {chars rest : List Char} {q start p : Nat} {c : Char} {v : Value}

theorem nestedValue_none (h : chars[q + 1]? = none) : nestedValue d chars q = .error (.unterminatedQuote q) := by
  unfold nestedValue
  split
  · rfl
  · rename_i hc
    rw [h] at hc
    cases hc

theorem nestedValue_some (h : chars[q + 1]? = some c) : nestedValue d chars q =
    (if c = '"' then nestedValue d chars (q + 1) else runValue d chars (q + 1) c) >>= closeQuote chars q := by
  rw [nestedValue]
  split
  · rename_i hc
    rw [h] at hc
    cases hc
  · rename_i hc
    rw [h] at hc
    cases hc
    rfl

/-! ## All levels together -/

/-- Closes a number of quotes, the first of which stands at `start`, from the innermost one on. -/
def closeAll (chars : List Char) (start : Nat) : Nat → Value × Nat → Except ParseError (Value × Nat)
  | 0, r => pure r
  | level + 1, r => closeQuote chars (start + level) r >>= closeAll chars start level

theorem closeAll_one (chars : List Char) (start : Nat) : closeAll chars start 1 = closeQuote chars start :=
  funext fun _ => bind_pure _

/-- The outermost quote is closed last. -/
theorem closeAll_succ (chars : List Char) (start : Nat) : ∀ levels : Nat,
    closeAll chars start (levels + 1) = fun r => closeAll chars (start + 1) levels r >>= closeQuote chars start
  | 0 => closeAll_one chars start
  | levels + 1 => by
    funext r
    rw [closeAll, closeAll_succ chars start levels, ← bind_assoc, closeAll, Nat.add_right_comm, Nat.add_assoc]

theorem getElem?_of_drop (h : chars.drop p = rest) : chars[p]? = rest.head? := by
  rw [← h, List.head?_drop]

theorem drop_succ_of_drop (h : chars.drop p = c :: rest) : chars.drop (p + 1) = rest := by
  rw [← List.drop_drop, h, List.drop_one, List.tail_cons]

/-- The error that the lexer finds in the closing quotes is the one that the levels find. -/
theorem closeAll_eq : ∀ levels p : Nat, closeAll chars start levels (v, p) =
    match closingError? start levels p (chars.drop p) with
    | some e => .error e
    | none => .ok (v, p + levels)
  | 0, p => rfl
  | level + 1, p => by
    rw [closeAll, closeQuote]
    cases hdrop : chars.drop p with
    | nil =>
      rw [getElem?_of_drop hdrop]
      rfl
    | cons c r =>
      rw [getElem?_of_drop hdrop]
      by_cases hc : c = '"'
      · rw [closingError?, if_pos hc, ← drop_succ_of_drop hdrop, Nat.add_comm level 1, ← Nat.add_assoc]
        simp only [List.head?_cons, if_pos hc]
        exact closeAll_eq level (p + 1)
      · rw [closingError?, if_neg hc]
        simp only [List.head?_cons, if_neg hc]
        rfl

/-- The value inside the innermost quote, which stands at position `q`. -/
def innermost (d : Dialect) (chars : List Char) (q : Nat) : Except ParseError (Value × Nat) :=
  match chars[q + 1]? with
  | none => .error (.unterminatedQuote q)
  | some c => runValue d chars (q + 1) c

/-- The rule goes down to the innermost quote and closes the levels on its way back. -/
theorem nestedValue_quotes : ∀ {k q : Nat}, chars.drop q = quotes (k + 1) rest → rest.head? ≠ some '"' →
    nestedValue d chars q = innermost d chars (q + k) >>= closeAll chars q (k + 1)
  | 0, q, h, hq => by
    have hnext := getElem?_of_drop (drop_succ_of_drop h)
    rw [innermost, Nat.add_zero, closeAll_one]
    cases rest with
    | nil =>
      rw [nestedValue_none hnext, hnext]
      rfl
    | cons c r =>
      have hc : c ≠ '"' := by simpa using hq
      rw [nestedValue_some hnext, if_neg hc, hnext]
      rfl
  | k + 1, q, h, hq => by
    have hdrop : chars.drop (q + 1) = quotes (k + 1) rest := drop_succ_of_drop h
    rw [nestedValue_some (getElem?_of_drop hdrop), if_pos rfl, nestedValue_quotes hdrop hq, bind_assoc,
      closeAll_succ chars q (k + 1), Nat.add_right_comm, Nat.add_assoc]

/-- The lexer counts the levels first and does the same. -/
theorem readQuoted_quotes {k q : Nat} (h : chars.drop q = quotes (k + 1) rest) (hq : rest.head? ≠ some '"') :
    (readQuoted d q (chars.drop q)).map (fun (v, n) => (v, q + n)) =
      innermost d chars (q + k) >>= closeAll chars q (k + 1) := by
  have hdrop : chars.drop (q + k + 1) = rest := by
    rw [Nat.add_assoc, ← List.drop_drop, h, drop_quotes]
  rw [h, innermost, getElem?_of_drop hdrop]
  cases rest with
  | nil =>
    rw [readQuoted_nil]
    rfl
  | cons c r =>
    have hc : c ≠ '"' := by simpa using hq
    show _ = runValue d chars (q + k + 1) c >>= _
    rw [runValue, hdrop]
    cases hr : d.isReserved c with
    | true =>
      rw [readQuoted_reserved hr hc]
      simp [hr]
      rfl
    | false =>
      obtain ⟨run, tail, hrun, hfree, hends⟩ := exists_run r hr
      rw [hrun] at hdrop ⊢
      have hin : ∀ x ∈ c :: run, (!d.isReserved x) = true := fun x hx => by simp [hfree.free x hx]
      have htail : chars.drop (q + k + 1 + (c :: run).length) = tail := by
        rw [← List.drop_drop, hdrop, List.drop_left]
      rw [readQuoted_run hfree hends, (span_of_head tail hin fun x hx => by simp [hends x hx]).1,
        if_neg (by simp), ← htail]
      -- Both have read the run. What is left is the first fault in the closing quotes, if there is one.
      show _ = closeAll chars q (k + 1) (_, q + k + 1 + (c :: run).length)
      rw [closeAll_eq, ← Nat.add_assoc q k 1]
      cases closingError? q (k + 1) (q + k + 1 + (c :: run).length)
          (chars.drop (q + k + 1 + (c :: run).length)) with
      | some e => rfl
      | none =>
        show Except.ok (_, _) = Except.ok (_, _)
        congr 2
        omega

end Levels

/-! ## Quotes around a value -/

section Wrapped

variable {d : Dialect} {p n : Nat} {v : Value} {cs : List Char}

/-- What is read as a quoted value is a run between as many quotes on one side as on the other. -/
theorem run_of_readQuoted (hq : cs.head? = some '"') (h : readQuoted d p cs = .ok (v, n)) :
    ∃ (k : Nat) (run rest : List Char), IsRun d run ∧ v = .ofRun (String.ofList run) ∧
      cs = quotes (k + 1) (run ++ List.replicate (k + 1) '"') ++ rest ∧ n = k + 1 + run.length + (k + 1) := by
  obtain ⟨k, rest, rfl, hrest⟩ := exists_quotes cs
  cases k with
  | zero => exact absurd hq hrest
  | succ k =>
    cases rest with
    | nil =>
      rw [readQuoted_nil] at h
      cases h
    | cons c r =>
      have hc : c ≠ '"' := by simpa using hrest
      cases hr : d.isReserved c with
      | true =>
        rw [readQuoted_reserved hr hc] at h
        cases h
      | false =>
        obtain ⟨run, tail, hrun, hfree, hends⟩ := exists_run r hr
        obtain ⟨j, tail, rfl, htail⟩ := exists_quotes tail
        rw [hrun, readQuoted_run hfree hends, closingError?_quotes htail] at h
        -- Enough closing quotes: the ones that are left over are part of the rest. Too few: an error.
        by_cases hj : k + 1 ≤ j
        · obtain ⟨i, rfl⟩ := Nat.exists_eq_add_of_le hj
          rw [if_pos hj] at h
          cases h
          refine ⟨k, c :: run, quotes i tail, hfree, rfl, ?_, rfl⟩
          rw [hrun, quotes_add (k + 1) i, quotes_append, List.append_assoc, ← quotes]
        · rw [if_neg hj] at h
          cases tail <;> cases h

/-- More quotes around a quoted value change nothing about it. -/
theorem readQuoted_wrapped (hq : cs.head? = some '"') (h : readQuoted d p cs = .ok (v, n)) (k p' : Nat)
    (rest : List Char) : readQuoted d p' (quotes k (cs.take n ++ quotes k rest)) = .ok (v, k + n + k) := by
  obtain ⟨j, run, tail, hrun, rfl, rfl, rfl⟩ := run_of_readQuoted hq h
  have hlength : (quotes (j + 1) (run ++ List.replicate (j + 1) '"')).length = j + 1 + run.length + (j + 1) := by
    simp only [quotes, List.length_append, List.length_replicate]
    omega
  have hclose : List.replicate (j + 1) '"' ++ quotes k rest = List.replicate (k + j + 1) '"' ++ rest := by
    rw [← quotes, ← quotes_add, ← quotes]
    congr 1
    omega
  rw [List.take_left' hlength, quotes_append, List.append_assoc, hclose, ← quotes_add, ← List.append_assoc,
    ← Nat.add_assoc, readQuoted_closed rest hrun]
  congr 2
  omega

end Wrapped

/-- Counting quotes and nesting them is the same. Wherever a quote stands in a text, the lexer reads the value that the
rule reads, to the same position, or it answers the same error; and the value that it reads stays the same under any
number of further quotes around it, wherever they stand and whatever follows. -/
theorem readQuoted_nested (d : Dialect) (chars : List Char) (q : Nat) (h : chars[q]? = some '"') :
    (readQuoted d q (chars.drop q)).map (fun (v, n) => (v, q + n)) = nestedValue d chars q ∧
      ∀ v n, readQuoted d q (chars.drop q) = .ok (v, n) → ∀ (k p : Nat) (rest : List Char),
        readQuoted d p (quotes k ((chars.drop q).take n ++ quotes k rest)) = .ok (v, k + n + k) := by
  have hq : (chars.drop q).head? = some '"' := by rw [List.head?_drop, h]
  constructor
  · obtain ⟨k, rest, hdrop, hrest⟩ := exists_quotes (chars.drop q)
    cases k with
    | zero =>
      rw [hdrop] at hq
      exact absurd hq hrest
    | succ k => rw [readQuoted_quotes hdrop hrest, nestedValue_quotes hdrop hrest]
  · intro v n hr k p rest
    exact readQuoted_wrapped hq hr k p rest

/-- One of three quotes is closed before a space, and a numeral is the same value in any number of quotes. -/
theorem readQuoted_nested_half_closed :
    "a:\"\"\"b\" c".toList[2]? = some '"' ∧
      nestedValue .document "a:\"\"\"b\" c".toList 2 = .error (.unexpected 7 (.char ' ') .closingQuote) ∧
      "\"7\"".toList[0]? = some '"' ∧
      ∀ (k p : Nat) (rest : List Char), readQuoted .relational p (quotes k ("\"7\"".toList ++ quotes k rest)) =
        .ok (.number ⟨"7", by decide⟩, k + 3 + k) := by
  have hopen : "a:\"\"\"b\" c".toList[2]? = some '"' := by decide
  have hseven : "\"7\"".toList[0]? = some '"' := by decide
  have hread : readQuoted .relational 0 "\"7\"".toList = .ok (.number ⟨"7", by decide⟩, 3) := by decide +kernel
  refine ⟨hopen, ?_, hseven, fun k p rest => ?_⟩
  · rw [← (readQuoted_nested .document _ 2 hopen).1]
    decide +kernel
  · exact (readQuoted_nested .relational "\"7\"".toList 0 hseven).2 _ 3 hread k p rest

end CompactSearch.Lexer

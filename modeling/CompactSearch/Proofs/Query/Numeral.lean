/-
The value of number literals. A text is a literal exactly if it is one as a whole, and then it has one exact value
(`decimalValue_iff`), however many digits it has. Its JSON form and its bound form are made apart from each other; both are
the exact value where that is a whole number that is typed without a point and fits 64 bits, and otherwise both are the
binary64 number nearest to it, save that JSON keeps the text of a literal that is too great for one (`encodings_exact`).
-/
import CompactSearch.Json.Literal
import CompactSearch.Proofs.Decimal.Rounding
import CompactSearch.Proofs.Query.Lexing
import CompactSearch.Sql.Bound
import Mathlib.Tactic.FieldSimp

namespace CompactSearch

/-! ## Exact values -/

/-- The exact value of a decimal literal: the digits as a whole number, and with a point the digits behind it as so many
tenths, hundredths and so on. -/
inductive DecimalValue (cs : List Char) : ℚ → Prop
  | whole (h : IsDigits cs) : DecimalValue cs (Nat.ofDigitChars 10 cs 0 : ℕ)
  | pointed {whole fraction : List Char} (hw : IsDigits whole) (hf : IsDigits fraction)
    (hcs : cs = whole ++ '.' :: fraction) :
    DecimalValue cs ((Nat.ofDigitChars 10 whole 0 : ℕ) + (Nat.ofDigitChars 10 fraction 0 : ℕ) / 10 ^ fraction.length)

theorem IsDecimal.exists_value {cs : List Char} (h : IsDecimal cs) : ∃ q, DecimalValue cs q := by
  obtain ⟨whole, hw, rfl | ⟨fraction, hf, rfl⟩⟩ := h
  · exact ⟨_, .whole hw⟩
  · exact ⟨_, .pointed hw hf rfl⟩

theorem digitsValue_eq (ds : List Char) : digitsValue ds = Nat.ofDigitChars 10 ds 0 := rfl

namespace Numeral

variable {n : Numeral} {s : String} {q : ℚ}

theorem ofText?_eq_some_iff : ofText? s = some n ↔ n.text = s := by
  unfold ofText?
  split
  · rename_i h
    rw [Option.some.injEq]
    constructor
    · rintro rfl
      rfl
    · rintro rfl
      rfl
  · rename_i h
    constructor
    · rintro ⟨⟩
    · rintro rfl
      exact absurd n.isNumeral h

theorem exists_ofText?_iff : (∃ n, ofText? s = some n) ↔ IsDecimal s.toList := by
  rw [← isNumeral_iff]
  constructor
  · rintro ⟨n, h⟩
    rw [← ofText?_eq_some_iff.1 h]
    exact n.isNumeral
  · intro h
    exact ⟨⟨s, h⟩, ofText?_eq_some_iff.2 rfl⟩

/-- The digits of a literal without its point, shifted by those behind the point. -/
def exactValue (n : Numeral) : ℚ := n.coefficient * 10 ^ (-(n.fraction.length : ℤ))

/-- The parts in front of the point and behind it make the exact value, and there is a part behind it exactly if there is
a point. -/
theorem parts (h : DecimalValue n.text.toList q) :
    q = n.exactValue ∧ (n.isInteger = true ↔ '.' ∉ n.text.toList) := by
  have hpoint : ∀ {ds : List Char}, IsDigits ds → '.' ∉ ds := fun hd hc => absurd (hd.2 _ hc) (by decide)
  cases h with
  | whole h =>
    obtain ⟨htake, hdrop⟩ := span_of_head [] h.2 (by simp)
    rw [List.append_nil] at htake hdrop
    have hf : n.fraction = [] := by rw [fraction, hdrop]; rfl
    have hc : n.coefficient = Nat.ofDigitChars 10 n.text.toList 0 := by
      rw [coefficient, hf, whole, htake, List.append_nil, digitsValue_eq]
    refine ⟨?_, ?_⟩
    · rw [exactValue, hf, hc]
      simp
    · simp [isInteger, hf, hpoint h]
  | @pointed w f hw hf hcs =>
    obtain ⟨htake, hdrop⟩ := span_of_head ('.' :: f) hw.2 (by rintro c ⟨⟩; rfl)
    rw [← hcs] at htake hdrop
    have hfraction : n.fraction = f := by rw [fraction, hdrop]; rfl
    have hc : n.coefficient = 10 ^ f.length * Nat.ofDigitChars 10 w 0 + Nat.ofDigitChars 10 f 0 := by
      rw [coefficient, hfraction, whole, htake, digitsValue_eq, Nat.ofDigitChars_append,
        Nat.ofDigitChars_eq_ofDigitChars_zero]
    refine ⟨?_, ?_⟩
    · rw [exactValue, hfraction, hc, zpow_neg, zpow_natCast]
      push_cast
      field_simp
    · simp [isInteger, hfraction, hf.1, hcs]

/-- A literal has one exact value. -/
theorem decimalValue_iff : DecimalValue n.text.toList q ↔ q = n.exactValue := by
  constructor
  · exact fun h => (parts h).1
  · rintro rfl
    obtain ⟨q, hq⟩ := (isNumeral_iff.1 n.isNumeral).exists_value
    rwa [← (parts hq).1]

theorem isInteger_iff : n.isInteger = true ↔ '.' ∉ n.text.toList := (parts (decimalValue_iff.2 rfl)).2

theorem value_of_isInteger (h : n.isInteger = true) (hq : DecimalValue n.text.toList q) : q = n.coefficient := by
  have hf : n.fraction = [] := List.isEmpty_iff.1 h
  rw [decimalValue_iff.1 hq, exactValue, hf]
  simp

/-- The exact value is rounded to nearest. -/
theorem roundsTo_toBinary64 (h : DecimalValue n.text.toList q) : Binary64.RoundsTo q n.toBinary64 := by
  rw [decimalValue_iff.1 h]
  exact Magnitude.roundsTo_ofDecimal? _ _

/-! ## Encodings -/

/-- The JSON form of the literal. -/
abbrev json (n : Numeral) : Json := (Literal.ofValue (.number n)).toJson

/-- The bound form of the literal. -/
abbrev bound (n : Numeral) : Sql.Bound := .ofValue (.number n)

/-- Whether the literal `text` of the value `q` is a whole number that is kept exactly. -/
def StaysInteger (text : String) (q : ℚ) : Prop := '.' ∉ text.toList ∧ q ≤ 2 ^ 63 - 1

theorem staysInteger_iff (h : DecimalValue n.text.toList q) :
    StaysInteger n.text q ↔ n.isInteger ∧ n.coefficient ≤ maxInteger := by
  rw [StaysInteger, ← isInteger_iff]
  refine and_congr_right fun hi => ?_
  rw [value_of_isInteger hi h, show (2 ^ 63 - 1 : ℚ) = (maxInteger : ℕ) by norm_num [maxInteger], Nat.cast_le]

/-- What two encodings of the literal `text` keep, where `q` is its exact value and `x` is the nearest binary64 number. -/
structure KeepsValue (text : String) (q : ℚ) (x : Binary64) (json : Json) (bound : Sql.Bound) : Prop where
  /-- The whole numbers are the exact values without a point up to the limit, and no others. -/
  json_integer (k : ℤ) : json = .integer k ↔ StaysInteger text q ∧ k = q
  bound_integer (k : ℤ) : bound = .integer k ↔ StaysInteger text q ∧ k = q
  /-- Any other value is rounded, or kept as text where JSON has no number for it. -/
  json_float : ¬ StaysInteger text q → json = if x.isInfinite then .string text else .float x
  bound_float : ¬ StaysInteger text q → bound = .float x
  json_ne_null : json ≠ .null
  bound_ne_null : bound ≠ .null

theorem encodings_of_fits (h : n.isInteger ∧ n.coefficient ≤ maxInteger) :
    n.json = .integer n.coefficient ∧ n.bound = .integer n.coefficient := by
  have hvalue : n.value = .integer n.coefficient := if_pos h
  simp only [json, bound, Literal.ofValue, Sql.Bound.ofValue, hvalue, Literal.toJson, and_self]

theorem encodings_of_not_fits (h : ¬ (n.isInteger ∧ n.coefficient ≤ maxInteger)) :
    (n.json = if n.toBinary64.isInfinite then .string n.text else .float n.toBinary64) ∧
      n.bound = .float n.toBinary64 := by
  have hvalue : n.value = .float n.toBinary64 := if_neg h
  simp only [json, bound, Literal.ofValue, Sql.Bound.ofValue, hvalue, and_true]
  cases n.toBinary64 <;> rfl

/-- The digits of a whole number that is kept exactly are its exact value. -/
theorem coefficient_eq_iff (hn : n.isInteger ∧ n.coefficient ≤ maxInteger) (h : DecimalValue n.text.toList q) (k : ℤ) :
    (n.coefficient : ℤ) = k ↔ StaysInteger n.text q ∧ k = q := by
  have hstays : StaysInteger n.text q := (staysInteger_iff h).2 hn
  rw [value_of_isInteger hn.1 h] at hstays ⊢
  constructor
  · rintro rfl
    exact ⟨hstays, Int.cast_natCast _⟩
  · rintro ⟨-, hk⟩
    exact_mod_cast hk.symm

theorem keepsValue (h : DecimalValue n.text.toList q) : KeepsValue n.text q n.toBinary64 n.json n.bound := by
  by_cases hn : n.isInteger ∧ n.coefficient ≤ maxInteger
  · obtain ⟨hjson, hbound⟩ := encodings_of_fits hn
    have hstays : StaysInteger n.text q := (staysInteger_iff h).2 hn
    constructor
    · intro k
      rw [hjson, Json.integer.injEq, coefficient_eq_iff hn h]
    · intro k
      rw [hbound, Sql.Bound.integer.injEq, coefficient_eq_iff hn h]
    · exact fun hno => absurd hstays hno
    · exact fun hno => absurd hstays hno
    · rw [hjson]
      exact Json.noConfusion
    · rw [hbound]
      exact Sql.Bound.noConfusion
  · obtain ⟨hjson, hbound⟩ := encodings_of_not_fits hn
    have hno : ¬ StaysInteger n.text q := fun hs => hn ((staysInteger_iff h).1 hs)
    constructor
    · intro k
      rw [hjson]
      constructor
      · split <;> rintro ⟨⟩
      · exact fun hk => absurd hk.1 hno
    · intro k
      rw [hbound]
      constructor
      · rintro ⟨⟩
      · exact fun hk => absurd hk.1 hno
    · exact fun _ => hjson
    · exact fun _ => hbound
    · rw [hjson]
      split <;> exact Json.noConfusion
    · rw [hbound]
      exact Sql.Bound.noConfusion

/-- A text is taken as a number exactly if it is a decimal literal as a whole. Then it has one exact value and one binary64
number nearest to it, and both encodings keep the value: as a whole number where there is no point and it fits 64 bits, as
that binary64 number otherwise, and only an infinite one is text in JSON. -/
theorem encodings_exact (s : String) :
    ((∃ n, ofText? s = some n) ↔ IsDecimal s.toList) ∧
      ∀ n, ofText? s = some n → ∃ q x, (∀ p, DecimalValue s.toList p ↔ p = q) ∧
        (∀ y, Binary64.RoundsTo q y ↔ y = x) ∧ KeepsValue s q x n.json n.bound := by
  refine ⟨exists_ofText?_iff, fun n h => ?_⟩
  obtain rfl := ofText?_eq_some_iff.1 h
  have hq : DecimalValue n.text.toList n.exactValue := decimalValue_iff.2 rfl
  refine ⟨n.exactValue, n.toBinary64, fun p => decimalValue_iff, fun y => ?_, keepsValue hq⟩
  constructor
  · exact fun hy => hy.unique (roundsTo_toBinary64 hq)
  · rintro rfl
    exact roundsTo_toBinary64 hq

/-- The least whole number that does not fit, with leading zeros, is the same finite binary64 number in both encodings. -/
theorem encodings_exact_first_float :
    ∃ n, ofText? "0009223372036854775808" = some n ∧ DecimalValue "0009223372036854775808".toList (2 ^ 63) ∧
      ∃ x, Binary64.RoundsTo (2 ^ 63) x ∧ x.isInfinite = false ∧ n.json = .float x ∧ n.bound = .float x := by
  have hread : ofText? "0009223372036854775808" = some ⟨"0009223372036854775808", by decide⟩ := ofText?_eq_some_iff.2 rfl
  have hdigits : Nat.ofDigitChars 10 "0009223372036854775808".toList 0 = 2 ^ 63 := by decide +kernel
  have hvalue : DecimalValue "0009223372036854775808".toList (2 ^ 63) := by
    have h : DecimalValue "0009223372036854775808".toList _ := .whole (by decide)
    rw [hdigits] at h
    exact_mod_cast h
  obtain ⟨q, x, hq, hx, hkeeps⟩ := (encodings_exact "0009223372036854775808").2 _ hread
  obtain rfl := (hq _).1 hvalue
  have hlarge : ¬ StaysInteger "0009223372036854775808" (2 ^ 63) := fun h => absurd h.2 (by norm_num)
  have hfinite : x.isInfinite = false := by
    rw [← (hx _).1 (roundsTo_toBinary64 (n := ⟨"0009223372036854775808", by decide⟩) hvalue)]
    decide +kernel
  refine ⟨_, hread, hvalue, x, (hx x).2 rfl, hfinite, ?_, hkeeps.bound_float hlarge⟩
  rw [hkeeps.json_float hlarge, hfinite]
  rfl

end Numeral

end CompactSearch

/-
Relative dates of fixed length. The amount that is typed has to fit 64 bits, the span of time that it makes has a limit of
its own, and the instant that is reached has to be in range. Only the last of the three limits is ever seen
(`resolve_exact`): an instant in range is found by exact arithmetic, however many digits are typed, and there is none
otherwise. A text that is no relative date as a whole means no instant at any time.
-/
import CompactSearch.Proofs.Text.Run
import CompactSearch.Proofs.Time.Instant
import CompactSearch.Time.Relative

namespace CompactSearch

/-! ## Texts of relative dates -/

namespace TimeUnit

variable {unit : TimeUnit} {name : String}

/-- The units, each with its abbreviation and the word for one of it. -/
def words : List (String × String × TimeUnit) := [
  ("ms", "millisecond", .fixed 1),
  ("s", "second", .fixed 1000),
  ("m", "minute", .fixed (60 * 1000)),
  ("h", "hour", .fixed (60 * 60 * 1000)),
  ("d", "day", .fixed (24 * 60 * 60 * 1000)),
  ("w", "week", .fixed (7 * 24 * 60 * 60 * 1000)),
  ("M", "month", .calendar 1),
  ("Q", "quarter", .calendar 3),
  ("y", "year", .calendar (4 * 3))]

/-- A unit is called by its abbreviation, by its word, or by the word with an s behind it. -/
def Names (unit : TimeUnit) (name : String) : Prop :=
  ∃ e ∈ words, e.2.2 = unit ∧ name ∈ [e.1, e.2.1, e.2.1 ++ "s"]

instance : Decidable (Names unit name) := inferInstanceAs (Decidable (∃ e ∈ words, _))

theorem ofName?_eq_some_iff : ofName? name = some unit ↔ Names unit name := by
  constructor
  · intro h
    have hall : ∀ e ∈ named, ∀ name ∈ e.1, Names e.2 name := by decide +kernel
    obtain ⟨⟨names, u⟩, hf, rfl⟩ := Option.map_eq_some_iff.1 h
    exact hall _ (List.mem_of_find?_eq_some hf) name (by simpa using List.find?_some hf)
  · rintro ⟨e, he, rfl, hn⟩
    have hall : ∀ e ∈ words, ∀ name ∈ [e.1, e.2.1, e.2.1 ++ "s"], ofName? name = some e.2.2 := by decide +kernel
    exact hall e he name hn

/-- No name of a unit starts with a digit. -/
theorem Names.not_isDigit_head (h : Names unit name) : ∀ c ∈ name.toList.head?, c.isDigit = false := by
  have hall : ∀ e ∈ words, ∀ name ∈ [e.1, e.2.1, e.2.1 ++ "s"], name.toList.head?.all (!·.isDigit) = true := by
    decide +kernel
  obtain ⟨e, he, -, hn⟩ := h
  intro c hc
  have hc' := hall e he name hn
  rw [hc] at hc'
  simpa using hc'

/-- A unit of fixed length lasts at least a millisecond. -/
theorem Names.millis_pos {millis : Nat} (h : Names (.fixed millis) name) : 0 < millis := by
  have hall : ∀ e ∈ words, e.2.2 ≠ .fixed 0 := by decide
  obtain ⟨e, he, hu, -⟩ := h
  refine Nat.pos_of_ne_zero ?_
  rintro rfl
  exact hall e he hu

end TimeUnit

namespace RelativeDate

/-- Digits with the value `n`, and a name of the unit behind them. -/
def Counts (cs : List Char) (n : Nat) (unit : TimeUnit) : Prop :=
  ∃ ds name, IsDigits ds ∧ unit.Names name ∧ cs = ds ++ name.toList ∧ n = Nat.ofDigitChars 10 ds 0

/-- A text that is, as a whole, an amount and a unit: a sign or none, digits, and a name of the unit. -/
inductive IsOffset (text : String) : Int → TimeUnit → Prop
  | unsigned {n : Nat} {unit : TimeUnit} (h : Counts text.toList n unit) : IsOffset text n unit
  | plus {cs : List Char} {n : Nat} {unit : TimeUnit} (ht : text.toList = '+' :: cs) (h : Counts cs n unit) :
    IsOffset text n unit
  | minus {cs : List Char} {n : Nat} {unit : TimeUnit} (ht : text.toList = '-' :: cs) (h : Counts cs n unit) :
    IsOffset text (-n) unit

/-- An amount with its sign. -/
def signed (negative : Bool) (n : Nat) : Int := if negative then -n else n

section Reading

variable {text : String} {negative : Bool} {c : Char} {cs : List Char} {n : Nat} {amount : Int} {unit : TimeUnit}
  {r : RelativeDate}

/-- Digits and a unit are read as they stand, unless the amount does not fit. -/
theorem unsignedOfText?_of_counts (h : Counts cs n unit) :
    unsignedOfText? negative cs =
      if fitsAmount (signed negative n) = true then some (.offset (signed negative n) unit) else none := by
  obtain ⟨ds, name, hd, hn, rfl, rfl⟩ := h
  obtain ⟨htake, hdrop⟩ := span_of_head name.toList hd.2 hn.not_isDigit_head
  have hu : TimeUnit.ofName? name = some unit := TimeUnit.ofName?_eq_some_iff.2 hn
  unfold unsignedOfText?
  rw [htake, hdrop, String.ofList_toList, hu, if_neg (by simpa using hd.1)]
  rfl

theorem counts_of_unsignedOfText? (h : unsignedOfText? negative cs = some r) :
    ∃ n unit, Counts cs n unit ∧ r = .offset (signed negative n) unit := by
  set ds := cs.takeWhile Char.isDigit
  set name := String.ofList (cs.dropWhile Char.isDigit)
  replace h : (if ds.isEmpty then none else (TimeUnit.ofName? name).bind fun unit =>
      if fitsAmount (signed negative (digitsValue ds)) then some (offset (signed negative (digitsValue ds)) unit)
      else none) = some r := h
  split at h
  · cases h
  · rename_i hne
    obtain ⟨unit, hu, h⟩ := Option.bind_eq_some_iff.1 h
    split at h
    · cases h
      have hd : IsDigits ds := ⟨by simpa using hne, fun c hc => List.mem_takeWhile_imp hc⟩
      have hcs : cs = ds ++ name.toList := by rw [String.toList_ofList, List.takeWhile_append_dropWhile]
      exact ⟨digitsValue ds, unit, ⟨ds, name, hd, TimeUnit.ofName?_eq_some_iff.1 hu, hcs, rfl⟩, rfl⟩
    · cases h

theorem Counts.head_isDigit (h : Counts cs n unit) : ∃ c r, cs = c :: r ∧ c.isDigit = true := by
  obtain ⟨ds, name, ⟨hne, hd⟩, -, rfl, -⟩ := h
  cases ds with
  | nil => exact absurd rfl hne
  | cons c ds => exact ⟨c, ds ++ name.toList, rfl, hd c List.mem_cons_self⟩

theorem ne_now (h : text.toList = c :: cs) (hc : c ≠ 'n') : text ≠ "now" := by
  rintro rfl
  cases h
  exact hc rfl

theorem ofText?_minus (h : text.toList = '-' :: cs) : ofText? text = unsignedOfText? true cs := by
  rw [ofText?, if_neg (ne_now h (by decide)), h]
  rfl

theorem ofText?_plus (h : text.toList = '+' :: cs) : ofText? text = unsignedOfText? false cs := by
  rw [ofText?, if_neg (ne_now h (by decide)), h]
  rfl

/-- Digits come first, so the text is neither `now` nor signed. -/
theorem ofText?_unsigned (h : Counts text.toList n unit) : ofText? text = unsignedOfText? false text.toList := by
  obtain ⟨c, r, ht, hc⟩ := h.head_isDigit
  have hn : c ≠ 'n' := by
    rintro rfl
    cases hc
  rw [ofText?, if_neg (ne_now ht hn), ht]
  split
  · rename_i he
    cases he
    cases hc
  · rename_i he
    cases he
    cases hc
  · rfl

/-- An amount and a unit are read as they stand, unless the amount does not fit. -/
theorem ofText?_of_isOffset (h : IsOffset text amount unit) :
    ofText? text = if fitsAmount amount = true then some (.offset amount unit) else none := by
  cases h with
  | unsigned h =>
    rw [ofText?_unsigned h]
    exact unsignedOfText?_of_counts h
  | plus ht h =>
    rw [ofText?_plus ht]
    exact unsignedOfText?_of_counts h
  | minus ht h =>
    rw [ofText?_minus ht]
    exact unsignedOfText?_of_counts h

/-- Nothing else is read than the word now, and an amount with its unit. -/
theorem isOffset_of_ofText? (h : ofText? text = some r) : text = "now" ∨ ∃ amount unit, IsOffset text amount unit := by
  unfold ofText? at h
  split at h
  · rename_i hnow
    exact .inl hnow
  · split at h
    · rename_i ht
      obtain ⟨n, unit, hc, -⟩ := counts_of_unsignedOfText? h
      exact .inr ⟨_, unit, .minus ht hc⟩
    · rename_i ht
      obtain ⟨n, unit, hc, -⟩ := counts_of_unsignedOfText? h
      exact .inr ⟨_, unit, .plus ht hc⟩
    · obtain ⟨n, unit, hc, -⟩ := counts_of_unsignedOfText? h
      exact .inr ⟨_, unit, .unsigned hc⟩

end Reading

/-! ## Limits -/

theorem fitsAmount_iff {amount : Int} :
    fitsAmount amount = true ↔ -9223372036854775808 ≤ amount ∧ amount < 9223372036854775808 := by
  unfold fitsAmount
  rw [decide_eq_true_iff]
  rfl

section Exact

variable {now t : Instant} {text : String} {amount : Int} {millis : Nat}

/-- Between two instants in range there is no span of time that either of the other limits stops. -/
theorem within_limits (hnow : now.IsRepresentable) (ht : t.IsRepresentable) (hm : 0 < millis)
    (h : t.total = now.total + amount * millis * 1000000) :
    fitsAmount amount = true ∧ (amount * millis).natAbs ≤ maxSpan := by
  obtain ⟨-, h₁, h₂⟩ := hnow
  obtain ⟨-, h₃, h₄⟩ := ht
  rw [Instant.total_first] at h₁ h₃
  rw [Instant.total_last] at h₂ h₄
  -- The range is this many milliseconds long. A unit lasts at least one, so the amount is no greater than the span.
  have hspan : (amount * millis).natAbs ≤ 16544868105599999 := by omega
  have hle : amount.natAbs ≤ (amount * millis).natAbs := by
    rw [Int.natAbs_mul, Int.natAbs_natCast]
    exact Nat.le_mul_of_pos_right _ hm
  have hmax : maxSpan = 9223372036854775807 := rfl
  constructor
  · rw [fitsAmount_iff]
    omega
  · omega

theorem IsOffset.millis_pos (h : IsOffset text amount (.fixed millis)) : 0 < millis := by
  cases h with
  | unsigned h | plus _ h | minus _ h =>
    obtain ⟨ds, name, -, hn, -⟩ := h
    exact hn.millis_pos

/-- An amount of a unit of fixed length means the exact sum, if the sum is in range. -/
theorem resolve?_eq_some_iff (hnow : now.IsRepresentable) (h : IsOffset text amount (.fixed millis)) :
    resolve? text now = some t ↔ t.IsRepresentable ∧ t.total = now.total + amount * millis * 1000000 := by
  have hr : resolve? text now = if fitsAmount amount = true ∧ (amount * millis).natAbs ≤ maxSpan then
      now.addMillis? (amount * millis) else none := by
    rw [resolve?, ofText?_of_isOffset h]
    by_cases hfits : fitsAmount amount = true
    · rw [if_pos hfits, Option.bind_some, at?]
      simp only [hfits, true_and]
    · rw [if_neg hfits, if_neg fun h => hfits h.1, Option.bind_none]
  rw [hr, ← Instant.addMillis?_eq_some_iff]
  constructor
  · intro hs
    split at hs
    · exact hs
    · cases hs
  · -- The sum is in range, so the other limits have stopped nothing on the way to it.
    intro hs
    obtain ⟨ht, he⟩ := Instant.addMillis?_eq_some_iff.1 hs
    rw [if_pos (within_limits hnow ht h.millis_pos he), hs]

end Exact

/-- Relative dates of fixed length are exact. At a representable instant, a sign or none, digits and the name of a unit
mean the instant that lies this amount of the unit later, computed over the whole numbers, if it is between the first and
the last instant, and no instant otherwise. A text that is neither `now` nor an amount with the name of a unit means no
instant at any time. -/
theorem resolve_exact :
    (∀ (now : Instant) (text : String) (amount : Int) (millis : Nat), now.IsRepresentable →
      IsOffset text amount (.fixed millis) →
        let sum := now.total + amount * millis * 1000000
        (Instant.first.total ≤ sum ∧ sum ≤ Instant.last.total →
          ∃ t, resolve? text now = some t ∧ t.IsRepresentable ∧ t.total = sum) ∧
        (¬ (Instant.first.total ≤ sum ∧ sum ≤ Instant.last.total) → resolve? text now = none)) ∧
    ∀ text : String, text ≠ "now" → (∀ amount unit, ¬ IsOffset text amount unit) → ∀ now, resolve? text now = none := by
  constructor
  · intro now text amount millis hnow h sum
    constructor
    · rintro ⟨h₁, h₂⟩
      have ht : (Instant.ofTotal sum).IsRepresentable := Instant.isRepresentable_ofTotal h₁ h₂
      have he : (Instant.ofTotal sum).total = sum := Instant.total_ofTotal sum
      exact ⟨_, (resolve?_eq_some_iff hnow h).2 ⟨ht, he⟩, ht, he⟩
    · intro hout
      rw [Option.eq_none_iff_forall_not_mem]
      intro t ht
      obtain ⟨⟨-, h₁, h₂⟩, he⟩ := (resolve?_eq_some_iff hnow h).1 ht
      rw [he] at h₁ h₂
      exact hout ⟨h₁, h₂⟩
  · intro text hne hno now
    rw [resolve?, Option.bind_eq_none_iff]
    intro r hr
    rcases isOffset_of_ofText? hr with rfl | ⟨amount, unit, h⟩
    · exact absurd rfl hne
    · exact absurd h (hno amount unit)

/-- A week back with zeros in front, an amount of more than 64 bits, and a text that has no amount. -/
theorem resolve_exact_weeks :
    let now : Instant := ⟨1715329800, 500⟩
    now.IsRepresentable ∧ IsOffset "-001weeks" (-1) (.fixed 604800000) ∧
      resolve? "-001weeks" now = some ⟨1714725000, 500⟩ ∧
      IsOffset "99999999999999999999ms" 99999999999999999999 (.fixed 1) ∧
      resolve? "99999999999999999999ms" now = none ∧
      (∀ amount unit, ¬ IsOffset "-now" amount unit) ∧ resolve? "-now" now = none := by
  intro now
  have hnow : now.IsRepresentable := ⟨by decide, by decide +kernel, by decide +kernel⟩
  have hweeks : IsOffset "-001weeks" (-1) (.fixed 604800000) :=
    .minus rfl ⟨['0', '0', '1'], "weeks", by decide, by decide +kernel, rfl, rfl⟩
  have hms : IsOffset "99999999999999999999ms" 99999999999999999999 (.fixed 1) :=
    .unsigned ⟨"99999999999999999999".toList, "ms", by decide, by decide +kernel, by decide, by decide⟩
  have hno : ∀ amount unit, ¬ IsOffset "-now" amount unit := by
    intro amount unit h
    cases h with
    | unsigned h =>
      obtain ⟨c, r, he, hc⟩ := h.head_isDigit
      cases he
      cases hc
    | plus ht h => cases ht
    | minus ht h =>
      cases ht
      obtain ⟨c, r, he, hc⟩ := h.head_isDigit
      cases he
      cases hc
  refine ⟨hnow, hweeks, ?_, hms, ?_, hno, ?_⟩
  · obtain ⟨t, hr, ht, he⟩ := (resolve_exact.1 now _ _ _ hnow hweeks).1 (by decide +kernel)
    rw [hr, ← Instant.ofTotal_total ht.nanos_lt, he]
    decide +kernel
  · exact (resolve_exact.1 now _ _ _ hnow hms).2 (by decide +kernel)
  · exact resolve_exact.2 "-now" (by decide) hno now

end RelativeDate

end CompactSearch

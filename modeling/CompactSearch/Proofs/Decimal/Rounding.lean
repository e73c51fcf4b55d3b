/-
Reading decimals as binary64 numbers. A ratio is rounded on the scale that leaves 53 bits in front of it, and a mantissa that
rounds up to one bit more moves to the next scale; both ways it is rounded to nearest (`roundsTo_ofRatio?`). So is a decimal,
also where the number of its digits alone says that it is beyond the greatest magnitude or next to nothing
(`roundsTo_ofDecimal?`).
-/
import CompactSearch.Proofs.Decimal.Nearest
import Mathlib.Tactic.NormNum

namespace CompactSearch

namespace Magnitude

open Binary64 (RoundsTo ofMagnitude?)

variable {q : ℚ}

/-- The bound in units, as half a step below what 53 bits cannot hold on the greatest scale. -/
theorem overflowBound_mul : overflowBound * 2 ^ 1074 = (2 ^ 53 - 1 / 2) * 2 ^ 2045 := by
  have hpower : (2 : ℚ) ^ 1024 * 2 ^ 1074 = 2 ^ 53 * 2 ^ 2045 := by rw [← pow_add, ← pow_add]
  have hstep : (2 : ℚ) ^ 970 * 2 ^ 1074 = 1 / 2 * 2 ^ 2045 := by
    rw [← pow_add, pow_succ' (2 : ℚ) 2044, ← mul_assoc, one_div, inv_mul_cancel₀ two_ne_zero, one_mul]
  rw [overflowBound, sub_mul, sub_mul, hpower, hstep]

theorem lt_overflowBound_iff : q < overflowBound ↔ q * 2 ^ 1074 < (2 ^ 53 - 1 / 2) * 2 ^ 2045 := by
  rw [← overflowBound_mul, mul_lt_mul_iff_of_pos_right (two_pow_pos_rat 1074)]

/-! ### Ratios -/

/-- `q` rounded to `m` steps of the scale `s`, which leaves 53 bits in front of `q`, unless it is the least scale. -/
structure RoundsOn (q : ℚ) (s m : ℕ) : Prop where
  whole : IsNearestWhole (q * 2 ^ 1074 / 2 ^ s) m
  lt : q * 2 ^ 1074 < 2 ^ (53 + s)
  le : s = 0 ∨ (2 : ℚ) ^ (52 + s) ≤ q * 2 ^ 1074

namespace RoundsOn

variable {m s : ℕ} {x : Magnitude}

theorem le_two_pow (h : RoundsOn q s m) : m ≤ 2 ^ 53 := by
  refine h.whole.le_of_lt ?_
  rw [div_lt_iff₀ (two_pow_pos_rat s), Nat.cast_pow, Nat.cast_ofNat, ← pow_add]
  exact h.lt

theorem canonical (h : RoundsOn q s m) : s = 0 ∨ 2 ^ 52 ≤ m := by
  refine h.le.imp_right fun hle => h.whole.le_of_le ?_
  rw [le_div_iff₀ (two_pow_pos_rat s), Nat.cast_pow, Nat.cast_ofNat, ← pow_add]
  exact hle

/-- Fewer steps than 53 bits can count are more than half a step below that many. -/
theorem lt_iff (h : RoundsOn q s m) : m < 2 ^ 53 ↔ q * 2 ^ 1074 < (2 ^ 53 - 1 / 2) * 2 ^ s := by
  rw [h.whole.lt_iff (by decide), div_lt_iff₀ (two_pow_pos_rat s), Nat.cast_pow, Nat.cast_ofNat]

theorem two_pow_le_of_le {a b : ℕ} (h : a ≤ b) : (2 ^ 53 - 1 / 2 : ℚ) * 2 ^ a ≤ (2 ^ 53 - 1 / 2) * 2 ^ b :=
  mul_le_mul_of_nonneg_left (pow_le_pow_right₀ one_le_two h) (by norm_num)

/-- Steps that fit 53 bits are the mantissa. -/
theorem fits (h : RoundsOn q s m) (hm : x.mantissa = m) (hs : x.scale = s) : RoundsTo q (.finite false x) := by
  subst hm hs
  refine .finite ?_ (isNearest_of_scale h.whole x.units_eq id h.le)
  rw [lt_overflowBound_iff]
  exact (h.lt_iff.1 x.mantissa_lt).trans_le (two_pow_le_of_le x.scale_le)

/-- Steps that do not fit make half as many of the next scale. -/
theorem carries (h : RoundsOn q s (2 ^ 53)) (hm : x.mantissa = 2 ^ 52) (hs : x.scale = s + 1) :
    RoundsTo q (.finite false x) := by
  have hunits : x.units = 2 ^ 53 * 2 ^ s := by rw [units_eq, hm, hs, ← Nat.pow_add, ← Nat.pow_add]; congr 1; omega
  refine .finite ?_ (isNearest_of_scale h.whole hunits (fun _ => by rw [hm]; decide) h.le)
  rw [lt_overflowBound_iff]
  have hscale : s + 1 ≤ 2045 := hs ▸ x.scale_le
  calc q * 2 ^ 1074 < 2 ^ (53 + s) := h.lt
    _ = 2 ^ 52 * 2 ^ (s + 1) := by rw [← pow_add]; congr 1; omega
    _ ≤ (2 ^ 53 - 1 / 2) * 2 ^ (s + 1) := mul_le_mul_of_nonneg_right (by norm_num) (two_pow_pos_rat _).le
    _ ≤ (2 ^ 53 - 1 / 2) * 2 ^ 2045 := two_pow_le_of_le hscale

/-- Beyond the greatest scale, also by rounding up, there is no magnitude. -/
theorem overflows (h : RoundsOn q s m) (hs : 2045 ≤ s) (hm : s = 2045 → m = 2 ^ 53) : overflowBound ≤ q := by
  rw [← not_lt, lt_overflowBound_iff, not_lt]
  rcases hs.eq_or_lt with rfl | hs
  · rw [← not_lt, ← h.lt_iff, hm rfl]
    exact lt_irrefl _
  · have hle := h.le.resolve_left (by omega)
    calc (2 ^ 53 - 1 / 2) * 2 ^ 2045 ≤ (2 : ℚ) ^ 53 * 2 ^ 2045 :=
          mul_le_mul_of_nonneg_right (by norm_num) (two_pow_pos_rat _).le
      _ = 2 ^ (53 + 2045) := (pow_add 2 53 2045).symm
      _ ≤ 2 ^ (52 + s) := pow_le_pow_right₀ one_le_two (by omega)
      _ ≤ q * 2 ^ 1074 := hle

end RoundsOn

theorem two_pow_52_lt_two_pow_53 : Nat.pow 2 52 < Nat.pow 2 53 := by decide

/-- The magnitude of `m` steps of the scale `s`, or of half as many of the next one. -/
def ofSteps? (m s : ℕ) : Option Magnitude :=
  if h : m < Nat.pow 2 53 ∧ s ≤ 2045 ∧ (s = 0 ∨ Nat.pow 2 52 ≤ m) then some ⟨m, s, h.1, h.2.1, h.2.2⟩
  else if h : s + 1 ≤ 2045 then some ⟨Nat.pow 2 52, s + 1, two_pow_52_lt_two_pow_53, h, .inr (Nat.le_refl _)⟩
  else none

theorem RoundsOn.ofSteps? {m s : ℕ} (h : RoundsOn q s m) : RoundsTo q (.ofMagnitude? false (ofSteps? m s)) := by
  have hcarry : ¬ (m < Nat.pow 2 53 ∧ s ≤ 2045 ∧ (s = 0 ∨ Nat.pow 2 52 ≤ m)) → s ≤ 2045 → m = 2 ^ 53 := by
    intro hfits hs
    exact le_antisymm h.le_two_pow (Nat.le_of_not_lt fun hm => hfits ⟨hm, hs, h.canonical⟩)
  unfold Magnitude.ofSteps?
  split
  · exact h.fits rfl rfl
  · rename_i hfits
    split
    · rename_i hs
      have hm := hcarry hfits (by omega)
      subst hm
      exact h.carries rfl rfl
    · rename_i hs
      exact .infinite (h.overflows (by omega) fun heq => hcarry hfits heq.le)

/-- The scale of a ratio leaves 53 bits in front of it, unless it is the least one. -/
theorem scale_bounds (n : ℕ) {d : ℕ} (hd : 0 < d) :
    (n : ℚ) / d < 2 ^ (53 + (Nat.log2 (n / d) - 52)) ∧
      (Nat.log2 (n / d) - 52 = 0 ∨ (2 : ℚ) ^ (52 + (Nat.log2 (n / d) - 52)) ≤ (n : ℚ) / d) := by
  have hdq : (0 : ℚ) < d := by exact_mod_cast hd
  constructor
  · have h : n < 2 ^ (53 + (Nat.log2 (n / d) - 52)) * d := by
      rw [← Nat.div_lt_iff_lt_mul hd]
      exact Nat.lt_log2_self.trans_le (Nat.pow_le_pow_right two_pos (by omega))
    rw [div_lt_iff₀ hdq]
    exact_mod_cast h
  · by_cases hs : Nat.log2 (n / d) - 52 = 0
    · exact .inl hs
    · have hne : n / d ≠ 0 := by
        intro h
        rw [h] at hs
        exact hs rfl
      have h : 2 ^ (52 + (Nat.log2 (n / d) - 52)) * d ≤ n := by
        rw [← Nat.le_div_iff_mul_le hd, Nat.add_sub_cancel' (by omega)]
        exact Nat.log2_self_le hne
      refine .inr ?_
      rw [le_div_iff₀ hdq]
      exact_mod_cast h

theorem roundsOn_of_units {n d : ℕ} (hd : 0 < d) (hq : q * 2 ^ 1074 = (n : ℚ) / d) :
    RoundsOn q (Nat.log2 (n / d) - 52) (roundHalfEven n (d * Nat.pow 2 (Nat.log2 (n / d) - 52))) := by
  obtain ⟨hlt, hle⟩ := scale_bounds n hd
  generalize Nat.log2 (n / d) - 52 = s at hlt hle ⊢
  have hwhole := isNearestWhole_roundHalfEven n (Nat.mul_pos hd (Nat.two_pow_pos s))
  rw [Nat.cast_mul, Nat.cast_pow, Nat.cast_ofNat, ← div_div] at hwhole
  rw [← hq] at hlt hle hwhole
  exact ⟨hwhole, hlt, hle⟩

theorem div_mul_two_pow {k e : ℕ} (hk : k = Nat.pow 2 e) (n d : ℕ) :
    (n : ℚ) / d * 2 ^ e = ((n * k : ℕ) : ℚ) / d := by
  rw [hk, Nat.pow_eq, Nat.cast_mul, Nat.cast_pow, Nat.cast_ofNat, div_mul_eq_mul_div]

/-- The number of units in one stays closed, because it has a thousand bits. -/
theorem ofRatio?_eq (n d : ℕ) : ∃ k, k = Nat.pow 2 1074 ∧
    ofRatio? n d = ofSteps? (roundHalfEven (n * k) (d * Nat.pow 2 (Nat.log2 (n * k / d) - 52)))
      (Nat.log2 (n * k / d) - 52) := ⟨_, rfl, rfl⟩

theorem roundsTo_ofRatio? (n : ℕ) {d : ℕ} (hd : 0 < d) :
    RoundsTo ((n : ℚ) / d) (.ofMagnitude? false (ofRatio? n d)) := by
  obtain ⟨k, hk, heq⟩ := ofRatio?_eq n d
  rw [heq]
  exact (roundsOn_of_units hd (div_mul_two_pow hk n d)).ofSteps?

/-! ### Decimals -/

/-- What is less than half a unit is nearest to zero. -/
theorem isNearest_zero (h₀ : 0 ≤ q) (h : q * 2 ^ 1074 < 1 / 2) : zero.IsNearest q := by
  refine isNearest_of_scale (m := 0) (s := 0) ?_ rfl id (.inl rfl)
  have habs : |((0 : ℕ) : ℚ) - q * 2 ^ 1074 / 2 ^ 0| = q * 2 ^ 1074 := by
    rw [pow_zero, div_one, Nat.cast_zero, zero_sub, abs_neg, abs_of_nonneg (mul_nonneg h₀ (two_pow_pos_rat _).le)]
  refine ⟨by rw [habs]; exact h.le, fun _ => rfl⟩

/-- A number less than `10 ^ -330` is less than half a unit. -/
theorem mul_lt_half {e : ℤ} (he : e < -330) (h : q < 10 ^ e) : q * 2 ^ 1074 < 1 / 2 := by
  have hbound : (2 : ℚ) ^ 1075 ≤ 10 ^ 331 := by
    have : 2 ^ 1075 ≤ 10 ^ 331 := by decide +kernel
    exact_mod_cast this
  have hle : (10 : ℚ) ^ e ≤ (10 ^ 331)⁻¹ := by
    rw [← zpow_natCast, ← zpow_neg]
    exact zpow_le_zpow_right₀ (by norm_num) (by push_cast; omega)
  calc q * 2 ^ 1074 < (10 ^ 331)⁻¹ * 2 ^ 1074 := mul_lt_mul_of_pos_right (h.trans_le hle) (two_pow_pos_rat 1074)
    _ ≤ (2 ^ 1075)⁻¹ * 2 ^ 1074 :=
      mul_le_mul_of_nonneg_right (inv_anti₀ (two_pow_pos_rat 1075) hbound) (two_pow_pos_rat 1074).le
    _ = 1 / 2 := by rw [pow_succ, mul_inv, mul_right_comm, inv_mul_cancel₀ (two_pow_pos_rat 1074).ne', one_mul, one_div]

/-- A number from `10 ^ 320` on is beyond the greatest magnitude. -/
theorem overflowBound_le {e : ℤ} (he : 320 ≤ e) (h : 10 ^ e ≤ q) : overflowBound ≤ q := by
  have hbound : (2 : ℚ) ^ 1024 ≤ 10 ^ 320 := by
    have : 2 ^ 1024 ≤ 10 ^ 320 := by decide +kernel
    exact_mod_cast this
  have hle : (10 : ℚ) ^ 320 ≤ 10 ^ e := by
    rw [← zpow_natCast]
    exact zpow_le_zpow_right₀ (by norm_num) (by exact_mod_cast he)
  calc overflowBound ≤ 2 ^ 1024 := sub_le_self _ (two_pow_pos_rat 970).le
    _ ≤ 10 ^ 320 := hbound
    _ ≤ 10 ^ e := hle
    _ ≤ q := h

/-- As many digits as a number has hold it, and one less does not. -/
theorem toDigits_bounds {c : ℕ} (hc : c ≠ 0) :
    (10 : ℚ) ^ (((Nat.toDigits 10 c).length : ℤ) - 1) ≤ c ∧ (c : ℚ) < 10 ^ ((Nat.toDigits 10 c).length : ℤ) := by
  obtain ⟨places, hplaces⟩ := Nat.exists_eq_add_one.2 (List.length_pos_iff.2 (Nat.toDigits_ne_nil (n := c) (b := 10)))
  rw [hplaces]
  constructor
  · have hle : 10 ^ places ≤ c := by
      by_contra hlt
      rcases Nat.eq_zero_or_pos places with rfl | hpos
      · exact hc (Nat.lt_one_iff.1 (Nat.lt_of_not_le hlt))
      · have := (Nat.length_toDigits_le_iff (b := 10) (by decide) hpos).2 (Nat.lt_of_not_le hlt)
        omega
    rw [Nat.cast_add, Nat.cast_one, add_sub_cancel_right, zpow_natCast]
    exact_mod_cast hle
  · have hlt := (Nat.length_toDigits_le_iff (b := 10) (by decide) (Nat.succ_pos places)).1 hplaces.le
    rw [zpow_natCast]
    exact_mod_cast hlt

theorem ten_zpow (e : ℤ) : (10 : ℚ) ^ e = (10 ^ e.toNat : ℕ) / (10 ^ (-e).toNat : ℕ) := by
  rcases e.le_total 0 with he | he
  · obtain ⟨k, rfl⟩ := Int.exists_eq_neg_ofNat he
    simp
  · obtain ⟨k, rfl⟩ := Int.eq_ofNat_of_zero_le he
    simp

theorem roundsTo_zero (h₀ : 0 ≤ q) (h : q * 2 ^ 1074 < 1 / 2) : RoundsTo q (.finite false zero) := by
  refine .finite (lt_overflowBound_iff.2 (h.trans_le ?_)) (isNearest_zero h₀ h)
  calc (1 / 2 : ℚ) ≤ 2 ^ 53 - 1 / 2 := by norm_num
    _ ≤ (2 ^ 53 - 1 / 2) * 2 ^ 2045 := le_mul_of_one_le_right (by norm_num) (one_le_pow₀ one_le_two)

/-- A decimal is rounded to nearest, also where the number of its digits is all that is looked at. -/
theorem roundsTo_ofDecimal? (c : ℕ) (e : ℤ) : RoundsTo ((c : ℚ) * 10 ^ e) (.ofMagnitude? false (ofDecimal? c e)) := by
  have hten : (0 : ℚ) < 10 ^ e := zpow_pos (by norm_num) e
  unfold ofDecimal?
  simp only
  split
  · rename_i h
    by_cases hc : c = 0
    · subst hc
      exact roundsTo_zero (by simp) (by simp)
    · refine roundsTo_zero (by positivity) (mul_lt_half (h.resolve_left hc) ?_)
      rw [zpow_add₀ (by norm_num), mul_comm (c : ℚ)]
      exact mul_lt_mul_of_pos_left (toDigits_bounds hc).2 hten
  · rename_i h
    rw [not_or] at h
    split
    · refine .infinite (overflowBound_le (e := e + ((Nat.toDigits 10 c).length - 1)) (by omega) ?_)
      rw [zpow_add₀ (by norm_num), mul_comm (c : ℚ)]
      exact mul_le_mul_of_nonneg_left (toDigits_bounds h.1).1 hten.le
    · have hq := roundsTo_ofRatio? (c * Nat.pow 10 e.toNat) (Nat.pow_pos (n := (-e).toNat) (show 0 < 10 by decide))
      rw [ten_zpow, ← mul_div_assoc, ← Nat.cast_mul]
      exact hq

end Magnitude

end CompactSearch

/-
What rounding to binary64 numbers is, without saying how it is done. `Binary64.RoundsTo` holds of a rational and a number if
no magnitude is nearer and of two equally near ones it is the one with the even mantissa; from half way between the greatest
magnitude and the next power of two on it is infinite. There is one such number only (`RoundsTo.unique`). It is found on one
scale: where 53 bits are left in front of what is rounded, the nearest multiple of the unit is the nearest magnitude of all
(`isNearest_of_scale`).
-/
import CompactSearch.Decimal.Binary64
import Mathlib.Algebra.Order.Field.Power
import Mathlib.Data.Rat.Cast.Order
import Mathlib.Tactic.Linarith
import Mathlib.Tactic.Positivity

namespace CompactSearch

/-! ## Nearest whole numbers -/

/-- `m` is the whole number nearest to `r`, and even if it is half a step away. -/
structure IsNearestWhole (r : ℚ) (m : ℕ) : Prop where
  le_half : |(m : ℚ) - r| ≤ 1 / 2
  even_of_half : |(m : ℚ) - r| = 1 / 2 → m % 2 = 0

namespace IsNearestWhole

variable {r : ℚ} {m k : ℕ}

/-- Another whole number is at least half a step away. -/
theorem half_le (h : IsNearestWhole r m) (hk : k ≠ m) : 1 / 2 ≤ |(k : ℚ) - r| := by
  have hstep : (1 : ℚ) ≤ |(k : ℚ) - m| := by
    have : (1 : ℤ) ≤ |(k : ℤ) - m| := Int.one_le_abs (by omega)
    exact_mod_cast this
  have htriangle : |(k : ℚ) - m| ≤ |(k : ℚ) - r| + |(m : ℚ) - r| := by
    rw [abs_sub_comm (m : ℚ) r]
    exact abs_sub_le (k : ℚ) r m
  linarith [h.le_half]

theorem nearest (h : IsNearestWhole r m) (k : ℕ) : |(m : ℚ) - r| ≤ |(k : ℚ) - r| := by
  by_cases hk : k = m
  · rw [hk]
  · exact h.le_half.trans (h.half_le hk)

theorem even_of_tie (h : IsNearestWhole r m) (hk : k ≠ m) (htie : |(k : ℚ) - r| = |(m : ℚ) - r|) : m % 2 = 0 :=
  h.even_of_half (le_antisymm h.le_half (htie ▸ h.half_le hk))

theorem le_of_le (h : IsNearestWhole r m) (hk : (k : ℚ) ≤ r) : k ≤ m := by
  by_contra hlt
  have hstep : (m : ℚ) + 1 ≤ k := by exact_mod_cast Nat.lt_of_not_le hlt
  have := (abs_le.1 h.le_half).1
  linarith

theorem le_of_lt (h : IsNearestWhole r m) (hk : r < k) : m ≤ k := by
  by_contra hlt
  have hstep : (k : ℚ) + 1 ≤ m := by exact_mod_cast Nat.lt_of_not_le hlt
  have := (abs_le.1 h.le_half).2
  linarith

/-- What is rounded to less than an even number is more than half a step below it. -/
theorem lt_iff (h : IsNearestWhole r m) (hk : k % 2 = 0) : m < k ↔ r < k - 1 / 2 := by
  obtain ⟨hlow, hhigh⟩ := abs_le.1 h.le_half
  constructor
  · intro hlt
    have hstep : (m : ℚ) + 1 ≤ k := by exact_mod_cast hlt
    refine lt_of_le_of_ne (by linarith) ?_
    -- half a step below, the odd number in front would have been left
    rintro rfl
    have hkm : (k : ℚ) ≤ (m + 1 : ℕ) := by
      push_cast
      linarith
    have hkm' : k = m + 1 := le_antisymm (by exact_mod_cast hkm) hlt
    have heven := h.even_of_half (by rw [hkm']; push_cast; rw [abs_of_nonpos] <;> linarith)
    omega
  · intro hlt
    by_contra hle
    have hstep : (k : ℚ) ≤ m := by exact_mod_cast Nat.le_of_not_lt hle
    linarith

end IsNearestWhole

theorem div_eq_quotient_add (n : ℕ) {d : ℕ} (hd : 0 < d) : (n : ℚ) / d = (n / d : ℕ) + ((n % d : ℕ) : ℚ) / d := by
  have hne : (d : ℚ) ≠ 0 := by exact_mod_cast hd.ne'
  rw [div_eq_iff hne, add_mul, div_mul_cancel₀ _ hne, mul_comm]
  exact_mod_cast (Nat.div_add_mod n d).symm

/-- A quotient is rounded to the nearest whole number. -/
theorem isNearestWhole_roundHalfEven (n : ℕ) {d : ℕ} (hd : 0 < d) :
    IsNearestWhole ((n : ℚ) / d) (roundHalfEven n d) := by
  have hdq : (0 : ℚ) < d := by exact_mod_cast hd
  have hlt : 2 * (n % d) < d ↔ ((n % d : ℕ) : ℚ) / d < 1 / 2 := by
    rw [div_lt_div_iff₀ hdq two_pos, one_mul, mul_comm]
    exact_mod_cast Iff.rfl
  have heq : 2 * (n % d) = d ↔ ((n % d : ℕ) : ℚ) / d = 1 / 2 := by
    rw [div_eq_div_iff (ne_of_gt hdq) two_ne_zero, one_mul, mul_comm]
    exact_mod_cast Iff.rfl
  have hpos : 0 ≤ ((n % d : ℕ) : ℚ) / d := by positivity
  have hone : ((n % d : ℕ) : ℚ) / d < 1 := by
    rw [div_lt_one hdq]
    exact_mod_cast Nat.mod_lt n hd
  rw [div_eq_quotient_add n hd, roundHalfEven]
  simp only [hlt, heq]
  generalize ((n % d : ℕ) : ℚ) / d = f at hpos hone
  generalize n / d = q
  split
  · -- down: the fraction is at most a half, and only an even quotient has exactly a half
    rename_i h
    have habs : |(q : ℚ) - (q + f)| = f := by rw [sub_add_cancel_left, abs_neg, abs_of_nonneg hpos]
    constructor
    · rw [habs]
      rcases h with h | h
      · exact h.le
      · exact h.1.le
    · rw [habs]
      intro hhalf
      rcases h with h | h
      · exact absurd hhalf h.ne
      · exact h.2
  · -- up: the fraction is at least a half, and only an odd quotient has exactly a half
    rename_i h
    rw [not_or, not_lt, not_and] at h
    have habs : |((q + 1 : ℕ) : ℚ) - (q + f)| = 1 - f := by
      rw [Nat.cast_add, Nat.cast_one, add_sub_add_left_eq_sub, abs_of_nonneg (by linarith)]
    constructor
    · rw [habs]
      linarith [h.1]
    · rw [habs]
      intro hhalf
      have := h.2 (by linarith)
      omega

/-! ## Nearest magnitudes -/

namespace Magnitude

variable {x y z : Magnitude} {q : ℚ} {m s : ℕ}

/-- The exact value. -/
def toRat (x : Magnitude) : ℚ := x.units / 2 ^ 1074

/-- No magnitude is nearer to `q`, and of two equally near ones it is the one with the even mantissa. -/
structure IsNearest (x : Magnitude) (q : ℚ) : Prop where
  nearest (y : Magnitude) : |x.toRat - q| ≤ |y.toRat - q|
  even_of_tie (y : Magnitude) : y ≠ x → |y.toRat - q| = |x.toRat - q| → x.mantissa % 2 = 0

/-! ### Units -/

theorem units_eq (x : Magnitude) : x.units = x.mantissa * 2 ^ x.scale := rfl

theorem units_lt (x : Magnitude) : x.units < 2 ^ (53 + x.scale) := by
  rw [units_eq, Nat.pow_add]
  exact Nat.mul_lt_mul_of_pos_right x.mantissa_lt (Nat.two_pow_pos _)

theorem le_units (h : x.scale ≠ 0) : 2 ^ (52 + x.scale) ≤ x.units := by
  rw [units_eq, Nat.pow_add]
  exact Nat.mul_le_mul_right _ (x.canonical.resolve_left h)

theorem units_lt_of_scale_lt (h : x.scale < y.scale) : x.units < y.units :=
  calc x.units < 2 ^ (53 + x.scale) := x.units_lt
    _ ≤ 2 ^ (52 + y.scale) := Nat.pow_le_pow_right two_pos (by omega)
    _ ≤ y.units := le_units (by omega)

/-- Equal magnitudes have one form. -/
theorem units_injective : Function.Injective units := by
  intro x y h
  have hscale : x.scale = y.scale := by
    rcases lt_trichotomy x.scale y.scale with hlt | heq | hlt
    · exact absurd h (units_lt_of_scale_lt hlt).ne
    · exact heq
    · exact absurd h (units_lt_of_scale_lt hlt).ne'
  have hmantissa : x.mantissa = y.mantissa := by
    rw [units_eq, units_eq, hscale] at h
    exact Nat.eq_of_mul_eq_mul_right (Nat.two_pow_pos _) h
  cases x
  cases y
  simp_all

/-- A magnitude is a multiple of `2 ^ s` units, or it has less than 53 bits in front of them. -/
theorem multiple_or_lt (y : Magnitude) (s : ℕ) : (∃ k, y.units = k * 2 ^ s) ∨ y.units < 2 ^ (52 + s) := by
  by_cases h : s ≤ y.scale
  · refine .inl ⟨y.mantissa * 2 ^ (y.scale - s), ?_⟩
    rw [units_eq, Nat.mul_assoc, ← Nat.pow_add, Nat.sub_add_cancel h]
  · exact .inr (y.units_lt.trans_le (Nat.pow_le_pow_right two_pos (by omega)))

/-! ### Distances -/

theorem two_pow_pos_rat (n : ℕ) : (0 : ℚ) < 2 ^ n := by positivity

theorem abs_mul_of_pos {u : ℚ} (hu : 0 < u) (a : ℚ) : |a| * u = |a * u| := by rw [abs_mul, abs_of_pos hu]

/-- The distance of a multiple of `2 ^ s` units. -/
theorem abs_units_sub {k : ℕ} (h : x.units = k * 2 ^ s) (r : ℚ) : |(x.units : ℚ) - r| = |(k : ℚ) - r / 2 ^ s| * 2 ^ s := by
  have hu := two_pow_pos_rat s
  rw [abs_mul_of_pos hu, sub_mul, div_mul_cancel₀ _ hu.ne', h, Nat.cast_mul, Nat.cast_pow, Nat.cast_ofNat]

/-- The distance from a rational, in units. -/
theorem abs_toRat_sub (x : Magnitude) (q : ℚ) : |x.toRat - q| * 2 ^ 1074 = |(x.units : ℚ) - q * 2 ^ 1074| := by
  have hu := two_pow_pos_rat 1074
  rw [abs_mul_of_pos hu, sub_mul, toRat, div_mul_cancel₀ _ hu.ne']

theorem isNearest_iff : x.IsNearest q ↔
    (∀ y : Magnitude, |(x.units : ℚ) - q * 2 ^ 1074| ≤ |(y.units : ℚ) - q * 2 ^ 1074|) ∧
      ∀ y : Magnitude, y ≠ x → |(y.units : ℚ) - q * 2 ^ 1074| = |(x.units : ℚ) - q * 2 ^ 1074| →
        x.mantissa % 2 = 0 := by
  have h := two_pow_pos_rat 1074
  have hle : ∀ y : Magnitude, |(x.units : ℚ) - q * 2 ^ 1074| ≤ |(y.units : ℚ) - q * 2 ^ 1074| ↔
      |x.toRat - q| ≤ |y.toRat - q| := by
    intro y
    rw [← abs_toRat_sub, ← abs_toRat_sub, mul_le_mul_iff_of_pos_right h]
  have heq : ∀ y : Magnitude, |(y.units : ℚ) - q * 2 ^ 1074| = |(x.units : ℚ) - q * 2 ^ 1074| ↔
      |y.toRat - q| = |x.toRat - q| := by
    intro y
    rw [← abs_toRat_sub, ← abs_toRat_sub, mul_left_inj' (ne_of_gt h)]
  simp only [hle, heq]
  exact ⟨fun h => ⟨h.nearest, h.even_of_tie⟩, fun h => ⟨h.1, h.2⟩⟩

section Scale

variable {r : ℚ}

/-- What is less than the range of a scale is farther away than the nearest multiple of its unit. -/
theorem abs_sub_lt_of_below (hm : IsNearestWhole (r / 2 ^ s) m) (hx : x.units = m * 2 ^ s) (hr : (2 : ℚ) ^ (52 + s) ≤ r)
    (hy : y.units < 2 ^ (52 + s)) : |(x.units : ℚ) - r| < |(y.units : ℚ) - r| := by
  have hu := two_pow_pos_rat s
  have hylt : (y.units : ℚ) < 2 ^ (52 + s) := by exact_mod_cast hy
  have hleast : |(x.units : ℚ) - r| ≤ r - 2 ^ (52 + s) := by
    have h := mul_le_mul_of_nonneg_right (hm.nearest (2 ^ 52)) hu.le
    rwa [← abs_units_sub hx, abs_mul_of_pos hu, sub_mul, div_mul_cancel₀ _ hu.ne', Nat.cast_pow, Nat.cast_ofNat,
      ← pow_add, abs_of_nonpos (sub_nonpos.2 hr), neg_sub] at h
  calc |(x.units : ℚ) - r| ≤ r - 2 ^ (52 + s) := hleast
    _ < r - y.units := sub_lt_sub_left hylt r
    _ = |(y.units : ℚ) - r| := by rw [abs_of_neg (sub_neg.2 (hylt.trans_le hr)), neg_sub]

/-- Only multiples of the unit can be as near as the nearest of them, if the scale is the least one or leaves 53 bits. -/
theorem multiple_or_farther (hm : IsNearestWhole (r / 2 ^ s) m) (hx : x.units = m * 2 ^ s)
    (hs : s = 0 ∨ (2 : ℚ) ^ (52 + s) ≤ r) (y : Magnitude) :
    (∃ k, y.units = k * 2 ^ s) ∨ |(x.units : ℚ) - r| < |(y.units : ℚ) - r| := by
  rcases y.multiple_or_lt s with h | h
  · exact .inl h
  · rcases hs with rfl | hr
    · exact .inl ⟨y.units, (Nat.mul_one _).symm⟩
    · exact .inr (abs_sub_lt_of_below hm hx hr h)

/-- The nearest multiple of the unit is the nearest magnitude. -/
theorem isNearest_of_scale (hm : IsNearestWhole (q * 2 ^ 1074 / 2 ^ s) m) (hx : x.units = m * 2 ^ s)
    (heven : m % 2 = 0 → x.mantissa % 2 = 0) (hs : s = 0 ∨ (2 : ℚ) ^ (52 + s) ≤ q * 2 ^ 1074) : x.IsNearest q := by
  have hu := two_pow_pos_rat s
  rw [isNearest_iff]
  constructor
  · intro y
    rcases multiple_or_farther hm hx hs y with ⟨k, hy⟩ | hlt
    · rw [abs_units_sub hx, abs_units_sub hy]
      exact mul_le_mul_of_nonneg_right (hm.nearest k) hu.le
    · exact hlt.le
  · intro y hne htie
    rcases multiple_or_farther hm hx hs y with ⟨k, hy⟩ | hlt
    · have hkm : k ≠ m := by
        rintro rfl
        exact hne (units_injective (hy.trans hx.symm))
      rw [abs_units_sub hx, abs_units_sub hy, mul_left_inj' hu.ne'] at htie
      exact heven (hm.even_of_tie hkm htie)
    · exact absurd htie hlt.ne'

end Scale

/-! ### Ties -/

/-- The next magnitude after one with an even mantissa has an odd one. -/
theorem exists_next (x : Magnitude) (h : x.mantissa % 2 = 0) :
    ∃ y : Magnitude, y.units = x.units + 2 ^ x.scale ∧ y.mantissa % 2 = 1 := by
  have hlt := x.mantissa_lt
  have hmax : Nat.pow 2 53 = 9007199254740992 := by decide
  have hcanonical : x.scale = 0 ∨ Nat.pow 2 52 ≤ x.mantissa + 1 := x.canonical.imp_right (·.trans (Nat.le_succ _))
  exact ⟨⟨x.mantissa + 1, x.scale, by omega, x.scale_le, hcanonical⟩, Nat.succ_mul _ _,
    Nat.succ_mod_two_eq_one_iff.2 h⟩

/-- Between a magnitude and a greater one there is at least its unit. -/
theorem add_le_units (h : x.units < y.units) : x.units + 2 ^ x.scale ≤ y.units := by
  rcases y.multiple_or_lt x.scale with ⟨k, hk⟩ | hlt
  · rw [units_eq, hk] at h
    rw [units_eq, hk, ← Nat.succ_mul]
    exact Nat.mul_le_mul_right _ (Nat.lt_of_mul_lt_mul_right h)
  · by_cases hx : x.scale = 0
    · rw [hx]
      exact h
    · exact absurd (h.trans hlt) (le_units hx).not_gt

/-- Strictly between two equally near numbers there are only nearer ones. -/
theorem abs_sub_lt_of_between {a b c r : ℚ} (hab : a < b) (hbc : b < c) (h : |c - r| = |a - r|) :
    |b - r| < |a - r| := by
  have hr : r = (a + c) / 2 := by
    rcases abs_eq_abs.1 h with h | h <;> linarith
  rw [abs_of_neg (a := a - r) (by linarith), abs_lt]
  constructor <;> linarith

/-- Of two nearest magnitudes the lower one is next to the higher one, and only one of them has an even mantissa. -/
theorem IsNearest.not_lt (hx : x.IsNearest q) (hy : y.IsNearest q) : ¬ x.units < y.units := by
  intro hlt
  have hne : y ≠ x := by
    rintro rfl
    exact lt_irrefl _ hlt
  have htie : |y.toRat - q| = |x.toRat - q| := le_antisymm (hy.nearest x) (hx.nearest y)
  have hxeven := hx.even_of_tie y hne htie
  have hyeven := hy.even_of_tie x hne.symm htie.symm
  obtain ⟨z, hz, hodd⟩ := x.exists_next hxeven
  have hxz : x.units < z.units := by
    rw [hz]
    exact Nat.lt_add_of_pos_right (Nat.two_pow_pos _)
  rcases (hz.trans_le (add_le_units hlt)).eq_or_lt with heq | hzy
  · rw [units_injective heq] at hodd
    omega
  · have hunits : |(y.units : ℚ) - q * 2 ^ 1074| = |(x.units : ℚ) - q * 2 ^ 1074| := by
      rw [← abs_toRat_sub, ← abs_toRat_sub, htie]
    have hnear := (isNearest_iff.1 hx).1 z
    have hnearer := abs_sub_lt_of_between (Nat.cast_lt (α := ℚ).2 hxz) (Nat.cast_lt.2 hzy) hunits
    exact hnear.not_gt hnearer

/-- There is at most one nearest magnitude. -/
theorem IsNearest.unique (hx : x.IsNearest q) (hy : y.IsNearest q) : x = y :=
  units_injective (Nat.le_antisymm (Nat.le_of_not_lt (hy.not_lt hx)) (Nat.le_of_not_lt (hx.not_lt hy)))

end Magnitude

/-! ## Rounding -/

/-- Half way between the greatest magnitude and the next power of two. -/
def overflowBound : ℚ := 2 ^ 1024 - 2 ^ 970

/-- The binary64 number nearest to a number that is not negative. -/
inductive Binary64.RoundsTo (q : ℚ) : Binary64 → Prop
  | finite {x : Magnitude} (hq : q < overflowBound) (h : x.IsNearest q) : RoundsTo q (.finite false x)
  | infinite (hq : overflowBound ≤ q) : RoundsTo q (.infinite false)

/-- Rounding has one result. -/
theorem Binary64.RoundsTo.unique {q : ℚ} {a b : Binary64} (ha : RoundsTo q a) (hb : RoundsTo q b) : a = b := by
  cases ha with
  | finite hq hx =>
    cases hb with
    | finite hq' hy => rw [hx.unique hy]
    | infinite hq' => exact absurd hq hq'.not_gt
  | infinite hq =>
    cases hb with
    | finite hq' hy => exact absurd hq' hq.not_gt
    | infinite hq' => rfl

end CompactSearch

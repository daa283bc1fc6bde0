import CapsuleCompiler.Decimal.Shortest
import Mathlib.Algebra.Order.Field.Power
import Mathlib.Algebra.Order.Field.Rat
import Mathlib.Data.Rat.Cast.Order
import Mathlib.Tactic.FieldSimp
import Mathlib.Tactic.Linarith
import Mathlib.Tactic.NormNum
import Mathlib.Tactic.Positivity
import Mathlib.Tactic.Ring

/-!
# Proofs.Decimal.Interval — the numbers that round to a magnitude

A magnitude of the binary64 format stands for an interval of rationals around its value, whose ends belong to it when
its mantissa is even (`RoundsTo`).  `covers` decides this for ratios.  Intervals of different magnitudes have no
rational in common (`eq_of_roundsTo`): at the end that two neighbours share, one of the mantissas is odd.
-/

namespace CapsuleCompiler.Decimal.Binary64

variable {x y : Binary64} {q : ℚ}

def value (x : Binary64) : ℚ := x.mantissa * 2 ^ x.exponent

/-- The distance of two mantissas next to each other. -/
def unit (x : Binary64) : ℚ := 2 ^ x.exponent

/-- Half the way to the magnitude below. -/
def gapBelow (x : Binary64) : ℚ :=
  if x.mantissa = 2 ^ 52 ∧ leastExponent < x.exponent then x.unit / 4 else x.unit / 2

/-- A rational that is nearest to `x` among all magnitudes, or that a tie gives to `x`. -/
structure RoundsTo (q : ℚ) (x : Binary64) : Prop where
  lower : x.value - x.gapBelow ≤ q
  upper : q ≤ x.value + x.unit / 2
  inside : x.mantissa % 2 = 1 → x.value - x.gapBelow < q ∧ q < x.value + x.unit / 2

theorem unit_pos (x : Binary64) : 0 < x.unit := zpow_pos (by norm_num) _

theorem value_eq (x : Binary64) : x.value = x.mantissa * x.unit := rfl

theorem gapBelow_le (x : Binary64) : x.gapBelow ≤ x.unit / 2 := by
  have := x.unit_pos
  rw [gapBelow]
  split <;> linarith

theorem gapBelow_pos (x : Binary64) : 0 < x.gapBelow := by
  have := x.unit_pos
  rw [gapBelow]
  split <;> linarith

/-! ### Ratios -/

theorem den_pos (x : Binary64) : 0 < x.den := Nat.pow_pos (by norm_num)

theorem zpow_eq_div (e : ℤ) : (2 : ℚ) ^ e = 2 ^ e.toNat / 2 ^ (-e).toNat := by
  rw [← zpow_natCast, ← zpow_natCast, ← zpow_sub₀ (by norm_num)]
  congr 1
  omega

theorem unit_mul_den (x : Binary64) : x.unit * x.den = 2 ^ x.exponent.toNat := by
  have hpos : (2 : ℚ) ^ (-x.exponent).toNat ≠ 0 := by positivity
  have hden : (x.den : ℚ) = 2 ^ (-x.exponent).toNat := by
    rw [den]
    exact Nat.cast_pow 2 _
  rw [unit, zpow_eq_div, hden, div_mul_cancel₀ _ hpos]

theorem value_mul_den (x : Binary64) : x.value * x.den = x.num := by
  have hnum : (x.num : ℚ) = x.mantissa * 2 ^ x.exponent.toNat := by
    rw [num, Nat.cast_mul]
    exact congrArg _ (Nat.cast_pow 2 _)
  rw [value_eq, mul_assoc, unit_mul_den, hnum]

theorem value_eq_div (x : Binary64) : x.value = x.num / x.den := by
  rw [← value_mul_den, mul_div_cancel_right₀ _ (by exact_mod_cast x.den_pos.ne')]

/-- The gap below in the units in which `covers` compares with a ratio over `d`. -/
def gapUnits (x : Binary64) (d : Nat) : Nat :=
  if x.mantissa = Nat.pow 2 52 ∧ leastExponent < x.exponent then d * Nat.pow 2 x.exponent.toNat
  else 2 * (d * Nat.pow 2 x.exponent.toNat)

theorem covers_eq (n d : Nat) :
    x.covers n d =
      if x.mantissa % 2 = 0 then
        decide (4 * x.num * d ≤ 4 * n * x.den + x.gapUnits d) &&
          decide (4 * n * x.den ≤ 4 * x.num * d + 2 * (d * Nat.pow 2 x.exponent.toNat))
      else
        decide (4 * x.num * d < 4 * n * x.den + x.gapUnits d) &&
          decide (4 * n * x.den < 4 * x.num * d + 2 * (d * Nat.pow 2 x.exponent.toNat)) := rfl

theorem cast_gapUnits (x : Binary64) (d : Nat) : (x.gapUnits d : ℚ) = x.gapBelow * (4 * x.den * d) := by
  have hunit : ((d * Nat.pow 2 x.exponent.toNat : Nat) : ℚ) = d * (x.unit * x.den) := by
    rw [unit_mul_den, Nat.cast_mul]
    exact congrArg _ (Nat.cast_pow 2 _)
  have hpow : Nat.pow 2 52 = 2 ^ 52 := rfl
  rw [gapUnits, gapBelow, hpow]
  split
  · rw [hunit]
    ring
  · rw [Nat.cast_mul, hunit, Nat.cast_ofNat]
    ring

section Ends

variable {n d : Nat}

/-- The factor by which `covers` clears the denominators. -/
theorem scale_pos (x : Binary64) (hd : 0 < d) : (0 : ℚ) < 4 * x.den * d := by
  have := x.den_pos
  positivity

theorem ratio_scaled (x : Binary64) (hd : 0 < d) : (n / d : ℚ) * (4 * x.den * d) = (4 * n * x.den : Nat) := by
  have : (d : ℚ) ≠ 0 := by positivity
  push_cast
  field_simp

theorem value_scaled (x : Binary64) : x.value * (4 * x.den * d) = (4 * x.num * d : Nat) := by
  push_cast
  rw [← value_mul_den]
  ring

theorem above_scaled (x : Binary64) :
    x.unit / 2 * (4 * x.den * d) = (2 * (d * Nat.pow 2 x.exponent.toNat) : Nat) := by
  have hpow : ((Nat.pow 2 x.exponent.toNat : Nat) : ℚ) = x.unit * x.den := by
    rw [unit_mul_den]
    exact Nat.cast_pow 2 _
  rw [Nat.cast_mul, Nat.cast_mul, hpow, Nat.cast_ofNat]
  ring

theorem lower_le_iff (hd : 0 < d) :
    x.value - x.gapBelow ≤ (n / d : ℚ) ↔ 4 * x.num * d ≤ 4 * n * x.den + x.gapUnits d := by
  rw [← mul_le_mul_iff_left₀ (x.scale_pos hd), sub_mul, value_scaled, ← cast_gapUnits, ratio_scaled x hd,
    sub_le_iff_le_add]
  norm_cast

theorem lower_lt_iff (hd : 0 < d) :
    x.value - x.gapBelow < (n / d : ℚ) ↔ 4 * x.num * d < 4 * n * x.den + x.gapUnits d := by
  rw [← mul_lt_mul_iff_left₀ (x.scale_pos hd), sub_mul, value_scaled, ← cast_gapUnits, ratio_scaled x hd,
    sub_lt_iff_lt_add]
  norm_cast

theorem le_upper_iff (hd : 0 < d) :
    (n / d : ℚ) ≤ x.value + x.unit / 2 ↔
      4 * n * x.den ≤ 4 * x.num * d + 2 * (d * Nat.pow 2 x.exponent.toNat) := by
  rw [← mul_le_mul_iff_left₀ (x.scale_pos hd), add_mul, value_scaled, above_scaled, ratio_scaled x hd]
  norm_cast

theorem lt_upper_iff (hd : 0 < d) :
    (n / d : ℚ) < x.value + x.unit / 2 ↔
      4 * n * x.den < 4 * x.num * d + 2 * (d * Nat.pow 2 x.exponent.toNat) := by
  rw [← mul_lt_mul_iff_left₀ (x.scale_pos hd), add_mul, value_scaled, above_scaled, ratio_scaled x hd]
  norm_cast

/-- `covers` decides the interval. -/
theorem covers_iff (hd : 0 < d) : x.covers n d ↔ RoundsTo (n / d : ℚ) x := by
  rw [covers_eq]
  split
  · next heven =>
    simp only [Bool.and_eq_true, decide_eq_true_eq, ← lower_le_iff hd, ← le_upper_iff hd]
    exact ⟨fun h => ⟨h.1, h.2, fun hodd => by omega⟩, fun h => ⟨h.lower, h.upper⟩⟩
  · next hodd =>
    simp only [Bool.and_eq_true, decide_eq_true_eq, ← lower_lt_iff hd, ← lt_upper_iff hd]
    exact ⟨fun h => ⟨h.1.le, h.2.le, fun _ => h⟩, fun h => h.inside (by omega)⟩

end Ends

/-! ### Different magnitudes -/

theorem mantissa_add_one_le (x : Binary64) : (x.mantissa : ℚ) + 1 ≤ 2 ^ 53 := by
  exact_mod_cast x.mantissa_lt

/-- Above the least exponent the mantissa is long. -/
theorem le_mantissa (h : leastExponent < y.exponent) : 2 ^ 52 ≤ y.mantissa := y.normal.resolve_right (by omega)

theorem two_mul_unit_le (h : x.exponent < y.exponent) : 2 * x.unit ≤ y.unit := by
  rw [unit, unit, ← zpow_one_add₀ (by norm_num)]
  exact zpow_le_zpow_right₀ (by norm_num) (by omega)

theorem value_lt_of_exponent_lt (h : x.exponent < y.exponent) :
    x.value < y.value := by
  have hm : (2 : ℚ) ^ 52 ≤ y.mantissa := by
    exact_mod_cast le_mantissa (lt_of_le_of_lt x.leastExponent_le h)
  have hu := x.unit_pos
  have hw := two_mul_unit_le h
  calc x.value < 2 ^ 53 * x.unit :=
        mul_lt_mul_of_pos_right (by linarith [x.mantissa_add_one_le]) hu
    _ = 2 ^ 52 * (2 * x.unit) := by ring
    _ ≤ 2 ^ 52 * y.unit := by gcongr
    _ ≤ y.value := by
      rw [value_eq]
      gcongr
      exact y.unit_pos.le

theorem exponent_le_of_value_le (h : x.value ≤ y.value) :
    x.exponent ≤ y.exponent :=
  not_lt.1 fun hlt => absurd (value_lt_of_exponent_lt hlt) (not_lt.2 h)

theorem eq_of_value_eq (h : x.value = y.value) : x = y := by
  have he : x.exponent = y.exponent :=
    le_antisymm (exponent_le_of_value_le h.le) (exponent_le_of_value_le h.ge)
  have hunit : x.unit = y.unit := by rw [unit, unit, he]
  have hm : (x.mantissa : ℚ) = y.mantissa := by
    rw [value_eq, value_eq, hunit] at h
    exact mul_right_cancel₀ y.unit_pos.ne' h
  cases x
  cases y
  simp_all

/-- The upper end of a magnitude is at most the lower end of a greater one; where both are the same point, the
two are neighbours and one of them has an odd mantissa. -/
theorem ends_separated (h : x.value < y.value) :
    x.value + x.unit / 2 < y.value - y.gapBelow ∨
      x.value + x.unit / 2 = y.value - y.gapBelow ∧ (x.mantissa % 2 = 1 ∨ y.mantissa % 2 = 1) := by
  have hu := x.unit_pos
  rcases (exponent_le_of_value_le h.le).eq_or_lt with he | he
  · -- The same exponent: at best the mantissas follow each other.
    have hunit : x.unit = y.unit := by rw [unit, unit, he]
    have hgap := y.gapBelow_le
    rw [value_eq, value_eq, ← hunit] at h
    rw [← hunit] at hgap
    rw [value_eq, value_eq, ← hunit]
    have hlt : (x.mantissa : ℚ) < y.mantissa := lt_of_mul_lt_mul_right h hu.le
    have hm : x.mantissa + 1 ≤ y.mantissa := by exact_mod_cast hlt
    rcases hm.eq_or_lt with hm | hm
    · have hval : (y.mantissa : ℚ) * x.unit = x.mantissa * x.unit + x.unit := by
        rw [← hm]
        push_cast
        ring
      rcases lt_or_eq_of_le hgap with hgap | hgap
      · left
        linarith
      · right
        exact ⟨by linarith, by omega⟩
    · left
      have hm' : (x.mantissa : ℚ) + 2 ≤ y.mantissa := by exact_mod_cast hm
      have := mul_le_mul_of_nonneg_right hm' hu.le
      linarith
  · -- A greater exponent: at best the longest mantissa is followed by a power of two.
    have hleast := lt_of_le_of_lt x.leastExponent_le he
    have hw := two_mul_unit_le he
    have hxm := mul_le_mul_of_nonneg_right x.mantissa_add_one_le hu.le
    rw [value_eq, value_eq]
    rcases (le_mantissa hleast).eq_or_lt with hm | hm
    · have hgap : y.gapBelow = y.unit / 4 := if_pos ⟨hm.symm, hleast⟩
      rw [hgap, ← hm]
      push_cast
      rcases Nat.lt_or_ge (x.mantissa + 1) (2 ^ 53) with hlong | hlong
      · left
        have hxm' : (x.mantissa : ℚ) + 2 ≤ 2 ^ 53 := by exact_mod_cast hlong
        have := mul_le_mul_of_nonneg_right hxm' hu.le
        linarith
      · have hodd : x.mantissa % 2 = 1 := by
          have hlt : x.mantissa < 2 ^ 53 := x.mantissa_lt
          omega
        have hxm' : (x.mantissa : ℚ) * x.unit ≤ (2 ^ 53 - 1) * x.unit := by linarith
        rcases lt_or_eq_of_le (show x.mantissa * x.unit + x.unit / 2 ≤ 2 ^ 52 * y.unit - y.unit / 4 by
          linarith) with hlt | heq
        · exact .inl hlt
        · exact .inr ⟨heq, .inl hodd⟩
    · left
      have hgap := y.gapBelow_le
      have hm' : (2 : ℚ) ^ 52 + 1 ≤ y.mantissa := by exact_mod_cast hm
      have := mul_le_mul_of_nonneg_right hm' y.unit_pos.le
      linarith

theorem not_roundsTo_of_value_lt (h : x.value < y.value)
    (hqx : RoundsTo q x) : ¬ RoundsTo q y := by
  intro hqy
  rcases ends_separated h with hlt | ⟨heq, hodd | hodd⟩
  · exact absurd (hqy.lower.trans hqx.upper) (not_le.2 hlt)
  · exact absurd (hqx.inside hodd).2 (not_lt.2 (heq ▸ hqy.lower))
  · exact absurd (hqy.inside hodd).1 (not_lt.2 (heq ▸ hqx.upper))

/-- A rational rounds to one magnitude. -/
theorem eq_of_roundsTo (hqx : RoundsTo q x) (hqy : RoundsTo q y) : x = y := by
  rcases lt_trichotomy x.value y.value with h | h | h
  · exact absurd hqy (not_roundsTo_of_value_lt h hqx)
  · exact eq_of_value_eq h
  · exact absurd hqx (not_roundsTo_of_value_lt h hqy)

end CapsuleCompiler.Decimal.Binary64

import CapsuleCompiler.Proofs.Decimal.Interval

/-!
# Proofs.Decimal.Shortest — the shortest decimal belongs to its magnitude

Whatever grid `shortest` stops at, its decimal rounds to the magnitude (`roundsTo_shortest`), and it stops at one:
with seventeen digits the grid is finer than the interval (`onGrid?_seventeen`).  So the shortest decimal tells
magnitudes apart (`eq_of_shortest_value_eq`).
-/

namespace CapsuleCompiler.Decimal

/-! ### Values of decimals -/

namespace Scientific

def value (s : Scientific) : ℚ := s.digits * 10 ^ s.exponent

theorem value_dropZeros : ∀ (fuel d : Nat) (k : ℤ), (dropZeros fuel d k).value = value ⟨d, k⟩
  | 0, _, _ => rfl
  | fuel + 1, d, k => by
    rw [dropZeros]
    split
    · next h =>
      have hd : (d : ℚ) = (d / 10 : Nat) * 10 := by exact_mod_cast (Nat.div_mul_cancel (Nat.dvd_of_mod_eq_zero h)).symm
      rw [value_dropZeros fuel, value, value, hd, zpow_add₀ (by norm_num), zpow_one]
      ring
    · rfl

@[simp] theorem value_trimmed (s : Scientific) : s.trimmed.value = s.value := by
  rw [trimmed]
  split
  · next h => simp [value, h]
  · exact value_dropZeros _ _ _

theorem zpow_eq_div (k : ℤ) : (10 : ℚ) ^ k = (power k).1 / (power k).2 := by
  have h1 : ((power k).1 : ℚ) = 10 ^ k.toNat := Nat.cast_pow 10 _
  have h2 : ((power k).2 : ℚ) = 10 ^ (-k).toNat := Nat.cast_pow 10 _
  rw [h1, h2, ← zpow_natCast, ← zpow_natCast, ← zpow_sub₀ (by norm_num)]
  congr 1
  omega

theorem power_pos (k : ℤ) : 0 < (power k).1 ∧ 0 < (power k).2 :=
  ⟨Nat.pow_pos (by norm_num), Nat.pow_pos (by norm_num)⟩

end Scientific

/-! ### Decimal exponents -/

theorem digitCount_pos (n : Nat) : 0 < digitCount n := Nat.length_toDigits_pos

theorem lt_pow_digitCount (n : Nat) : n < 10 ^ digitCount n :=
  (Nat.length_toDigits_le_iff (by norm_num) (digitCount_pos n)).1 le_rfl

theorem pow_digitCount_le {n : Nat} (h : 0 < n) : 10 ^ (digitCount n - 1) ≤ n := by
  by_contra hlt
  rcases Nat.eq_zero_or_pos (digitCount n - 1) with h0 | hpos
  · simp only [h0, pow_zero] at hlt
    omega
  · have hle := (Nat.length_toDigits_le_iff (by norm_num) hpos).2 (not_le.1 hlt)
    have : digitCount n ≤ digitCount n - 1 := hle
    have := digitCount_pos n
    omega

/-- The decimal exponent of a ratio is not too large. -/
theorem zpow_decimalExponent_le {num den : Nat} (hn : 0 < num) (hd : 0 < den) :
    (10 : ℚ) ^ decimalExponent num den ≤ num / den := by
  have hdq : (0 : ℚ) < den := by exact_mod_cast hd
  rw [decimalExponent, le_div_iff₀ hdq]
  split
  · next hle =>
    have hq := pow_digitCount_le (Nat.div_pos hle hd)
    have hexp : (digitCount (num / den) : ℤ) - 1 = (digitCount (num / den) - 1 : Nat) := by
      have := digitCount_pos (num / den)
      omega
    rw [hexp, zpow_natCast]
    exact_mod_cast (Nat.mul_le_mul_right den hq).trans (Nat.div_mul_le_self num den)
  · have hpos := digitCount_pos (den / num)
    dsimp only
    split
    · next hle =>
      have hexp : (1 : ℤ) - digitCount (den / num) = -(digitCount (den / num) - 1 : Nat) := by omega
      rw [hexp, zpow_neg, zpow_natCast, inv_mul_le_iff₀ (by positivity), mul_comm]
      exact_mod_cast hle
    · have hlt : den < num * 10 ^ digitCount (den / num) := by
        have := Nat.lt_mul_div_succ den hn
        exact this.trans_le (Nat.mul_le_mul_left num (lt_pow_digitCount _))
      rw [zpow_neg, zpow_natCast, inv_mul_le_iff₀ (by positivity), mul_comm]
      exact_mod_cast hlt.le

/-! ### Grids -/

/-- A quotient is rounded to one of its two neighbours. -/
theorem roundDiv_eq_or (num den : Nat) : roundDiv num den = num / den ∨ roundDiv num den = num / den + 1 := by
  simp only [roundDiv]
  split
  · exact .inl rfl
  · split
    · exact .inr rfl
    · rcases Nat.mod_two_eq_zero_or_one (num / den) with h | h <;> simp [h]

namespace Binary64

variable {x y : Binary64} {count : Nat}

/-- The exponent of the grid on which `x` has `count` digits. -/
def gridExponent (x : Binary64) (count : Nat) : ℤ := decimalExponent x.num x.den + 1 - count

/-- The point of that grid at `x` or next below. -/
def low (x : Binary64) (count : Nat) : Nat :=
  x.num * (Scientific.power (x.gridExponent count)).2 / (x.den * (Scientific.power (x.gridExponent count)).1)

/-- Whether a point of that grid rounds to `x`. -/
def hit (x : Binary64) (count d : Nat) : Bool :=
  x.covers (d * (Scientific.power (x.gridExponent count)).1) (Scientific.power (x.gridExponent count)).2

theorem onGrid?_eq (x : Binary64) (count : Nat) :
    x.onGrid? count =
      match x.hit count (x.low count), x.hit count (x.low count + 1) with
      | true, true =>
        some ⟨roundDiv (x.num * (Scientific.power (x.gridExponent count)).2)
          (x.den * (Scientific.power (x.gridExponent count)).1), x.gridExponent count⟩
      | true, false => some ⟨x.low count, x.gridExponent count⟩
      | false, true => some ⟨x.low count + 1, x.gridExponent count⟩
      | false, false => none := rfl

theorem hit_iff {d : Nat} : x.hit count d ↔ RoundsTo (d * 10 ^ x.gridExponent count : ℚ) x := by
  rw [hit, covers_iff (Scientific.power_pos _).2, Scientific.zpow_eq_div, Nat.cast_mul, mul_div_assoc]

theorem roundsTo_of_onGrid? {s : Scientific} (h : x.onGrid? count = some s) : RoundsTo s.value x := by
  rw [onGrid?_eq] at h
  split at h <;> cases h
  · next hlow hhigh =>
    rcases roundDiv_eq_or (x.num * (Scientific.power (x.gridExponent count)).2)
      (x.den * (Scientific.power (x.gridExponent count)).1) with hr | hr <;> rw [hr]
    · exact hit_iff.1 hlow
    · exact hit_iff.1 hhigh
  · next hlow _ => exact hit_iff.1 hlow
  · next _ hhigh => exact hit_iff.1 hhigh

/-- A magnitude lies between the two points of the grid that are tried. -/
theorem low_le_lt (x : Binary64) (count : Nat) : x.low count * 10 ^ x.gridExponent count ≤ x.value ∧
    x.value < (x.low count + 1) * (10 : ℚ) ^ x.gridExponent count := by
  obtain ⟨hp, hq⟩ := Scientific.power_pos (x.gridExponent count)
  rw [Scientific.zpow_eq_div, low]
  set p := (Scientific.power (x.gridExponent count)).1
  set q := (Scientific.power (x.gridExponent count)).2
  have hqq : (0 : ℚ) < q := by exact_mod_cast hq
  have hdq : (0 : ℚ) < x.den := by exact_mod_cast x.den_pos
  rw [value_eq_div, mul_div_assoc', mul_div_assoc', div_le_div_iff₀ hqq hdq, div_lt_div_iff₀ hdq hqq, mul_assoc,
    mul_assoc, mul_comm (p : ℚ)]
  constructor
  · exact_mod_cast Nat.div_mul_le_self (x.num * q) (x.den * p)
  · rw [mul_comm (_ + 1)]
    exact_mod_cast Nat.lt_mul_div_succ (x.num * q) (Nat.mul_pos x.den_pos hp)

/-- Seventeen digits make a grid that is finer than the interval of a magnitude. -/
theorem spacing_lt (h0 : x.mantissa ≠ 0) :
    (10 : ℚ) ^ x.gridExponent 17 < x.gapBelow + x.unit / 2 := by
  have hu := x.unit_pos
  have hnum : 0 < x.num := Nat.mul_pos (Nat.pos_of_ne_zero h0) (Nat.pow_pos (by norm_num))
  have hexp : x.gridExponent 17 = decimalExponent x.num x.den + (-16) := by
    rw [gridExponent]
    omega
  have hspacing : (10 : ℚ) ^ x.gridExponent 17 ≤ x.value * 10 ^ (-16 : ℤ) := by
    rw [hexp, zpow_add₀ (by norm_num), value_eq_div]
    gcongr
    exact zpow_decimalExponent_le hnum x.den_pos
  refine hspacing.trans_lt ?_
  rw [value_eq, gapBelow]
  split
  · next hm =>
    rw [hm.1]
    norm_num
    linarith
  · have hm := mul_le_mul_of_nonneg_right x.mantissa_add_one_le hu.le
    norm_num
    linarith

theorem onGrid?_seventeen (h0 : x.mantissa ≠ 0) : (x.onGrid? 17).isSome := by
  obtain ⟨hlow, hhigh⟩ := x.low_le_lt 17
  have hspacing := spacing_lt h0
  have hu := x.unit_pos
  have hgap := x.gapBelow_pos
  -- The two points are nearer to each other than the ends of the interval, so one of them is inside.
  have hhit : x.hit 17 (x.low 17) = true ∨ x.hit 17 (x.low 17 + 1) = true := by
    rw [hit_iff, hit_iff]
    rcases lt_or_ge (x.value - x.gapBelow) (x.low 17 * 10 ^ x.gridExponent 17) with h | h
    · exact .inl ⟨h.le, by linarith, fun _ => ⟨h, by linarith⟩⟩
    · right
      push_cast
      have : (x.low 17 + 1) * (10 : ℚ) ^ x.gridExponent 17 < x.value + x.unit / 2 := by
        rw [add_mul, one_mul]
        linarith
      exact ⟨by linarith, this.le, fun _ => ⟨by linarith, this⟩⟩
  rw [onGrid?_eq]
  rcases hhit with h | h <;> rw [h] <;> split <;> simp_all

theorem roundsTo_firstGrid : ∀ {counts : List Nat}, (∃ count ∈ counts, (x.onGrid? count).isSome) →
    RoundsTo (x.firstGrid counts).value x
  | [], h => by simp at h
  | count :: counts, h => by
    rw [firstGrid]
    split
    · next hs =>
      rw [Scientific.value_trimmed]
      exact roundsTo_of_onGrid? hs
    · next hs => exact roundsTo_firstGrid (by simpa [hs] using h)

/-- **The shortest decimal of a magnitude reads back as it.** -/
theorem roundsTo_shortest (x : Binary64) : RoundsTo x.shortest.value x := by
  rw [shortest, isZero]
  split
  · next h0 =>
    have hm : x.mantissa = 0 := by simpa using h0
    have hu := x.unit_pos
    have hgap := x.gapBelow_pos
    have hvalue : x.value = 0 := by simp [value, hm]
    have hzero : Scientific.value ⟨0, 0⟩ = 0 := by simp [Scientific.value]
    exact ⟨by linarith, by linarith, fun hodd => by omega⟩
  · next h0 => exact roundsTo_firstGrid ⟨17, by simp, onGrid?_seventeen (by simpa using h0)⟩

theorem eq_of_shortest_value_eq (h : x.shortest.value = y.shortest.value) : x = y :=
  eq_of_roundsTo (roundsTo_shortest x) (h ▸ roundsTo_shortest y)

end Binary64

end CapsuleCompiler.Decimal

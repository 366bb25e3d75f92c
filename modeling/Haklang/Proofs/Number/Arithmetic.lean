import Haklang.Proofs.Number.Rounded
import Mathlib.Data.Rat.Floor

/-!
# Arithmetic on the numbers that decimals stand for

Sums, differences, products and powers of decimals are exact: the number that the result stands for
is the sum, difference, product or power of the numbers that the operands stand for, whatever their
scales (`toRat_add`, `toRat_sub`, `toRat_mul`, `toRat_pow`), and the order of decimals is that of
these numbers (`compare_eq`). The shortcuts of the definitions, for zero and for a recognized one,
concern the representation only. What is left of a decimal without its places is the whole part of
its number, for both signs (`units_towardZero`).

Two decimals are compared and added at a common scale (`toRat_eq_mul`). A power is computed by
repeated squaring; what the loop keeps is the product of the result so far and the power that is
still to be multiplied to it (`toRat_mulPow`).
-/

namespace Haklang

namespace Decimal

variable {a b d : Decimal}

@[simp] theorem toRat_ofInt (n : Int) : (ofInt n).toRat = n := by simp [ofInt, toRat_mk]

/-- A decimal is zero exactly if its digits are, whatever its scale. -/
theorem toRat_eq_zero_iff : d.toRat = 0 ↔ d.isZero = true := by
  rw [toRat, mul_eq_zero, or_iff_left (unit_pos d.scale).ne', isZero_iff, Int.cast_eq_zero]

/-- The number in units of a scale that is not below its own. -/
theorem toRat_eq_mul {s : Int} (h : d.scale ≤ s) :
    d.toRat = ((d.digits * 10 ^ (s - d.scale).toNat : Int) : ℚ) * (10 : ℚ) ^ (-s) := by
  obtain ⟨j, hj⟩ := Int.eq_ofNat_of_zero_le (sub_nonneg.2 h)
  rw [toRat, hj, Int.toNat_natCast, show -d.scale = j + -s by omega, zpow_add₀ (by norm_num),
    zpow_natCast]
  push_cast
  ring

/-! ### Sums and differences -/

@[simp] theorem toRat_neg (d : Decimal) : d.neg.toRat = -d.toRat := by simp [neg, toRat]

/-- Addition is exact. -/
@[simp] theorem toRat_add (a b : Decimal) : (a.add b).toRat = a.toRat + b.toRat := by
  rw [add]
  split
  case isTrue h =>
    rw [shift_eq, toRat_mk, toRat_eq_mul h, toRat, ← add_mul]
    push_cast
    rfl
  case isFalse h =>
    rw [shift_eq, toRat_mk, toRat_eq_mul (Int.le_of_not_le h), toRat, ← add_mul]
    push_cast
    rfl

/-- So is subtraction. -/
@[simp] theorem toRat_sub (a b : Decimal) : (a.sub b).toRat = a.toRat - b.toRat := by
  rw [sub]
  split
  case isTrue h => rw [toRat_eq_zero_iff.2 h, sub_zero]
  case isFalse =>
    split
    case isTrue h => rw [toRat_eq_zero_iff.2 h, zero_sub, toRat_neg]
    case isFalse => rw [toRat_add, toRat_neg, sub_eq_add_neg]

/-! ### Products and powers -/

/-- What is recognized as one is one. -/
theorem toRat_of_isOne (h : d.isOne = true) : d.toRat = 1 := by
  obtain ⟨hscale, hdigits⟩ := digits_of_isOne h
  obtain ⟨j, hj⟩ := Int.eq_ofNat_of_zero_le hscale
  rw [toRat, hdigits, hj, Int.toNat_natCast, zpow_neg, zpow_natCast]
  push_cast
  exact mul_inv_cancel₀ (by positivity)

/-- So is multiplication. -/
@[simp] theorem toRat_mul (a b : Decimal) : (a.mul b).toRat = a.toRat * b.toRat := by
  rw [mul]
  split
  case isTrue h => rw [toRat_of_isOne h, one_mul]
  case isFalse =>
    split
    case isTrue h => rw [toRat_of_isOne h, mul_one]
    case isFalse =>
      rw [toRat_mk, toRat, toRat, neg_add, zpow_add₀ (by norm_num)]
      push_cast
      ring

/-- A power splits at the last bit of its exponent. -/
theorem pow_eq_mul_pow_div_two (q : ℚ) (n : Nat) :
    q ^ n = (if n % 2 = 1 then q else 1) * (q * q) ^ (n / 2) := by
  obtain ⟨k, rfl | rfl⟩ := n.even_or_odd'
  · rw [if_neg (by omega), one_mul, Nat.mul_div_cancel_left k (by decide), ← pow_two, ← pow_mul]
  · rw [if_pos (by omega), show (2 * k + 1) / 2 = k by omega, ← pow_two, ← pow_mul, pow_succ']

/-- The product of the result so far and the power that is left to multiply stays the same. -/
theorem toRat_mulPow (r d : Decimal) (n : Nat) :
    (mulPow r d n).toRat = r.toRat * d.toRat ^ n := by
  induction n using Nat.strongRecOn generalizing r d with
  | ind n ih =>
    rcases eq_or_ne n 0 with rfl | hn
    · simp
    · have hfactor : (if n % 2 = 1 then d.mul r else r).toRat =
          r.toRat * if n % 2 = 1 then d.toRat else 1 := by
        split
        · rw [toRat_mul, mul_comm]
        · rw [mul_one]
      rw [mulPow_of_ne_zero hn, ih (n / 2) (Nat.div_lt_self (Nat.pos_of_ne_zero hn) (by decide)),
        hfactor, toRat_mul, mul_assoc, ← pow_eq_mul_pow_div_two]

/-- A power to a natural exponent is exact. -/
@[simp] theorem toRat_pow (d : Decimal) (n : Nat) : (d.pow n).toRat = d.toRat ^ n := by
  rw [pow, toRat_mulPow, toRat_ofInt, Int.cast_one, one_mul]

/-- Powers of whole numbers are whole numbers without places. -/
theorem pow_ofInt (m : Int) (n : Nat) : (ofInt m).pow n = ofInt (m ^ n) := by
  have hmul (k l : Int) : (ofInt k).mul (ofInt l) = ofInt (k * l) := by
    have hone (j : Int) : (ofInt j).isOne = true ↔ j = 1 := by simp [isOne, ofInt, onePlaces]
    rw [mul]
    split
    case isTrue h => rw [(hone k).1 h, one_mul]
    case isFalse =>
      split
      case isTrue h => rw [(hone l).1 h, mul_one]
      case isFalse => rfl
  have hloop (n : Nat) (k l : Int) : ∃ j, mulPow (ofInt k) (ofInt l) n = ofInt j := by
    induction n using Nat.strongRecOn generalizing k l with
    | ind n ih =>
      rcases eq_or_ne n 0 with rfl | hn
      · exact ⟨k, mulPow_zero _ _⟩
      · have hlt : n / 2 < n := Nat.div_lt_self (Nat.pos_of_ne_zero hn) (by decide)
        rw [mulPow_of_ne_zero hn, hmul, hmul, ← apply_ite ofInt]
        exact ih (n / 2) hlt _ _
  obtain ⟨j, hj⟩ := hloop n 1 m
  have hvalue : ((m ^ n : Int) : ℚ) = j := by
    rw [← toRat_ofInt j, ← hj, toRat_mulPow, toRat_ofInt, toRat_ofInt]
    push_cast
    exact (one_mul _).symm
  rw [pow, hj, Int.cast_inj.1 hvalue]

/-! ### Order -/

/-- Decimals are in the order of their numbers. -/
theorem compare_eq (a b : Decimal) : a.compare b = cmp a.toRat b.toRat := by
  have hdigits (m n : Int) (s : Int) :
      cmp ((m : ℚ) * (10 : ℚ) ^ (-s)) ((n : ℚ) * (10 : ℚ) ^ (-s)) = Ord.compare m n := by
    rw [cmp_mul_pos_right (unit_pos s), Int.cast_strictMono.cmp_map_eq, cmp_eq_compare]
  rw [compare]
  by_cases h : a.scale ≤ b.scale
  · rw [if_pos h, compareShifted_eq, ← hdigits _ _ b.scale, toRat_eq_mul h, cmp_swap, toRat]
  · rw [if_neg h, compareShifted_eq, ← hdigits _ _ a.scale, toRat_eq_mul (Int.le_of_not_le h),
      toRat]

/-- Decimals compare as equal exactly if they are the same number. -/
theorem compare_eq_eq_iff : a.compare b = .eq ↔ a.toRat = b.toRat := by
  rw [compare_eq, cmp_eq_eq_iff]

/-! ### Whole parts -/

/-- A quotient that is rounded toward zero is the whole part of the fraction. -/
theorem divide_towardZero (n : Int) (m : Nat) :
    Rounding.towardZero.divide n m = if 0 ≤ n then ⌊(n : ℚ) / m⌋ else ⌈(n : ℚ) / m⌉ := by
  have hquotient (k : Nat) : Rounding.towardZero.quotient k m = k / m := rfl
  obtain ⟨k, rfl | rfl⟩ := n.eq_nat_or_neg
  · rw [if_pos (Int.natCast_nonneg k), Rat.floor_intCast_div_natCast, Rounding.divide, hquotient,
      Int.natAbs_natCast, Int.natCast_ediv]
    rcases k.eq_zero_or_pos with rfl | hk
    · simp
    · rw [Int.sign_eq_one_of_pos (by omega), one_mul]
  · rcases k.eq_zero_or_pos with rfl | hk
    · simp [Rounding.divide]
    · rw [if_neg (by omega), Int.cast_neg, neg_div, Int.ceil_neg, Rat.floor_intCast_div_natCast,
        Rounding.divide, hquotient, Int.natAbs_neg, Int.natAbs_natCast, Int.natCast_ediv,
        Int.sign_eq_neg_one_of_neg (by omega), neg_one_mul]

/-- Without its places, a decimal is the whole part of its number. -/
theorem units_towardZero (d : Decimal) :
    d.units .towardZero 0 = if 0 ≤ d.toRat then ⌊d.toRat⌋ else ⌈d.toRat⌉ := by
  rcases le_or_gt d.scale 0 with hle | hgt
  · have hwhole : d.toRat = (d.units .towardZero 0 : ℤ) := by
      rw [toRat_eq_mul hle, units_of_le hle, neg_zero, zpow_zero, mul_one]
    rw [hwhole, Int.floor_intCast, Int.ceil_intCast, ite_self]
  · obtain ⟨j, hj⟩ := Int.eq_ofNat_of_zero_le hgt.le
    have hsign : 0 ≤ d.toRat ↔ 0 ≤ d.digits := by
      rw [toRat, mul_nonneg_iff_of_pos_right (unit_pos d.scale), Int.cast_nonneg_iff]
    have hfraction : d.toRat = (d.digits : ℚ) / (10 ^ j : ℕ) := by
      rw [toRat, hj, zpow_neg, zpow_natCast, div_eq_mul_inv]
      push_cast
      rfl
    rw [units_of_gt hgt, sub_zero, divide_towardZero]
    simp only [hsign]
    rw [hfraction, hj, Int.toNat_natCast]

/-- A whole number has no places to lose. -/
theorem units_towardZero_of_toRat_eq {n : Int} (h : d.toRat = n) : d.units .towardZero 0 = n := by
  rw [units_towardZero, h, Int.floor_intCast, Int.ceil_intCast, ite_self]

end Decimal

end Haklang

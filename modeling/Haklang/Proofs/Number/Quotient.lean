import Haklang.Proofs.Number.Arithmetic
import Haklang.Number.Decimal.Quotient

/-!
# What a quotient is computed as

A quotient need not have an end, so a decimal can only stand near it. What division computes is
exact, or it has all the digits that a quotient is given; and the last digit is rounded, so in both
cases the decimal is at most half a unit of its last place away (`Decimal.IsQuotient`,
`Decimal.isQuotient_div`).

This rests on what long division keeps (`Decimal.long_eq`, `Decimal.extend_eq`) and on the two ways
in which it ends: nothing remains, or all the digits that were asked for have been appended
(`Decimal.long_ends`).
-/

namespace Haklang

namespace Decimal

/-- A decimal that is the quotient `q` to the digits that quotients have. -/
structure IsQuotient (q : ℚ) (d : Decimal) : Prop where
  /-- It is at most half a unit of its last place away. -/
  distance_le : |d.toRat - q| ≤ (10 : ℚ) ^ (-d.scale) / 2
  /-- It is exact unless it has all the digits. -/
  exact_or_long : d.toRat = q ∨ 10 ^ (Quotient.precision - 1) ≤ d.digits.natAbs

theorem IsQuotient.of_eq {q : ℚ} {d : Decimal} (h : d.toRat = q) : IsQuotient q d where
  distance_le := by
    rw [h, sub_self, abs_zero]
    exact (half_pos (unit_pos d.scale)).le
  exact_or_long := .inl h

/-! ### Long division -/

variable {m n q r : Nat}

/-- Long division ends because nothing remains, or with all the digits that it may append. -/
theorem long_ends (m n q r : Nat) : (long m n q r).2.1 = 0 ∨ (long m n q r).2.2 = n := by
  induction n generalizing q r with
  | zero => exact .inr rfl
  | succ n ih =>
    rcases eq_or_ne r 0 with rfl | hr
    · exact .inl (by simp [long])
    · simp only [long, hr, if_false]
      exact (ih (q * 10 + r * 10 / m) (r * 10 % m)).imp_right (congrArg (· + 1))

/-- The remainder stays below the divisor. -/
theorem remainder_long_lt (hr : r < m) (n q : Nat) : (long m n q r).2.1 < m := by
  induction n generalizing q r with
  | zero => exact hr
  | succ n ih =>
    rcases eq_or_ne r 0 with rfl | hne
    · simpa [long] using hr
    · simp only [long, hne, if_false]
      exact ih (Nat.mod_lt _ (Nat.zero_lt_of_lt hr)) _

/-- The digits that are appended come behind those that are there. -/
theorem mul_pow_le_long (m n q r : Nat) :
    q * 10 ^ (long m n q r).2.2 ≤ (long m n q r).1 := by
  induction n generalizing q r with
  | zero => simp [long]
  | succ n ih =>
    rcases eq_or_ne r 0 with rfl | hr
    · simp [long]
    · simp only [long, hr, if_false]
      refine le_trans ?_ (ih (q * 10 + r * 10 / m) (r * 10 % m))
      rw [pow_succ', ← mul_assoc]
      exact Nat.mul_le_mul_right _ (Nat.le_add_right _ _)

/-- What long division by `m` gives, taken together. -/
theorem long_spec {q' r' k : Nat} (hr : r < m) (h : long m n q r = (q', r', k)) :
    q' * m + r' = (q * m + r) * 10 ^ k ∧ r' < m ∧ q * 10 ^ k ≤ q' ∧ (r' = 0 ∨ k = n) := by
  have heq := long_eq m n q r
  have hrest := remainder_long_lt hr n q
  have hdigits := mul_pow_le_long m n q r
  have hends := long_ends m n q r
  rw [h] at heq hrest hdigits hends
  exact ⟨heq, hrest, hdigits, hends⟩

/-- The first digit of a positive number is not zero. -/
theorem ten_pow_le_of_pos (hq : 0 < q) : 10 ^ ((Numeral.write q).length - 1) ≤ q := by
  rcases Nat.eq_zero_or_pos ((Numeral.write q).length - 1) with hlen | hlen
  · rw [hlen]
    exact hq
  · by_contra hlt
    have hle := Numeral.length_write_le hlen (Nat.lt_of_not_le hlt)
    omega

/-- With all the digits that are missing, there are as many as a quotient has. -/
theorem precision_le_mul (hq : 0 < q) :
    10 ^ (Quotient.precision - 1) ≤
      q * 10 ^ (Quotient.precision - (Numeral.write q).length) := by
  have hlen : 0 < (Numeral.write q).length := List.length_pos_iff.2 (Numeral.write_ne_nil q)
  calc 10 ^ (Quotient.precision - 1)
      ≤ 10 ^ ((Numeral.write q).length - 1 +
          (Quotient.precision - (Numeral.write q).length)) :=
        Nat.pow_le_pow_right (by decide) (by omega)
    _ = 10 ^ ((Numeral.write q).length - 1) *
          10 ^ (Quotient.precision - (Numeral.write q).length) := pow_add _ _ _
    _ ≤ q * 10 ^ (Quotient.precision - (Numeral.write q).length) :=
        Nat.mul_le_mul_right _ (ten_pow_le_of_pos hq)

/-- The quotient of positive numbers, in units of its last place, is at most one half away from the
fraction, and it is exact or has all the digits. -/
theorem quotientNat_spec {p k : Nat} (hn : 0 < n) (hm : 0 < m) (h : quotientNat n m = (p, k)) :
    2 * (p * m) ≤ 2 * (n * 10 ^ k) + m ∧ 2 * (n * 10 ^ k) ≤ 2 * (p * m) + m ∧
      (p * m = n * 10 ^ k ∨ 10 ^ (Quotient.precision - 1) ≤ p) := by
  have hextend := extend_eq m n
  have hle := le_extend (m := m) hn
  rcases hext : extend m n with ⟨n', zeros⟩
  simp only [hext] at hextend hle
  rcases hlong : long m (Quotient.precision - (Numeral.write (n' / m)).length) (n' / m) (n' % m)
    with ⟨q, r, added⟩
  obtain ⟨heq, hrest, hdigits, hends⟩ := long_spec (Nat.mod_lt n' hm) hlong
  obtain ⟨rfl, rfl⟩ : (if m ≤ 2 * r then q + 1 else q) = p ∧ zeros + added = k := by
    simpa only [quotientNat, hext, hlong, Prod.mk.injEq] using h
  rw [Nat.div_add_mod', hextend, mul_assoc, ← pow_add] at heq
  have hfull : r = 0 ∨ 10 ^ (Quotient.precision - 1) ≤ q := by
    refine hends.imp_right fun hadded ↦ (precision_le_mul (Nat.div_pos hle hm)).trans ?_
    rwa [← hadded]
  have hsucc : (q + 1) * m = q * m + m := Nat.succ_mul q m
  rw [← heq]
  generalize 10 ^ (Quotient.precision - 1) = least at hfull ⊢
  split <;> omega

/-- The same in the rational numbers. -/
theorem distance_quotientNat {p k : Nat} (hn : 0 < n) (hm : 0 < m) (h : quotientNat n m = (p, k)) :
    |(p : ℚ) - n / m * 10 ^ k| ≤ 1 / 2 ∧
      ((p : ℚ) = n / m * 10 ^ k ∨ 10 ^ (Quotient.precision - 1) ≤ p) := by
  obtain ⟨hle, hge, hends⟩ := quotientNat_spec hn hm h
  have hpos : (0 : ℚ) < m := by exact_mod_cast hm
  have hscaled : (n : ℚ) / m * 10 ^ k * m = n * 10 ^ k := by
    rw [mul_right_comm, div_mul_cancel₀ _ hpos.ne']
  have hle' : 2 * ((p : ℚ) * m) ≤ 2 * (n * 10 ^ k) + m := by exact_mod_cast hle
  have hge' : 2 * (n * 10 ^ k) ≤ 2 * ((p : ℚ) * m) + m := by exact_mod_cast hge
  rw [← hscaled] at hle' hge'
  refine ⟨abs_le.2 ⟨?_, ?_⟩, hends.imp_left fun heq ↦ ?_⟩
  · refine le_of_mul_le_mul_right ?_ hpos
    linarith
  · refine le_of_mul_le_mul_right ?_ hpos
    linarith
  · refine mul_right_cancel₀ hpos.ne' ?_
    rw [hscaled]
    exact_mod_cast heq

/-! ### Quotients of decimals -/

/-- The sign of a quotient: positive if both numbers are negative, or neither is. -/
def quotientSign (a b : Int) : Int := if a < 0 ↔ b < 0 then 1 else -1

theorem quotientSign_eq (a b : Int) : quotientSign a b = 1 ∨ quotientSign a b = -1 := by
  rw [quotientSign]
  split
  · exact .inl rfl
  · exact .inr rfl

/-- A fraction is that of the magnitudes, with the sign of the quotient. -/
theorem div_eq_sign_mul (a b : Int) :
    (a : ℚ) / b = quotientSign a b * ((a.natAbs : ℚ) / b.natAbs) := by
  rw [Nat.cast_natAbs, Nat.cast_natAbs, quotientSign]
  rcases lt_or_ge a 0 with ha | ha <;> rcases lt_or_ge b 0 with hb | hb
  · simp [ha, hb, abs_of_neg]
  · simp [ha, not_lt.2 hb, abs_of_neg, abs_of_nonneg hb, neg_div]
  · simp [not_lt.2 ha, hb, abs_of_neg, abs_of_nonneg ha, div_neg]
  · simp [not_lt.2 ha, not_lt.2 hb, abs_of_nonneg ha, abs_of_nonneg hb]

/-- Digits that are near a number make a decimal for the quotient that this number is in units of
the last place, with a sign. -/
theorem isQuotient_mk {p : Nat} {s e : Int} {x : ℚ} (hs : s = 1 ∨ s = -1)
    (hdistance : |(p : ℚ) - x| ≤ 1 / 2)
    (hends : (p : ℚ) = x ∨ 10 ^ (Quotient.precision - 1) ≤ p) :
    IsQuotient (s * x * (10 : ℚ) ^ (-e)) ⟨s * p, e⟩ := by
  have hunit := unit_pos e
  have habs : |(s : ℚ)| = 1 := by rcases hs with rfl | rfl <;> simp
  have hnatAbs : (s * p).natAbs = p := by rcases hs with rfl | rfl <;> simp
  have hvalue : (⟨s * p, e⟩ : Decimal).toRat = s * p * (10 : ℚ) ^ (-e) := by
    rw [toRat_mk, Int.cast_mul, Int.cast_natCast]
  refine ⟨?_, hends.imp (fun heq ↦ ?_) hnatAbs.symm.le.trans'⟩
  · rw [hvalue, ← sub_mul, ← mul_sub, abs_mul, abs_mul, habs, one_mul, abs_of_pos hunit]
    linarith [mul_le_mul_of_nonneg_right hdistance hunit.le]
  · rw [hvalue, heq]

/-- The quotient by a number that is not zero is computed to all the digits that quotients have. -/
theorem isQuotient_div (a : Decimal) {b : Decimal} (hb : b.toRat ≠ 0) :
    IsQuotient (a.toRat / b.toRat) (a.div b) := by
  rw [div]
  split
  case isTrue h =>
    -- nothing is divided: the dividend is zero, or the divisor is one
    refine .of_eq ?_
    rcases Bool.or_eq_true_iff.1 h with hzero | hone
    · rw [toRat_eq_zero_iff.2 hzero, zero_div]
    · rw [toRat_of_isOne hone, div_one]
  case isFalse h =>
    have hzero : a.digits ≠ 0 := fun ha ↦ h (by simp [isZero, ha])
    have hb' : b.digits ≠ 0 := fun hb' ↦ hb (toRat_eq_zero_iff.2 (isZero_iff.2 hb'))
    rcases hq : quotientNat a.digits.natAbs b.digits.natAbs with ⟨p, k⟩
    obtain ⟨hdistance, hends⟩ :=
      distance_quotientNat (Int.natAbs_pos.2 hzero) (Int.natAbs_pos.2 hb') hq
    have hscale : (10 : ℚ) ^ (-a.scale) / (10 : ℚ) ^ (-b.scale) =
        10 ^ k * (10 : ℚ) ^ (-(a.scale - b.scale + k)) := by
      rw [← zpow_sub₀ (by norm_num), ← zpow_natCast, ← zpow_add₀ (by norm_num)]
      congr 1
      ring
    have hvalue : a.toRat / b.toRat = quotientSign a.digits b.digits *
        (a.digits.natAbs / b.digits.natAbs * 10 ^ k) * (10 : ℚ) ^ (-(a.scale - b.scale + k)) := by
      rw [toRat, toRat, mul_div_mul_comm, div_eq_sign_mul, hscale]
      ring
    have hdigits : (if a.digits < 0 ↔ b.digits < 0 then (p : Int) else -p) =
        quotientSign a.digits b.digits * p := by
      rw [quotientSign, ite_mul, one_mul, neg_one_mul]
    dsimp only
    rw [hvalue, hdigits]
    exact isQuotient_mk (quotientSign_eq _ _) hdistance hends

/-- A power to a negative exponent is the quotient of one by the power. -/
theorem isQuotient_one_div_pow {d : Decimal} (hd : d.toRat ≠ 0) (n : Nat) :
    IsQuotient (1 / d.toRat ^ n) ((ofInt 1).div (d.pow n)) := by
  have hpow : (d.pow n).toRat ≠ 0 := by
    rw [toRat_pow]
    exact pow_ne_zero n hd
  have hquotient := isQuotient_div (ofInt 1) hpow
  rwa [toRat_pow, toRat_ofInt, Int.cast_one] at hquotient

end Decimal

end Haklang

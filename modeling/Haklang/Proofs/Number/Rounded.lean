import Haklang.Proofs.Number.Written
import Haklang.Value.TypeTag
import Mathlib.Algebra.Order.Field.Power
import Mathlib.Algebra.Order.Field.Rat
import Mathlib.Algebra.Ring.Int.Parity
import Mathlib.Tactic.Linarith
import Mathlib.Tactic.Positivity
import Mathlib.Tactic.Ring

/-!
# What a rounded decimal is

A decimal stands for a rational number (`Decimal.toRat`). Which of the numbers with `k` places it is
rounded to is said there, without digits and shortcuts (`Decimal.IsRounding`): one that is at most
half a unit of the last place away, and of two such numbers the one whose last digit is even. There
is no other (`Decimal.IsRounding.unique`), and it is what a decimal is written as
(`Decimal.isRounding_rounded`): writing rounds, and what is written is read back as the rounded
decimal (`Decimal.read?_fixed`), which is written in the same way (`Decimal.fixed_rounded`).
-/

namespace Haklang

/-! ### Rounded quotients -/

/-- A quotient that is rounded half to even is at most one half away from the fraction, and even if
it is exactly one half away. -/
theorem Rounding.quotient_halfEven {n m : Nat} (hm : 0 < m) :
    2 * (halfEven.quotient n m * m) ≤ 2 * n + m ∧ 2 * n ≤ 2 * (halfEven.quotient n m * m) + m ∧
    (2 * (halfEven.quotient n m * m) = 2 * n + m ∨ 2 * n = 2 * (halfEven.quotient n m * m) + m →
      halfEven.quotient n m % 2 = 0) := by
  have hdiv : n / m * m + n % m = n := Nat.div_add_mod' n m
  have hmod : n % m < m := Nat.mod_lt n hm
  have hsucc : (n / m + 1) * m = n / m * m + m := Nat.succ_mul (n / m) m
  rw [quotient]
  by_cases hup : halfEven.roundsUp (n / m) (n % m) m = true
  · rw [if_pos hup]
    simp only [roundsUp, Bool.or_eq_true, decide_eq_true_eq, Bool.and_eq_true, beq_iff_eq] at hup
    omega
  · rw [if_neg hup]
    simp only [roundsUp, Bool.or_eq_true, decide_eq_true_eq, Bool.and_eq_true, beq_iff_eq,
      not_or, not_and] at hup
    omega

/-- The same for both signs. -/
theorem Rounding.divide_halfEven (n : Int) {m : Nat} (hm : 0 < m) :
    2 * |halfEven.divide n m * m - n| ≤ m ∧
    (2 * |halfEven.divide n m * m - n| = m → Even (halfEven.divide n m)) := by
  rcases eq_or_ne n 0 with rfl | hn
  · simp [divide]
  obtain ⟨hle, hge, heven⟩ := quotient_halfEven (n := n.natAbs) hm
  have hfactor : halfEven.divide n m * m - n =
      n.sign * (((halfEven.quotient n.natAbs m * m : Nat) : Int) - n.natAbs) := by
    rw [divide, Int.mul_sub, Int.sign_mul_natAbs, Int.natCast_mul, Int.mul_assoc]
  rw [hfactor, abs_mul, Int.abs_sign_of_ne_zero hn, one_mul]
  generalize halfEven.quotient n.natAbs m * m = p at hle hge heven ⊢
  refine ⟨?_, fun hmidway ↦ ?_⟩
  · rcases abs_cases ((p : Int) - n.natAbs) with ⟨h, -⟩ | ⟨h, -⟩ <;> omega
  · have hmod : halfEven.quotient n.natAbs m % 2 = 0 := heven <| by
      rcases abs_cases ((p : Int) - n.natAbs) with ⟨h, -⟩ | ⟨h, -⟩ <;> omega
    rw [divide]
    exact ((Int.even_coe_nat _).2 (Nat.even_iff.2 hmod)).mul_left n.sign

namespace Decimal

/-- The number that a decimal stands for. -/
def toRat (d : Decimal) : ℚ := d.digits * (10 : ℚ) ^ (-d.scale)

/-- A decimal rounded half to even to `k` places. -/
structure IsRounding (k : Nat) (d e : Decimal) : Prop where
  /-- It has that many places. -/
  scale_eq : e.scale = k
  /-- It is at most half a unit of the last place away. -/
  distance_le : |e.toRat - d.toRat| ≤ (10 : ℚ) ^ (-(k : ℤ)) / 2
  /-- If it is exactly so far away, its last digit is even. -/
  even : |e.toRat - d.toRat| = (10 : ℚ) ^ (-(k : ℤ)) / 2 → Even e.digits

/-- The decimal with `k` places that is written for a decimal. -/
def rounded (d : Decimal) (k : Nat) : Decimal := ⟨d.units .halfEven k, k⟩

theorem toRat_mk (n s : Int) : toRat ⟨n, s⟩ = n * (10 : ℚ) ^ (-s) := rfl

/-- What is rounded is a whole number of units of the last place. -/
theorem IsRounding.toRat_eq {k : Nat} {d e : Decimal} (h : IsRounding k d e) :
    e.toRat = e.digits * (10 : ℚ) ^ (-(k : ℤ)) := by
  rw [toRat, h.scale_eq]

/-- A unit of the last of `k` places. -/
theorem unit_pos (k : Int) : (0 : ℚ) < (10 : ℚ) ^ (-k) := zpow_pos (by norm_num) _

theorem IsRounding.not_digits_lt {k : Nat} {d e e' : Decimal} (h : IsRounding k d e)
    (h' : IsRounding k d e') : ¬ e.digits < e'.digits := by
  intro hlt
  have hunit := unit_pos k
  obtain ⟨hlow, -⟩ := abs_le.1 h.distance_le
  obtain ⟨-, hhigh⟩ := abs_le.1 h'.distance_le
  have heven := h.even
  have heven' := h'.even
  rw [h.toRat_eq] at hlow heven
  rw [h'.toRat_eq] at hhigh heven'
  -- the two are one unit apart, with the number in the middle
  have hstep : (e.digits : ℚ) + 1 ≤ e'.digits := by exact_mod_cast hlt
  have hapart : ((e.digits : ℚ) + 1) * (10 : ℚ) ^ (-(k : ℤ)) ≤
      e'.digits * (10 : ℚ) ^ (-(k : ℤ)) := mul_le_mul_of_nonneg_right hstep hunit.le
  rw [add_one_mul] at hapart
  have hbelow : e.digits * (10 : ℚ) ^ (-(k : ℤ)) - d.toRat = -((10 : ℚ) ^ (-(k : ℤ)) / 2) := by
    linarith
  have habove : e'.digits * (10 : ℚ) ^ (-(k : ℤ)) - d.toRat = (10 : ℚ) ^ (-(k : ℤ)) / 2 := by
    linarith
  have hnext : e'.digits = e.digits + 1 := by
    have hmul : (e'.digits : ℚ) * (10 : ℚ) ^ (-(k : ℤ)) =
        ((e.digits + 1 : ℤ) : ℚ) * (10 : ℚ) ^ (-(k : ℤ)) := by
      push_cast
      linarith
    exact_mod_cast mul_right_cancel₀ hunit.ne' hmul
  -- so both would be even
  have hdigits := heven (by rw [hbelow, abs_neg, abs_of_pos (half_pos hunit)])
  have hdigits' := heven' (by rw [habove, abs_of_pos (half_pos hunit)])
  rw [hnext] at hdigits'
  exact Int.even_add_one.1 hdigits' hdigits

/-- There is only one. -/
theorem IsRounding.unique {k : Nat} {d e e' : Decimal} (h : IsRounding k d e)
    (h' : IsRounding k d e') : e = e' := by
  have hdigits : e.digits = e'.digits :=
    le_antisymm (not_lt.1 (h'.not_digits_lt h)) (not_lt.1 (h.not_digits_lt h'))
  have hscale : e.scale = e'.scale := h.scale_eq.trans h'.scale_eq.symm
  cases e
  cases e'
  simp only [mk.injEq]
  exact ⟨hdigits, hscale⟩

/-- With places to spare, nothing is lost. -/
theorem toRat_rounded_of_le {d : Decimal} {k : Nat} (h : d.scale ≤ k) :
    (d.rounded k).toRat = d.toRat := by
  obtain ⟨j, hj⟩ := Int.eq_ofNat_of_zero_le (sub_nonneg.2 h)
  rw [rounded, units_of_le h, toRat_mk, toRat, hj, Int.toNat_natCast,
    show -d.scale = j + -(k : ℤ) by omega, zpow_add₀ (by norm_num), zpow_natCast]
  push_cast
  ring

/-- A unit of the last of `k` places, in units of the places that a decimal has. -/
theorem unit_eq_mul {d : Decimal} {k j : Nat} (h : d.scale - k = j) :
    (10 : ℚ) ^ (-(k : ℤ)) = ((10 ^ j : ℕ) : ℚ) * (10 : ℚ) ^ (-d.scale) := by
  rw [show -(k : ℤ) = j + -d.scale by omega, zpow_add₀ (by norm_num), zpow_natCast]
  push_cast
  rfl

/-- How far away the rounded decimal is, in units of the places that were there. -/
theorem distance_rounded {d : Decimal} {k j : Nat} (h : d.scale - k = j) :
    |(d.rounded k).toRat - d.toRat| =
      ((|(d.rounded k).digits * (10 ^ j : ℕ) - d.digits| : ℤ) : ℚ) * (10 : ℚ) ^ (-d.scale) := by
  rw [toRat, show (d.rounded k).scale = k from rfl, unit_eq_mul h, toRat, Int.cast_abs,
    ← abs_of_pos (unit_pos d.scale), ← abs_mul, abs_of_pos (unit_pos d.scale)]
  push_cast
  ring_nf

/-- A decimal is written as what it is rounded to. -/
theorem isRounding_rounded (d : Decimal) (k : Nat) : IsRounding k d (d.rounded k) := by
  rcases le_or_gt d.scale k with hle | hgt
  · have hunit := unit_pos k
    have hzero : |(d.rounded k).toRat - d.toRat| = 0 := by
      rw [toRat_rounded_of_le hle, sub_self, abs_zero]
    exact ⟨rfl, by rw [hzero]; exact (half_pos hunit).le,
      fun h ↦ absurd (hzero.symm.trans h) (half_pos hunit).ne⟩
  · -- the digits are divided by a power of ten
    obtain ⟨j, hj⟩ := Int.eq_ofNat_of_zero_le (sub_nonneg.2 hgt.le)
    have hdigits : (d.rounded k).digits = Rounding.halfEven.divide d.digits (10 ^ j) := by
      rw [rounded, units_of_gt hgt, hj, Int.toNat_natCast]
    obtain ⟨hdistance, heven⟩ := Rounding.divide_halfEven d.digits (m := 10 ^ j) (by positivity)
    have hdiff := distance_rounded hj
    rw [← hdigits] at hdistance heven
    generalize |(d.rounded k).digits * (10 ^ j : ℕ) - d.digits| = distance
      at hdistance heven hdiff
    have hscale := unit_pos d.scale
    refine ⟨rfl, ?_, fun hmidway ↦ heven ?_⟩
    · have hcast : (2 : ℚ) * distance ≤ ((10 ^ j : ℕ) : ℚ) := by exact_mod_cast hdistance
      rw [hdiff, unit_eq_mul hj]
      linarith [mul_le_mul_of_nonneg_right hcast hscale.le]
    · rw [hdiff, unit_eq_mul hj, mul_div_right_comm] at hmidway
      have hcast : (2 : ℚ) * distance = ((10 ^ j : ℕ) : ℚ) := by
        rw [mul_right_cancel₀ hscale.ne' hmidway]
        ring
      exact_mod_cast hcast

theorem toList_fixed_ne_nil (d : Decimal) (k : Nat) : (d.fixed k).toList ≠ [] := by
  rw [fixed, String.toList_ofList, plain_eq, plainNat]
  refine List.append_ne_nil_of_right_ne_nil _ ?_
  split
  · exact Numeral.write_ne_nil _
  · exact List.append_ne_nil_of_left_ne_nil (Numeral.write_ne_nil _) _

/-- What is rounded already is written in the same way. -/
theorem fixed_rounded (d : Decimal) (k : Nat) : (d.rounded k).fixed k = d.fixed k := by
  have hunits : (d.rounded k).units .halfEven k = d.units .halfEven k := by
    rw [rounded, units_of_le (Int.le_refl _)]
    simp
  rw [fixed, hunits, fixed]

/-- What is written is read back as what it is rounded to. -/
theorem read?_fixed (d : Decimal) {k : Nat} (hk : k ≤ 9223372036854775807) :
    read? (d.fixed k).toList = some (d.rounded k) := by
  rw [fixed, String.toList_ofList, read?_plain hk, rounded]

/-- The places of decimals are few enough. -/
theorem read?_fixed_places (d : Decimal) (p : Precision) :
    read? (d.fixed p.places).toList = some (d.rounded p.places) :=
  d.read?_fixed (by cases p <;> decide)

end Decimal

end Haklang

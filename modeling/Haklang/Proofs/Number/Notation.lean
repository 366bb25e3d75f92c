import Haklang.Proofs.Number.Arithmetic

/-!
# Plain notation

What a decimal is written as, said without the way in which it is computed: the text is plain
notation (`Decimal.IsPlain`) of the number that the decimal is rounded to. Plain notation of a
number is a minus sign if the number is negative, digits without needless zeros, and a point and as
many digits as there are places; so zero has no sign, however it came about.

Rounding keeps the order (`Decimal.IsRounding.toRat_le`). Two results in the wrong order would be a
whole unit apart, and their numbers would both have to lie in the middle, which is one number.
-/

namespace Haklang

-- Powers are those of the core library, whatever other instances are in sight.
attribute [local instance (high)] instPowNat

/-- The whole number next to a number on the side of zero. -/
def towardZero (q : ℚ) : ℤ := if 0 ≤ q then ⌊q⌋ else ⌈q⌉

/-- Numerals have no zeros in front. -/
theorem Numeral.head?_write {n : Nat} (hn : n ≠ 0) : (write n).head? ≠ some '0' := by
  have hdigit : ∀ m < 10, m ≠ 0 → [m.digitChar].head? ≠ some '0' := by decide
  induction n using Nat.strongRecOn with
  | ind n ih =>
    rcases Nat.lt_or_ge n 10 with h | h
    · rw [write_of_lt h]
      exact hdigit n h hn
    · rw [write_of_ge h, List.head?_append_of_ne_nil _ (write_ne_nil _)]
      exact ih (n / 10) (by omega) (by omega)

namespace Decimal

/-- Plain notation of a number with `k` digits behind the point. -/
inductive IsPlain (k : Nat) (q : ℚ) : List Char → Prop where
  /-- A sign before a negative number, the whole part, and the point and the fraction if there are
  places. -/
  | intro (whole fraction : List Char) (hne : whole ≠ [])
    (hdigits : ∀ c ∈ whole ++ fraction, c.isDigit = true)
    (hzero : whole.head? = some '0' → whole = ['0']) (hlength : fraction.length = k)
    (hvalue : |q| =
      (Nat.ofDigitChars 10 whole 0 : ℚ) + Nat.ofDigitChars 10 fraction 0 * (10 : ℚ) ^ (-(k : ℤ))) :
    IsPlain k q ((if q < 0 then ['-'] else []) ++ (whole ++ if k = 0 then [] else '.' :: fraction))

/-- Behind the point stand as many digits as there are places, zeros in front included. -/
theorem exists_plainNat_eq (k n : Nat) : ∃ fraction : List Char,
    plainNat k n = Numeral.write (n / 10 ^ k) ++ (if k = 0 then [] else '.' :: fraction) ∧
      fraction.length = k ∧ (∀ c ∈ fraction, c.isDigit = true) ∧
      Nat.ofDigitChars 10 fraction 0 = n % 10 ^ k := by
  rcases Nat.eq_zero_or_pos k with rfl | hk
  · refine ⟨[], ?_, rfl, nofun, ?_⟩
    · rw [plainNat, if_pos rfl, if_pos rfl, Nat.pow_zero, Nat.div_one, List.append_nil]
    · rw [Nat.pow_zero, Nat.mod_one]
      rfl
  · have hlength : (Numeral.write (n % 10 ^ k)).length ≤ k :=
      Numeral.length_write_le hk (Nat.mod_lt n (Nat.pow_pos (by decide)))
    refine ⟨_, by rw [plainNat, if_neg (Nat.ne_of_gt hk), if_neg (Nat.ne_of_gt hk)], ?_,
      fun c ↦ isDigit_of_mem_padding, ?_⟩
    · rw [List.length_append, List.length_replicate, Nat.sub_add_cancel hlength]
    · rw [Nat.ofDigitChars_append, Nat.ofDigitChars_replicate_zero, Nat.mul_zero,
        Numeral.ofDigitChars_write]

/-- A whole number of units is written in plain notation. -/
theorem isPlain_plain (k : Nat) (n : Int) : IsPlain k (toRat ⟨n, k⟩) (plain k n) := by
  have hunit := unit_pos k
  have hnegative : n < 0 ↔ toRat ⟨n, k⟩ < 0 := by
    rw [toRat_mk, ← not_le, ← not_le, mul_nonneg_iff_of_pos_right hunit, Int.cast_nonneg_iff]
  have habs : |toRat ⟨n, k⟩| = (n.natAbs : ℚ) * (10 : ℚ) ^ (-(k : ℤ)) := by
    rw [toRat_mk, abs_mul, abs_of_pos hunit, ← Int.cast_abs, Int.abs_eq_natAbs, Int.cast_natCast]
  obtain ⟨fraction, hplain, hlength, hdigits, hvalue⟩ := exists_plainNat_eq k n.natAbs
  rw [plain_eq, hplain]
  simp only [decide_eq_true_eq, hnegative]
  refine .intro _ fraction (Numeral.write_ne_nil _) (fun c hc ↦ ?_) (fun hzero ↦ ?_) hlength ?_
  · exact (List.mem_append.1 hc).elim Numeral.isDigit_of_mem_write (hdigits c)
  · rw [not_imp_not.1 Numeral.head?_write hzero]
    rfl
  · -- the units are the whole part and the rest
    have hparts : (n.natAbs : ℚ) =
        (n.natAbs / 10 ^ k : ℕ) * (10 : ℚ) ^ k + (n.natAbs % 10 ^ k : ℕ) := by
      exact_mod_cast (Nat.div_add_mod' n.natAbs (10 ^ k)).symm
    have hone : (10 : ℚ) ^ k * (10 : ℚ) ^ (-(k : ℤ)) = 1 := by
      rw [zpow_neg, zpow_natCast]
      exact mul_inv_cancel₀ (by positivity)
    rw [habs, hparts, Numeral.ofDigitChars_write, hvalue, add_mul, mul_assoc, hone, mul_one]

/-- What is written is plain notation of the number that is rounded to. -/
theorem isPlain_fixed (d : Decimal) (k : Nat) :
    IsPlain k (d.rounded k).toRat (d.fixed k).toList := by
  rw [fixed, String.toList_ofList]
  exact isPlain_plain k _

variable {k : Nat} {d d' e e' : Decimal}

/-- Only the number counts that is rounded. -/
theorem IsRounding.congr (h : IsRounding k d e) (hd : d.toRat = d'.toRat) : IsRounding k d' e :=
  ⟨h.scale_eq, hd ▸ h.distance_le, hd ▸ h.even⟩

/-- Rounding keeps the order. -/
theorem IsRounding.toRat_le (h : IsRounding k d e) (h' : IsRounding k d' e')
    (hle : d.toRat ≤ d'.toRat) : e.toRat ≤ e'.toRat := by
  rcases hle.eq_or_lt with heq | hlt
  · rw [(h.congr heq).unique h']
  · by_contra hgt
    have hunit := unit_pos k
    -- the results are a unit apart at least, and so are their numbers
    have hdigits : (e'.digits : ℚ) + 1 ≤ e.digits := by
      rw [not_le, h.toRat_eq, h'.toRat_eq, mul_lt_mul_iff_left₀ hunit,
        Int.cast_lt] at hgt
      exact_mod_cast hgt
    have hapart := mul_le_mul_of_nonneg_right hdigits hunit.le
    rw [add_one_mul, ← h.toRat_eq, ← h'.toRat_eq] at hapart
    obtain ⟨-, hhigh⟩ := abs_le.1 h.distance_le
    obtain ⟨hlow, -⟩ := abs_le.1 h'.distance_le
    linarith

/-- A number with few enough places is not changed by rounding, whatever its representation. -/
theorem toRat_rounded_of_eq {n : Int} (h : d.toRat = n * (10 : ℚ) ^ (-(k : ℤ))) :
    (d.rounded k).toRat = d.toRat := by
  have hexact : IsRounding k d (rounded ⟨n, k⟩ k) :=
    (isRounding_rounded ⟨n, k⟩ k).congr (by rw [h, toRat_mk])
  rw [(isRounding_rounded d k).unique hexact, toRat_rounded_of_le (le_refl _), toRat_mk, h]

/-- The integer that is left without the places is the number rounded toward zero, if it is in
range. -/
theorem truncate?_eq (d : Decimal) : d.truncate? = Integer.ofInt? (towardZero d.toRat) := by
  rw [truncate?, units_towardZero, towardZero]

end Decimal

end Haklang

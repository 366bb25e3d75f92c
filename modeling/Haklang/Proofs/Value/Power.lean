import Haklang.Proofs.Value.Arithmetic
import Haklang.Proofs.Value.Shallow

/-!
# Powers of numbers

Two integers have an integer power for a natural exponent, checked against the range, and a decimal
for a negative one. As soon as one of the two is a decimal, the power is computed on decimals, by
repeated squaring. Both ways are exact: what comes out is the product of as many factors as the
exponent says, or to a negative exponent the quotient of one by that product
(`BinaryOperator.apply_power_integers`, `BinaryOperator.apply_power_decimals`). So they agree where
both apply. Zero has no power to a negative exponent, and no quotient by zero is ever computed.

Integers are exact up to one point: an exponent of 32 bits or more counts as out of range, also for
the three bases all powers of which are in range (`Value.inRange_pow_iff`).

One exponent has no power of decimals at all. A whole exponent is compared with the limit by its
magnitude, and the least integer has none, so that power stops the run. No other operator does
(`BinaryOperator.apply_eq_noMagnitude_iff`).
-/

namespace Haklang

/-- A decimal is an integer if its number is one. -/
theorem Decimal.integer?_eq_some_iff {d : Decimal} {n : Integer} :
    d.integer? = some n ↔ d.toRat = n.val := by
  unfold Decimal.integer?
  dsimp only
  constructor
  · intro h
    split at h
    case isTrue hwhole =>
      rw [Decimal.compare_eq_eq_iff, Decimal.toRat_ofInt] at hwhole
      rw [hwhole, Integer.ofInt?_eq_some_iff.1 h]
    case isFalse => cases h
  · intro h
    have hwhole : d.compare (.ofInt n.val) = .eq := by
      rw [Decimal.compare_eq_eq_iff, h, Decimal.toRat_ofInt]
    rw [Decimal.units_towardZero_of_toRat_eq h, if_pos hwhole, Integer.ofInt?_val]

namespace Value

/-! ### Powers of integers -/

variable {m n : Integer}

/-- With an exponent of 64 and more, only the powers of zero, one and minus one are in range. -/
theorem inRange_pow_iff {e : Nat} (he : 64 ≤ e) :
    Integer.InRange ((m.val ^ e : Int) : ℚ) ↔ m.val.natAbs ≤ 1 := by
  constructor
  · contrapose!
    intro hm
    rw [← Integer.ofInt?_eq_none_iff_not_inRange, ← Integer.pow?_eq, Integer.pow?,
      if_neg (Nat.not_le.2 hm), if_pos he]
  · intro hm
    have hpow : (m.val ^ e).natAbs ≤ 1 := by
      rw [Int.natAbs_pow]
      exact pow_le_one₀ (Nat.zero_le _) hm
    refine not_not.1 fun hrange ↦ ?_
    rw [← Integer.ofInt?_eq_none_iff_not_inRange, Integer.ofInt?_eq_none_iff] at hrange
    omega

/-- The power of an integer to a natural exponent is exact if it is in range and the exponent has at
most 32 bits. -/
theorem integerPower_of_nonneg (hn : 0 ≤ n.val) :
    if Integer.InRange ((m.val ^ n.val.toNat : Int) : ℚ) ∧ n.val < 4294967296 then
      ∃ k : Integer, k.val = m.val ^ n.val.toNat ∧ integerPower m n = .ok (.int k)
    else integerPower m n = .error .integerOverflow := by
  rw [integerPower, if_pos hn, Integer.pow?_eq, Power.exponentLimit]
  by_cases hlimit : n.val < 4294967296
  · rw [if_pos (show n.val ≤ (4294967295 : Nat) by omega)]
    rcases hk : Integer.ofInt? (m.val ^ n.val.toNat) with - | k
    · rw [if_neg fun h ↦ Integer.ofInt?_eq_none_iff_not_inRange.1 hk h.1]
    · have hval := Integer.ofInt?_eq_some_iff.1 hk
      rw [if_pos ⟨hval ▸ k.inRange_val, hlimit⟩]
      exact ⟨k, hval, rfl⟩
  · rw [if_neg (show ¬ n.val ≤ (4294967295 : Nat) by omega), if_neg fun h ↦ hlimit h.2]

/-! ### Powers of decimals -/

variable {p : Precision} {d : Decimal} {e : Int}

theorem wholePower_of_nonneg (he : 0 ≤ e) :
    wholePower p d e = .ok (.decimal p (d.pow e.toNat)) := by
  rw [wholePower, if_neg fun h ↦ absurd h.2 (Int.not_lt.2 he), Decimal.zpow, if_pos he]

theorem wholePower_of_eq_zero (he : e < 0) (hd : d.toRat = 0) :
    wholePower p d e = .error .zeroToNegative := by
  rw [wholePower, if_pos ⟨Decimal.toRat_eq_zero_iff.1 hd, he⟩]

theorem wholePower_of_neg (he : e < 0) (hd : d.toRat ≠ 0) :
    wholePower p d e = .ok (.decimal p ((Decimal.ofInt 1).div (d.pow e.natAbs))) := by
  rw [wholePower, if_neg fun h ↦ hd (Decimal.toRat_eq_zero_iff.2 h.1), Decimal.zpow,
    if_neg (Int.not_le.2 he)]

/-- To a whole exponent within the limit, the power is exact. -/
theorem decimalPower_of_natAbs_le (c : Decimal) (hd : d.toRat = e) (he : e.natAbs ≤ 10000) :
    decimalPower p c d = wholePower p c e := by
  obtain ⟨n, rfl⟩ : ∃ n : Integer, n.val = e := ⟨⟨e, by omega, by omega⟩, rfl⟩
  rw [decimalPower, Decimal.integer?_eq_some_iff.2 hd]
  cases hk : n.magnitude? with
  | none =>
    rw [Integer.magnitude?_eq_none_iff] at hk
    omega
  | some k =>
    have hlimit : k.val ≤ Power.exactLimit := by
      rw [Integer.val_of_magnitude? hk]
      exact_mod_cast he
    simp only [hk, if_pos hlimit]

/-- The power of two decimals stops the run if the exponent is the least integer, and not
otherwise. -/
theorem decimalPower_eq_noMagnitude_iff {c : Decimal} :
    decimalPower p c d = .error .noMagnitude ↔ d.toRat = -9223372036854775808 := by
  have hfloat := (shallow_floatPower p c d).ne_noMagnitude
  unfold decimalPower
  cases hn : d.integer? with
  | none =>
    -- the least integer would be found to be an integer
    refine iff_of_false hfloat fun hd ↦ ?_
    have hleast : d.integer? = some ⟨-9223372036854775808, by decide, by decide⟩ :=
      Decimal.integer?_eq_some_iff.2 (by rw [hd]; norm_num)
    rw [hn] at hleast
    cases hleast
  | some n =>
    have hval := Decimal.integer?_eq_some_iff.1 hn
    cases hk : n.magnitude? with
    | none =>
      refine iff_of_true (by simp only [hk]) ?_
      rw [hval, Integer.magnitude?_eq_none_iff.1 hk]
      norm_num
    | some k =>
      refine iff_of_false ?_ fun hd ↦ ?_
      · simp only [hk]
        split
        · exact (shallow_wholePower p c n.val).ne_noMagnitude
        · exact hfloat
      · have hleast : n.magnitude? = none := by
          rw [Integer.magnitude?_eq_none_iff]
          exact_mod_cast hval.symm.trans hd
        rw [hk] at hleast
        cases hleast

/-- To a negative exponent, the power of an integer is that of a decimal without places. -/
theorem integerPower_of_neg (hn : n.val < 0) (hlimit : -10000 ≤ n.val) :
    integerPower m n = wholePower .seven (.ofInt m.val) n.val := by
  rw [integerPower, if_neg (Int.not_le.2 hn)]
  split
  case isTrue hm => rw [wholePower_of_eq_zero hn (by simp [hm])]
  case isFalse => rw [if_neg (show ¬ n.val < -(Power.exactLimit : Int) from Int.not_lt.2 hlimit)]

/-! ### Powers of values -/

variable {a b : Value} {x : ℚ}

theorem power_eq_integerPower (ha : a.integer? = some m) (hb : b.integer? = some n) :
    a.power b = integerPower m n := by
  simp only [power, Operands.of?, ha, hb]

/-- A power of two integers that does not fail is exact. -/
theorem rat?_of_power_eq_ok {v : Value} (ha : a.rat? = some x) (hb : b.rat? = some (e : ℚ))
    (htags : a.typeTag = .int ∧ b.typeTag = .int) (he : 0 ≤ e) (hv : a.power b = .ok v) :
    v.rat? = some (x ^ e.toNat) := by
  cases Operands.brought ha hb with
  | decimals c d hc hd h hform => exact absurd htags h
  | integers m n hm hn h hform =>
    obtain rfl := hm
    obtain rfl : n.val = e := Int.cast_injective hn
    have hpower : integerPower m n = .ok v := by
      rw [← hv, power, hform]
    have hexact := integerPower_of_nonneg (m := m) he
    rw [hpower] at hexact
    split at hexact
    case isTrue =>
      obtain ⟨k, hk, hok⟩ := hexact
      obtain rfl := Except.ok.inj hok
      rw [rat?_of_integer? (n := k) rfl, hk, Int.cast_pow]
    case isFalse => cases hexact

/-- With a decimal among the two, and a whole exponent that is not too large, the power is computed
on decimals. -/
theorem power_eq_wholePower (ha : a.rat? = some x) (hb : b.rat? = some (e : ℚ))
    (he : e.natAbs ≤ 10000) (htags : ¬ (a.typeTag = .int ∧ b.typeTag = .int)) :
    ∃ c : Decimal, c.toRat = x ∧ a.power b = wholePower (a.typeTag.finer b.typeTag) c e := by
  cases Operands.brought ha hb with
  | integers m n hm hn h hform => exact absurd h htags
  | decimals c d hc hd h hform =>
    refine ⟨c, hc, ?_⟩
    rw [power, hform]
    exact decimalPower_of_natAbs_le c hd he

/-- A power stops the run exactly if it is one of decimals, to the least integer. -/
theorem power_eq_noMagnitude_iff :
    a.power b = .error .noMagnitude ↔
      a.rat?.isSome = true ∧ b.rat? = some (-9223372036854775808) ∧
        ¬ (a.typeTag = .int ∧ b.typeTag = .int) := by
  rcases ha : a.rat? with - | x
  · refine iff_of_false ?_ fun h ↦ absurd h.1 Bool.false_ne_true
    rw [power, Operands.of?_eq_none (.inl ha)]
    nofun
  rcases hb : b.rat? with - | y
  · refine iff_of_false ?_ fun h ↦ nomatch h.2.1
    rw [power, Operands.of?_eq_none (.inr hb)]
    nofun
  rw [power, Option.some_inj]
  cases Operands.brought ha hb with
  | integers m n hm hn h hform =>
    rw [hform]
    exact iff_of_false (shallow_integerPower m n).ne_noMagnitude fun hno ↦ hno.2.2 h
  | decimals c d hc hd h hform =>
    rw [hform]
    refine decimalPower_eq_noMagnitude_iff.trans ?_
    rw [hd]
    exact ⟨fun hy ↦ ⟨rfl, hy, h⟩, fun hy ↦ hy.2.1⟩

end Value

namespace BinaryOperator

variable {a b : Value}

/-- An operator stops the run exactly if it is a power of decimals, to the least integer. -/
theorem apply_eq_noMagnitude_iff {op : BinaryOperator} :
    op.apply a b = .error .noMagnitude ↔
      op = power ∧ a.rat?.isSome = true ∧ b.rat? = some (-9223372036854775808) ∧
        ¬ (a.typeTag = .int ∧ b.typeTag = .int) := by
  by_cases hop : op = power
  · subst hop
    exact Value.power_eq_noMagnitude_iff.trans (iff_and_self.2 fun _ ↦ rfl)
  · exact iff_of_false (shallow_apply_of_ne hop a b).ne_noMagnitude fun h ↦ hop h.1

/-- The power of two integers or truth values. To a natural exponent it is the exact power, and an
overflow if that is out of range; but with an exponent of more than 32 bits it is an overflow in any
case, also where the power is in range, which it is for zero, one and minus one. To a negative
exponent zero has no power, and any other base has the quotient of one by its power, a decimal of
seven places. Both failures are those of expressions. -/
theorem apply_power_integers {m n : Integer} (ha : a.integer? = some m) (hb : b.integer? = some n) :
    (0 ≤ n.val →
      if Integer.InRange ((m.val ^ n.val.toNat : Int) : ℚ) ∧ n.val < 4294967296 then
        ∃ k : Integer, k.val = m.val ^ n.val.toNat ∧ power.apply a b = .ok (.int k)
      else power.apply a b = .error .integerOverflow) ∧
    (4294967296 ≤ n.val →
      (Integer.InRange ((m.val ^ n.val.toNat : Int) : ℚ) ↔ m.val.natAbs ≤ 1)) ∧
    (n.val < 0 → m.val = 0 → power.apply a b = .error .zeroToNegative) ∧
    (n.val < 0 → -10000 ≤ n.val → m.val ≠ 0 →
      ∃ c d, c = Decimal.ofInt (m.val ^ n.val.natAbs) ∧ c.toRat ≠ 0 ∧
        d = (Decimal.ofInt 1).div c ∧ Decimal.IsQuotient (1 / (m.val : ℚ) ^ n.val.natAbs) d ∧
        power.apply a b = .ok (.decimal .seven d)) ∧
    Fault.integerOverflow.category = .expression ∧ Fault.zeroToNegative.category = .expression := by
  have hpower : power.apply a b = Value.integerPower m n := Value.power_eq_integerPower ha hb
  rw [hpower]
  refine ⟨Value.integerPower_of_nonneg, fun hlarge ↦ Value.inRange_pow_iff (by omega),
    fun hn hm ↦ ?_, fun hn hlimit hm ↦ ?_, rfl, rfl⟩
  · rw [Value.integerPower, if_neg (Int.not_le.2 hn), if_pos hm]
  · have hbase : (Decimal.ofInt m.val).toRat ≠ 0 := by
      rw [Decimal.toRat_ofInt]
      exact_mod_cast hm
    have hquotient := Decimal.isQuotient_one_div_pow hbase n.val.natAbs
    rw [Decimal.pow_ofInt, Decimal.toRat_ofInt] at hquotient
    refine ⟨_, _, rfl, ?_, rfl, hquotient, ?_⟩
    · rw [Decimal.toRat_ofInt]
      exact_mod_cast pow_ne_zero n.val.natAbs hm
    · rw [Value.integerPower_of_neg hn hlimit, Value.wholePower_of_neg hn hbase, Decimal.pow_ofInt]

/-- The least integer as a power of minus two, a power out of range, and powers to a negative
exponent. -/
theorem apply_power_integers_least :
    let base : Integer := { val := -2 }
    (∃ k : Integer, k.val = -9223372036854775808 ∧
      power.apply (.int base) (.int { val := 63 }) = .ok (.int k)) ∧
    power.apply (.int base) (.int { val := 64 }) = .error .integerOverflow ∧
    power.apply (.bool false) (.int base) = .error .zeroToNegative ∧
    ∃ d, Decimal.IsQuotient (1 / 4) d ∧
      power.apply (.int base) (.int base) = .ok (.decimal .seven d) := by
  intro base
  have hint (k : Integer) : (Value.int k).integer? = some k := rfl
  refine ⟨?_, ?_, ?_, ?_⟩
  · have hleast : base.val ^ 63 = -9223372036854775808 := by decide
    have hrange : Integer.InRange ((base.val ^ 63 : Int) : ℚ) := by
      norm_num [hleast, Integer.InRange]
    obtain ⟨k, hk, hpower⟩ := (if_pos ⟨hrange, by decide⟩).mp
      ((apply_power_integers (hint base) (hint { val := 63 })).1 (by decide))
    exact ⟨k, hk.trans hleast, hpower⟩
  · have hlarge : base.val ^ 64 = 18446744073709551616 := by decide
    have hrange : ¬ Integer.InRange ((base.val ^ 64 : Int) : ℚ) := by
      norm_num [hlarge, Integer.InRange]
    exact (if_neg fun h ↦ hrange h.1).mp
      ((apply_power_integers (hint base) (hint { val := 64 })).1 (by decide))
  · have hzero : (Value.bool false).integer? = some 0 := rfl
    exact (apply_power_integers hzero (hint base)).2.2.1 (by decide) rfl
  · obtain ⟨c, d, -, -, -, hd, hpower⟩ :=
      (apply_power_integers (hint base) (hint base)).2.2.2.1 (by decide) (by decide) (by decide)
    exact ⟨d, by norm_num [base] at hd ⊢; exact hd, hpower⟩

/-- One to an exponent of 33 bits counts as out of range. -/
theorem apply_power_integers_one :
    let exponent : Integer := ⟨4294967296, by decide, by decide⟩
    (1 : Integer).val ^ exponent.val.toNat = 1 ∧
      power.apply (.int 1) (.int exponent) = .error .integerOverflow := by
  intro exponent
  exact ⟨one_pow _, rfl⟩

/-- The power with a decimal among the two numbers, to a whole exponent that is not too large. It is
a decimal of the finer precision: the product of as many factors as the exponent says, and to a
negative exponent the quotient of one by that product, which is not zero; zero has no power to a
negative exponent, a failure of expressions. Where two integers that are the same numbers have an
integer power, the decimal is equal to it. Decimals are taken without a limit on their scales, so
this is about decimals in 64 bits of scale as long as the scale of the power fits. -/
theorem apply_power_decimals {x : ℚ} {n : Int} (ha : a.rat? = some x) (hb : b.rat? = some (n : ℚ))
    (hn : n.natAbs ≤ 10000) (htags : ¬ (a.typeTag = .int ∧ b.typeTag = .int)) :
    (0 ≤ n → ∃ d, d.toRat = x ^ n.toNat ∧
      power.apply a b = .ok (.decimal (a.typeTag.finer b.typeTag) d) ∧
      ∀ u w v, u.typeTag = .int → w.typeTag = .int → u.rat? = some x → w.rat? = some (n : ℚ) →
        power.apply u w = .ok v →
        v.rat? = some d.toRat ∧ (Value.decimal (a.typeTag.finer b.typeTag) d).equals v = true) ∧
    (n < 0 → x = 0 → power.apply a b = .error .zeroToNegative) ∧
    (n < 0 → x ≠ 0 → ∃ c d, c.toRat = x ^ n.natAbs ∧ c.toRat ≠ 0 ∧
      d = (Decimal.ofInt 1).div c ∧ Decimal.IsQuotient (1 / x ^ n.natAbs) d ∧
      power.apply a b = .ok (.decimal (a.typeTag.finer b.typeTag) d)) ∧
    Fault.zeroToNegative.category = .expression := by
  obtain ⟨c, rfl, hpower⟩ := Value.power_eq_wholePower ha hb hn htags
  rw [show power.apply a b = _ from hpower]
  refine ⟨fun hnonneg ↦ ⟨c.pow n.toNat, Decimal.toRat_pow c n.toNat,
    Value.wholePower_of_nonneg hnonneg, fun u w v hu hw hx he hv ↦ ?_⟩,
    fun hneg hzero ↦ Value.wholePower_of_eq_zero hneg hzero, fun hneg hne ↦
    ⟨c.pow n.natAbs, _, Decimal.toRat_pow c n.natAbs, ?_, rfl,
      Decimal.isQuotient_one_div_pow hne n.natAbs, Value.wholePower_of_neg hneg hne⟩, rfl⟩
  · have hexact := Value.rat?_of_power_eq_ok hx he ⟨hu, hw⟩ hnonneg hv
    rw [← Decimal.toRat_pow] at hexact
    exact ⟨hexact, Value.equals_of_rat?_eq rfl hexact⟩
  · rw [Decimal.toRat_pow]
    exact pow_ne_zero n.natAbs hne

/-- Powers of minus one and a half to the third and to the minus second, the integer power that a
decimal power is equal to, and a power of zero. -/
theorem apply_power_decimals_half :
    let base : Value := .decimal .fifteen ⟨-15, 1⟩
    let two : Value := .int { val := 2 }
    (∃ d, d.toRat = -27 / 8 ∧
      power.apply base (.decimal .seven ⟨30, 1⟩) = .ok (.decimal .fifteen d)) ∧
    (∃ d, Decimal.IsQuotient (4 / 9) d ∧
      power.apply base (.int { val := -2 }) = .ok (.decimal .fifteen d)) ∧
    (∃ d, power.apply (.decimal .seven ⟨2, 0⟩) two = .ok (.decimal .seven d) ∧
      ∀ v, power.apply two two = .ok v → (Value.decimal .seven d).equals v = true) ∧
    power.apply (.decimal .seven ⟨0, 2⟩) (.int { val := -2 }) = .error .zeroToNegative := by
  intro base two
  have hbase : base.rat? = some (-3 / 2) := by
    norm_num [base, Value.rat?, Value.number?, Decimal.toRat]
  have hthree : (Value.decimal .seven ⟨30, 1⟩).rat? = some ((3 : Int) : ℚ) := by
    norm_num [Value.rat?, Value.number?, Decimal.toRat]
  have htwo : two.rat? = some ((2 : Int) : ℚ) :=
    Value.rat?_of_integer? (n := { val := 2 }) rfl
  have hdecimal : (Value.decimal .seven ⟨2, 0⟩).rat? = some ((2 : Int) : ℚ) := by
    norm_num [Value.rat?, Value.number?, Decimal.toRat]
  have hnegative : (Value.int { val := -2 }).rat? = some ((-2 : Int) : ℚ) :=
    Value.rat?_of_integer? (n := { val := -2 }) rfl
  have hzero : (Value.decimal .seven ⟨0, 2⟩).rat? = some 0 := by
    norm_num [Value.rat?, Value.number?, Decimal.toRat]
  refine ⟨?_, ?_, ?_, ?_⟩
  · obtain ⟨d, hd, hpower, -⟩ :=
      (apply_power_decimals hbase hthree (by decide) (by decide)).1 (by decide)
    exact ⟨d, hd.trans (by norm_num [Int.toNat]), hpower⟩
  · obtain ⟨c, d, -, -, -, hd, hpower⟩ :=
      (apply_power_decimals hbase hnegative (by decide) (by decide)).2.2.1 (by decide) (by norm_num)
    exact ⟨d, by norm_num at hd ⊢; exact hd, hpower⟩
  · obtain ⟨d, -, hpower, hinteger⟩ :=
      (apply_power_decimals hdecimal htwo (by decide) (by decide)).1 (by decide)
    exact ⟨d, hpower, fun v hv ↦ (hinteger two two v rfl rfl htwo htwo hv).2⟩
  · exact (apply_power_decimals hzero hnegative (by decide) (by decide)).2.1 (by decide) rfl

end BinaryOperator

end Haklang

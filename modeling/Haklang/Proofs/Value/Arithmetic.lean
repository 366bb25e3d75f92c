import Haklang.Value.Operator
import Haklang.Proofs.Number.Quotient

/-!
# Arithmetic on values

Integers, truth values and decimals of both precisions are numbers, and arithmetic takes them in any
mixture. Which operation is carried out depends on one thing: whether one of the two is a decimal
(`Operands.Brought`). If none is, the result is an integer or out of range; if one is, the result is
a decimal, with fifteen places as soon as one of the two has them (`TypeTag.promoted`).

In both cases the number that comes out is the sum, difference or product of the numbers that went
in, a quotient is one to all the digits that quotients have, and it fails on nothing but an integer
out of range (`BinaryOperator.apply_numbers`). Text and lists are no numbers; apart from addition,
which joins two of a kind, arithmetic on them is a type error.
-/

namespace Haklang

/-! ### Numbers among the values -/

/-- The rational number that a value stands for, if it is a number. -/
def Value.rat? (v : Value) : Option ℚ := v.number?.map Decimal.toRat

/-- The value is the number `q`, as a value of type `t` that is no truth value. -/
inductive Value.IsNumber (q : ℚ) : TypeTag → Value → Prop
  /-- An integer. -/
  | int {n : Integer} (h : (n.val : ℚ) = q) : IsNumber q .int (.int n)
  /-- A decimal. -/
  | decimal {p : Precision} {d : Decimal} (h : d.toRat = q) :
    IsNumber q (.decimal p) (.decimal p d)

/-- The range of integers, among the rational numbers. -/
def Integer.InRange (q : ℚ) : Prop := -9223372036854775808 ≤ q ∧ q ≤ 9223372036854775807

instance (q : ℚ) : Decidable (Integer.InRange q) := inferInstanceAs (Decidable (_ ∧ _))

theorem Integer.inRange_val (k : Integer) : InRange k.val :=
  ⟨by exact_mod_cast k.least_le, by exact_mod_cast k.le_greatest⟩

/-- A whole number that is out of range is no integer. -/
theorem Integer.ofInt?_eq_none_iff_not_inRange {n : Int} : ofInt? n = none ↔ ¬ InRange n := by
  rw [ofInt?_eq_none_iff, InRange]
  norm_cast

/-- The precision of the decimals that numbers of two types make: fifteen places if one of them has
fifteen. -/
def TypeTag.finer (s t : TypeTag) : Precision :=
  if s = .decimal .fifteen ∨ t = .decimal .fifteen then .fifteen else .seven

/-- The type of a sum, a difference or a product of numbers of two types: integers make an integer,
and with a decimal it is one of the finer precision. -/
def TypeTag.promoted (s t : TypeTag) : TypeTag :=
  if s = .int ∧ t = .int then .int else .decimal (s.finer t)

namespace Value

variable {v : Value} {n : Integer} {x : ℚ}

theorem rat?_of_integer? (h : v.integer? = some n) : v.rat? = some (n.val : ℚ) := by
  cases v with
  | int m =>
    obtain rfl := Option.some.inj h
    simp [rat?, number?]
  | bool b =>
    obtain rfl := Option.some.inj h
    simp [rat?, number?]
  | _ => cases h

/-- Integers and truth values have the type of integers, and nothing else has. -/
theorem typeTag_eq_int_iff : v.typeTag = .int ↔ ∃ n, v.integer? = some n := by
  cases v <;> simp [typeTag, integer?]

theorem precision?_eq_some_iff {p : Precision} :
    v.precision? = some p ↔ v.typeTag = .decimal p := by
  cases v <;> simp [typeTag, precision?]

/-- Numbers are in the order of what they stand for, whatever their types. -/
theorem compare?_eq {a b : Value} {x y : ℚ} (ha : a.rat? = some x) (hb : b.rat? = some y) :
    a.compare? b = some (cmp x y) := by
  obtain ⟨c, hc, rfl⟩ := Option.map_eq_some_iff.1 ha
  obtain ⟨d, hd, rfl⟩ := Option.map_eq_some_iff.1 hb
  have hcompare : a.compare? b = some (c.compare d) := by
    unfold compare?
    split
    case h_1 => cases hc
    case h_2 => cases hc
    case h_3 => rw [hc, hd]
  rw [hcompare, Decimal.compare_eq]

/-- Two values that are the same number are equal, whatever their types. -/
theorem equals_of_rat?_eq {a b : Value} (ha : a.rat? = some x) (hb : b.rat? = some x) :
    a.equals b = true := by
  rw [equals, compare?_eq ha hb, cmp_self_eq_eq]
  rfl

end Value

/-- How two numbers `x` and `y` are brought to the form in which they are operated on. -/
inductive Operands.Brought (a b : Value) (x y : ℚ) : Prop
  /-- Neither of them is a decimal. -/
  | integers (m n : Integer) (hm : (m.val : ℚ) = x) (hn : (n.val : ℚ) = y)
    (htags : a.typeTag = .int ∧ b.typeTag = .int)
    (hform : Operands.of? a b = some (.integers m n)) : Brought a b x y
  /-- One of them is a decimal. -/
  | decimals (c d : Decimal) (hc : c.toRat = x) (hd : d.toRat = y)
    (htags : ¬ (a.typeTag = .int ∧ b.typeTag = .int))
    (hform : Operands.of? a b = some (.decimals (a.typeTag.finer b.typeTag) c d)) :
    Brought a b x y

namespace Operands

variable {a b : Value} {x y : ℚ}

/-- As soon as one of two numbers is a decimal, both become decimals. -/
theorem of?_eq_decimals {c d : Decimal} (hc : a.number? = some c) (hd : b.number? = some d)
    (h : ¬ (a.typeTag = .int ∧ b.typeTag = .int)) :
    of? a b = some (.decimals (a.typeTag.finer b.typeTag) c d) := by
  simp only [Value.typeTag_eq_int_iff, not_and_or, not_exists] at h
  rw [of?]
  split
  case h_1 m n hm hn => exact absurd hn (h.resolve_left (fun hno ↦ hno m hm) n)
  case h_2 => simp only [hc, hd, Value.precision?_eq_some_iff, TypeTag.finer]

/-- Two numbers can be operated on. -/
theorem brought (ha : a.rat? = some x) (hb : b.rat? = some y) : Brought a b x y := by
  by_cases htags : a.typeTag = .int ∧ b.typeTag = .int
  · obtain ⟨m, hm⟩ := Value.typeTag_eq_int_iff.1 htags.1
    obtain ⟨n, hn⟩ := Value.typeTag_eq_int_iff.1 htags.2
    have hx : (m.val : ℚ) = x := Option.some.inj ((Value.rat?_of_integer? hm).symm.trans ha)
    have hy : (n.val : ℚ) = y := Option.some.inj ((Value.rat?_of_integer? hn).symm.trans hb)
    exact .integers m n hx hy htags (by simp only [of?, hm, hn])
  · obtain ⟨c, hc, rfl⟩ := Option.map_eq_some_iff.1 ha
    obtain ⟨d, hd, rfl⟩ := Option.map_eq_some_iff.1 hb
    exact .decimals c d rfl rfl htags (of?_eq_decimals hc hd htags)

/-- Nothing but numbers can. -/
theorem of?_eq_none (h : a.rat? = none ∨ b.rat? = none) : of? a b = none := by
  simp only [Value.rat?, Option.map_eq_none_iff] at h
  rw [of?]
  split
  case h_1 m n hm hn =>
    have hnumber {v : Value} {k : Integer} (hv : v.integer? = some k) : v.number? ≠ none :=
      fun hno ↦ absurd (Value.rat?_of_integer? hv) (by simp [Value.rat?, hno])
    exact absurd h (not_or.2 ⟨hnumber hm, hnumber hn⟩)
  case h_2 =>
    rcases h with h | h
    · simp only [h]
    · rw [h]
      cases a.number? <;> rfl

end Operands

/-! ### Operations on numbers -/

namespace Value

variable {a b : Value} {x y : ℚ}

/-- An integer result is the integer of that value, if there is one. -/
theorem ofInt_eq (n : Int) :
    if Integer.InRange n then ∃ v, ofInt n = .ok v ∧ v.IsNumber n .int
    else ofInt n = .error .integerOverflow := by
  rcases hk : Integer.ofInt? n with - | k
  · rw [if_neg (Integer.ofInt?_eq_none_iff_not_inRange.1 hk), ofInt, hk]
  · obtain rfl := Integer.ofInt?_eq_some_iff.1 hk
    rw [if_pos k.inRange_val, ofInt, hk]
    exact ⟨.int k, rfl, .int rfl⟩

/-- An operation that is exact on integers and on decimals is exact on all numbers, and fails on
integers out of range only. -/
theorem arithmetic_eq {attempt : Fault.Attempt} {onInt : Int → Int → Int}
    {onDecimal : Decimal → Decimal → Decimal} {f : ℚ → ℚ → ℚ}
    (hint : ∀ m n, ((onInt m n : Int) : ℚ) = f m n)
    (hdecimal : ∀ c d, (onDecimal c d).toRat = f c.toRat d.toRat)
    (ha : a.rat? = some x) (hb : b.rat? = some y) :
    if a.typeTag = .int ∧ b.typeTag = .int ∧ ¬ Integer.InRange (f x y) then
      arithmetic attempt onInt onDecimal a b = .error .integerOverflow
    else ∃ v, arithmetic attempt onInt onDecimal a b = .ok v ∧
      v.IsNumber (f x y) (a.typeTag.promoted b.typeTag) := by
  cases Operands.brought ha hb with
  | integers m n hm hn htags hform =>
    have hresult := ofInt_eq (onInt m.val n.val)
    rw [hint, hm, hn] at hresult
    simp only [arithmetic, hform, TypeTag.promoted, htags, true_and, and_true, if_true]
    by_cases hrange : Integer.InRange (f x y)
    · rw [if_pos hrange] at hresult
      rwa [if_neg (not_not.2 hrange)]
    · rw [if_neg hrange] at hresult
      rwa [if_pos hrange]
  | decimals c d hc hd htags hform =>
    rw [if_neg fun h ↦ htags ⟨h.1, h.2.1⟩, arithmetic, hform, TypeTag.promoted, if_neg htags]
    exact ⟨_, rfl, .decimal (by rw [hdecimal, hc, hd])⟩

/-- The quotient of decimals is zero if the divisor is zero, in any representation. -/
theorem quotient_eq (p : Precision) (c d : Decimal) :
    if d.toRat = 0 then quotient p c d = .int 0
    else ∃ e, quotient p c d = .decimal p e ∧ Decimal.IsQuotient (c.toRat / d.toRat) e := by
  rw [quotient]
  by_cases hzero : d.toRat = 0
  · rw [if_pos hzero, if_pos (Decimal.toRat_eq_zero_iff.1 hzero)]
  · rw [if_neg hzero, if_neg (mt Decimal.toRat_eq_zero_iff.2 hzero)]
    exact ⟨c.div d, rfl, Decimal.isQuotient_div c hzero⟩

/-- Division of numbers never fails. -/
theorem divide_eq (ha : a.rat? = some x) (hb : b.rat? = some y) :
    if y = 0 then a.divide b = .ok (.int 0)
    else ∃ d, a.divide b = .ok (.decimal (a.typeTag.finer b.typeTag) d) ∧
      Decimal.IsQuotient (x / y) d := by
  obtain ⟨c, d, rfl, rfl, hform⟩ : ∃ c d : Decimal, c.toRat = x ∧ d.toRat = y ∧
      a.divide b = .ok (quotient (a.typeTag.finer b.typeTag) c d) := by
    cases Operands.brought ha hb with
    | integers m n hm hn htags hform =>
      refine ⟨.ofInt m.val, .ofInt n.val, by simpa using hm, by simpa using hn, ?_⟩
      simp only [divide, hform, htags.1, htags.2]
      rfl
    | decimals c d hc hd htags hform => exact ⟨c, d, hc, hd, by simp only [divide, hform]⟩
  have hquotient := quotient_eq (a.typeTag.finer b.typeTag) c d
  rw [hform]
  split at hquotient
  case isTrue hzero => rw [if_pos hzero, hquotient]
  case isFalse hzero =>
    obtain ⟨e, he, hvalue⟩ := hquotient
    rw [if_neg hzero, he]
    exact ⟨e, rfl, hvalue⟩

/-- Addition joins texts and appends lists, and is arithmetic on all else. -/
theorem add_eq_arithmetic (h : ¬ (a.rat? = none ∧ b.rat? = none)) :
    a.add b = arithmetic .add (· + ·) Decimal.add a b := by
  unfold add
  split
  case h_1 s t => exact absurd ⟨rfl, rfl⟩ h
  case h_2 xs ys => exact absurd ⟨rfl, rfl⟩ h
  case h_3 => rfl

end Value

namespace BinaryOperator

/-- The operators that are exact on numbers, with what they compute. -/
inductive Computes : BinaryOperator → (ℚ → ℚ → ℚ) → Prop
  /-- Sums. -/
  | add : Computes .add (· + ·)
  /-- Differences. -/
  | subtract : Computes .subtract (· - ·)
  /-- Products. -/
  | multiply : Computes .multiply (· * ·)

/-- What addition makes of two texts, and of two lists of one kind of items. -/
inductive Joins : Value → Value → Value → Prop
  /-- One text behind the other. -/
  | texts (s t : String) : Joins (.text s) (.text t) (.text (s ++ t))
  /-- The items of one list behind those of the other. -/
  | lists {xs ys zs : ItemList} (hkind : xs.itemType = ys.itemType)
    (hresult : zs.itemType = xs.itemType) (hvalues : zs.values = xs.values ++ ys.values) :
    Joins (.list xs) (.list ys) (.list zs)

variable {a b : Value} {x y : ℚ} {op : BinaryOperator} {f : ℚ → ℚ → ℚ}

theorem apply_eq (hop : op.Computes f) (ha : a.rat? = some x) (hb : b.rat? = some y) :
    if a.typeTag = .int ∧ b.typeTag = .int ∧ ¬ Integer.InRange (f x y) then
      op.apply a b = .error .integerOverflow
    else ∃ v, op.apply a b = .ok v ∧ v.IsNumber (f x y) (a.typeTag.promoted b.typeTag) := by
  cases hop with
  | add =>
    rw [apply, Value.add_eq_arithmetic (by simp [ha])]
    exact Value.arithmetic_eq (fun m n ↦ by push_cast; rfl) Decimal.toRat_add ha hb
  | subtract => exact Value.arithmetic_eq (fun m n ↦ by push_cast; rfl) Decimal.toRat_sub ha hb
  | multiply => exact Value.arithmetic_eq (fun m n ↦ by push_cast; rfl) Decimal.toRat_mul ha hb

/-! ### Operations on what is no number -/

/-- Text and lists are not subtracted, multiplied or divided, and nothing by them. -/
theorem exists_apply_eq_error (hop : op = subtract ∨ op = multiply ∨ op = divide)
    (h : a.rat? = none ∨ b.rat? = none) :
    ∃ e, op.apply a b = .error e ∧ e.category = .type := by
  have hform := Operands.of?_eq_none h
  rcases hop with rfl | rfl | rfl
  · exact ⟨_, by rw [apply, Value.arithmetic, hform], rfl⟩
  · exact ⟨_, by rw [apply, Value.arithmetic, hform], rfl⟩
  · exact ⟨_, by rw [apply, Value.divide, hform], rfl⟩

/-- Text and lists are joined to their own kind, and added to nothing else. -/
theorem apply_add_eq (h : a.rat? = none ∨ b.rat? = none) :
    (∃ v, Joins a b v ∧ add.apply a b = .ok v) ∨
      (¬ ∃ v, Joins a b v) ∧ ∃ e, add.apply a b = .error e ∧ e.category = .type := by
  rw [apply]
  unfold Value.add
  split
  case h_1 s t => exact .inl ⟨_, .texts s t, rfl⟩
  case h_2 xs ys =>
    have hkind := @ItemList.append?_isSome_iff xs ys
    rcases hzs : xs.append? ys with - | zs
    · rw [hzs] at hkind
      exact .inr ⟨fun ⟨_, .lists hsame _ _⟩ ↦ absurd (hkind.2 hsame) (by simp), _, rfl, rfl⟩
    · obtain ⟨hvalues, hresult⟩ := ItemList.values_append hzs
      rw [hzs] at hkind
      exact .inl ⟨_, .lists (hkind.1 rfl) hresult hvalues, rfl⟩
  case h_3 htexts hlists =>
    refine .inr ⟨?_, _, by rw [Value.arithmetic, Operands.of?_eq_none h], rfl⟩
    rintro ⟨v, hjoins⟩
    cases hjoins with
    | texts s t => exact htexts s t rfl rfl
    | lists hkind hresult hvalues => exact hlists _ _ rfl rfl

/-- Arithmetic on two values. The sum, the difference and the product of two numbers are exact, of
the type that the two are promoted to; they fail exactly if neither of the two is a decimal and the
result is out of range, which is a failure of expressions. The quotient of two numbers never fails:
it is the integer zero if the divisor is zero, and otherwise a decimal of the finer precision. If
one of the two is no number, all four fail with a type error, but for the sum of two texts and of
two lists of one kind of items. Decimals are taken without a limit on their scales, so this is about
decimals in 64 bits of scale as long as the scale of the result fits. -/
theorem apply_numbers (a b : Value) :
    (∀ x y : ℚ, a.rat? = some x → b.rat? = some y →
      (∀ op f, Computes op f →
        if a.typeTag = .int ∧ b.typeTag = .int ∧ ¬ Integer.InRange (f x y) then
          op.apply a b = .error .integerOverflow
        else ∃ v, op.apply a b = .ok v ∧ v.IsNumber (f x y) (a.typeTag.promoted b.typeTag)) ∧
      if y = 0 then divide.apply a b = .ok (.int 0)
      else ∃ d, divide.apply a b = .ok (.decimal (a.typeTag.finer b.typeTag) d) ∧
        Decimal.IsQuotient (x / y) d) ∧
    (a.rat? = none ∨ b.rat? = none →
      (∀ op, op = subtract ∨ op = multiply ∨ op = divide →
        ∃ e, op.apply a b = .error e ∧ e.category = .type) ∧
      ((∃ v, Joins a b v ∧ add.apply a b = .ok v) ∨
        (¬ ∃ v, Joins a b v) ∧ ∃ e, add.apply a b = .error e ∧ e.category = .type)) ∧
    Fault.integerOverflow.category = .expression :=
  ⟨fun _ _ ha hb ↦ ⟨fun _ _ hop ↦ apply_eq hop ha hb, Value.divide_eq ha hb⟩,
    fun h ↦ ⟨fun _ hop ↦ exists_apply_eq_error hop h, apply_add_eq h⟩, rfl⟩

/-- A product of two precisions, a difference below the range, a quotient by a zero with places, and
a sum of text and a number. -/
theorem apply_numbers_mixed :
    let least : Integer := ⟨-9223372036854775808, by decide, by decide⟩
    (∃ v, multiply.apply (.decimal .fifteen ⟨-15, 1⟩) (.decimal .seven ⟨3, 0⟩) = .ok v ∧
      v.IsNumber (-9 / 2) (.decimal .fifteen)) ∧
    subtract.apply (.int least) (.bool true) = .error .integerOverflow ∧
    divide.apply (.int 1) (.decimal .seven ⟨0, 2⟩) = .ok (.int 0) ∧
    ∃ e, add.apply (.text "a") (.int 1) = .error e ∧ e.category = .type := by
  intro least
  have hfirst : (Value.decimal .fifteen ⟨-15, 1⟩).rat? = some (-3 / 2) := by
    norm_num [Value.rat?, Value.number?, Decimal.toRat]
  have hsecond : (Value.decimal .seven ⟨3, 0⟩).rat? = some 3 := by
    norm_num [Value.rat?, Value.number?, Decimal.toRat]
  have hleast : (Value.int least).rat? = some (-9223372036854775808) := by
    simp [Value.rat?, Value.number?, least]
  have hone (v : Value) (hv : v = .int 1 ∨ v = .bool true) : v.rat? = some 1 := by
    rcases hv with rfl | rfl <;> simp [Value.rat?, Value.number?, Integer.ofBool]
  have hzero : (Value.decimal .seven ⟨0, 2⟩).rat? = some 0 := by
    simp [Value.rat?, Value.number?, Decimal.toRat]
  refine ⟨?_, ?_, ?_, ?_⟩
  · have h := ((apply_numbers _ _).1 _ _ hfirst hsecond).1 _ _ .multiply
    rw [if_neg (by decide), show (-3 / 2 : ℚ) * 3 = -9 / 2 by norm_num] at h
    exact h
  · have h := ((apply_numbers _ _).1 _ _ hleast (hone _ (.inr rfl))).1 _ _ .subtract
    rwa [if_pos ⟨rfl, rfl, by norm_num [Integer.InRange]⟩] at h
  · have h := ((apply_numbers _ _).1 _ _ (hone _ (.inl rfl)) hzero).2
    rwa [if_pos rfl] at h
  · have h := ((apply_numbers (.text "a") (.int 1)).2.1 (.inl rfl)).2
    refine (h.resolve_left ?_).2
    rintro ⟨v, hjoins, -⟩
    cases hjoins

end BinaryOperator

end Haklang

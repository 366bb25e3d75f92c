/-!
# Exact decimals

A decimal is an integer of digits together with a scale: `⟨n, s⟩` stands for `n · 10 ^ (-s)`. The
scale may be negative. Several pairs stand for one number, and arithmetic keeps the pair it
computes: a sum has the larger scale, a product the sum of the scales. There are two exceptions, in
which the other operand stays as it is: a difference with zero (`sub_of_isZero`, `isZero_sub`), and
a product with a one that is written with few places (`Decimal.isOne`, `mul_of_isOne`). Only
`Decimal.compare` and `Decimal.normal` look through the pair.

A decimal that is read has a scale of at most 64 bits, and that bound ends with reading: digits and
scales are unbounded here, so arithmetic on decimals is total and exact at every scale. A decimal
that keeps its scale in 64 bits agrees with it as long as the scales of results do; where a product,
a power or a quotient would leave them, nothing here describes it.

A scale can be as large as 64 bits allow while the number itself is tiny or huge, so a power of ten
is formed only where the answer needs its digits: `shift` leaves zero alone, and `compareShifted`
first sees whether the number of binary digits already decides (`shift_eq`, `compareShifted_eq`
say that neither changes the result).
-/

namespace Haklang

-- Powers are those of the core library, whatever other instances are in sight.
attribute [local instance (high)] instPowNat

/-- The number `digits · 10 ^ (-scale)`. -/
structure Decimal where
  /-- All digits, without the point. -/
  digits : Int
  /-- How many of the digits stand after the point. -/
  scale : Int
deriving DecidableEq, Repr

namespace Decimal

instance : Inhabited Decimal := ⟨⟨0, 0⟩⟩

/-- A whole number. -/
def ofInt (n : Int) : Decimal := ⟨n, 0⟩

/-- The number zero, in any of its representations. -/
def isZero (d : Decimal) : Bool := d.digits == 0

@[simp] theorem isZero_iff {d : Decimal} : d.isZero = true ↔ d.digits = 0 := by simp [isZero]

/-- Appends `k` zeros to the digits of a number. -/
def shift (n : Int) (k : Nat) : Int := if n = 0 then 0 else n * 10 ^ k

@[simp] theorem shift_eq (n : Int) (k : Nat) : shift n k = n * 10 ^ k := by
  by_cases h : n = 0 <;> simp [shift, h]

/-- The opposite number. -/
def neg (d : Decimal) : Decimal := ⟨-d.digits, d.scale⟩

/-- The sum, at the larger of the two scales. -/
def add (a b : Decimal) : Decimal :=
  if a.scale ≤ b.scale then
    ⟨shift a.digits (b.scale - a.scale).toNat + b.digits, b.scale⟩
  else
    ⟨a.digits + shift b.digits (a.scale - b.scale).toNat, a.scale⟩

/-- The difference, at the larger of the two scales. When one of the two is zero, the difference
is the other one or its opposite, at that one's scale. -/
def sub (a b : Decimal) : Decimal :=
  if b.isZero then a else if a.isZero then b.neg else add a b.neg

/-- Taking away zero changes nothing, not even the scale. -/
theorem sub_of_isZero {a b : Decimal} (h : b.isZero = true) : a.sub b = a := by rw [sub, if_pos h]

/-- Taking away from zero is taking the opposite, at the same scale. -/
theorem isZero_sub {a b : Decimal} (ha : a.isZero = true) (hb : b.isZero = false) :
    a.sub b = b.neg := by
  rw [sub, if_neg (by simp [hb]), if_pos ha]

/-- The most places with which a one is recognized. -/
def onePlaces : Int := 38

/-- Whether the number is one, written with at most `onePlaces` places. -/
def isOne (d : Decimal) : Bool :=
  0 ≤ d.scale && d.scale ≤ onePlaces && d.digits == 10 ^ d.scale.toNat

/-- A recognized one has the digit one and as many zeros as places. -/
theorem digits_of_isOne {d : Decimal} (h : d.isOne = true) :
    0 ≤ d.scale ∧ d.digits = 10 ^ d.scale.toNat := by
  simp only [isOne, Bool.and_eq_true, decide_eq_true_eq, beq_iff_eq] at h
  exact ⟨h.1.1, h.2⟩

/-- The product. A recognized one leaves the other factor as it is. -/
def mul (a b : Decimal) : Decimal :=
  if a.isOne then b else if b.isOne then a else ⟨a.digits * b.digits, a.scale + b.scale⟩

/-- A product with a recognized one on the left is the right factor. -/
theorem mul_of_isOne {a b : Decimal} (h : a.isOne = true) : a.mul b = b := by rw [mul, if_pos h]

/-- The product of `r` and `n` factors `d`, by repeated squaring: the last bit of the exponent says
whether `d` itself is a factor, and the other bits count its square. -/
def mulPow (r d : Decimal) (n : Nat) : Decimal :=
  if n = 0 then r else mulPow (if n % 2 = 1 then d.mul r else r) (d.mul d) (n / 2)
termination_by n

/-- The product of `n` factors `d`. -/
def pow (d : Decimal) (n : Nat) : Decimal := mulPow (ofInt 1) d n

@[simp] theorem mulPow_zero (r d : Decimal) : mulPow r d 0 = r := by rw [mulPow, if_pos rfl]

theorem mulPow_of_ne_zero {n : Nat} (h : n ≠ 0) (r d : Decimal) :
    mulPow r d n = mulPow (if n % 2 = 1 then d.mul r else r) (d.mul d) (n / 2) := by
  rw [mulPow, if_neg h]

@[simp] theorem pow_zero (d : Decimal) : d.pow 0 = ofInt 1 := mulPow_zero _ _

/-! ### Order of the numbers -/

/-- How `a` compares with `b · 10 ^ k`. When `a` has so few binary digits that the power alone
exceeds it, the sign of `b` decides. -/
def compareShifted (a b : Int) (k : Nat) : Ordering :=
  if b ≠ 0 ∧ a.natAbs.log2 + 1 ≤ 3 * k then Ord.compare 0 b
  else Ord.compare a (shift b k)

theorem natAbs_lt_ten_pow {a : Nat} {k : Nat} (h : a.log2 + 1 ≤ 3 * k) : a < 10 ^ k := by
  have h1 : a < 2 ^ (a.log2 + 1) := Nat.lt_log2_self
  have h2 : 2 ^ (a.log2 + 1) ≤ 2 ^ (3 * k) := Nat.pow_le_pow_right (by decide) h
  have h3 : (2 : Nat) ^ (3 * k) ≤ 10 ^ k := by
    rw [Nat.pow_mul]
    exact Nat.pow_le_pow_left (by decide) k
  omega

/-- The shortcut through the sign does not change the order. -/
theorem compareShifted_eq (a b : Int) (k : Nat) :
    compareShifted a b k = Ord.compare a (b * 10 ^ k) := by
  by_cases h : b ≠ 0 ∧ a.natAbs.log2 + 1 ≤ 3 * k
  · rw [compareShifted, if_pos h]
    have hlt := natAbs_lt_ten_pow h.2
    have hp : (0 : Int) < 10 ^ k := Int.pow_pos (by decide)
    have hcast : ((10 ^ k : Nat) : Int) = (10 : Int) ^ k := by simp
    rcases Int.lt_or_gt_of_ne h.1 with hb | hb
    · have : b * 10 ^ k ≤ -1 * 10 ^ k :=
        Int.mul_le_mul_of_nonneg_right (by omega) (Int.le_of_lt hp)
      have ha : b * 10 ^ k < a := by omega
      simp [compareOfLessAndEq, Ord.compare, Int.not_lt.2 (Int.le_of_lt hb), Ne.symm h.1,
        Int.not_lt.2 (Int.le_of_lt ha), (Int.ne_of_lt ha).symm]
    · have : 1 * 10 ^ k ≤ b * 10 ^ k :=
        Int.mul_le_mul_of_nonneg_right (by omega) (Int.le_of_lt hp)
      have ha : a < b * 10 ^ k := by omega
      simp [compareOfLessAndEq, Ord.compare, hb, ha]
  · rw [compareShifted, if_neg h, shift_eq]

/-- The order of the numbers, whatever their scales. -/
def compare (a b : Decimal) : Ordering :=
  if a.scale ≤ b.scale then
    (compareShifted b.digits a.digits (b.scale - a.scale).toNat).swap
  else
    compareShifted a.digits b.digits (a.scale - b.scale).toNat

/-! ### One representation for each number -/

/-- Drops up to `n` zeros from the end of the digits. -/
def dropZeros : Nat → Decimal → Decimal
  | 0, d => d
  | n + 1, d => if d.digits % 10 = 0 then dropZeros n ⟨d.digits / 10, d.scale - 1⟩ else d

/-- The representation without zeros at the end of the digits; zero has scale zero. -/
def normal (d : Decimal) : Decimal :=
  if d.digits = 0 then ⟨0, 0⟩ else dropZeros d.digits.natAbs.log2 d

end Decimal

end Haklang

import Haklang.Number.Numeral
import Haklang.Number.Decimal.Basic

/-!
# Quotients of decimals

A quotient is computed digit by digit. The dividend's digits are first extended with zeros until
they are not below the divisor's, so that the integer quotient is positive; then digits are
appended until nothing remains or the quotient has `Quotient.precision` digits, and what still
remains rounds the last digit half up. An integer quotient that is longer from the start is kept
whole, and so is a dividend that is divided by a one of few places.

The partial results satisfy `dividend · 10 ^ added = quotient · divisor + remainder`
(`extend_eq`, `long_eq`), which is what the value of a quotient rests on.
-/

namespace Haklang

-- Powers are those of the core library, whatever other instances are in sight.
attribute [local instance (high)] instPowNat

namespace Decimal

/-- Significant digits of a quotient that does not come out even. -/
def Quotient.precision : Nat := 100

/-- Extends `n` with zeros until it is not below `m`; also says how many were needed. -/
def extend (m n : Nat) : Nat × Nat :=
  if 0 < n ∧ n < m then
    let p := extend m (n * 10)
    (p.1, p.2 + 1)
  else (n, 0)
termination_by m - n

theorem extend_of_lt {m n : Nat} (h : 0 < n ∧ n < m) :
    extend m n = ((extend m (n * 10)).1, (extend m (n * 10)).2 + 1) := by
  rw [extend, if_pos h]

theorem extend_of_not {m n : Nat} (h : ¬ (0 < n ∧ n < m)) : extend m n = (n, 0) := by
  rw [extend, if_neg h]

/-- Extending appends exactly the zeros that it counts. -/
theorem extend_eq (m n : Nat) : (extend m n).1 = n * 10 ^ (extend m n).2 := by
  induction n using extend.induct m with
  | case1 n h ih =>
    rw [extend_of_lt h]
    simp only [ih, Nat.pow_succ, Nat.mul_assoc, Nat.mul_comm (10 ^ _) 10]
  | case2 n h => simp [extend_of_not h]

/-- A positive number is extended until it is not below the divisor. -/
theorem le_extend {m n : Nat} (hn : 0 < n) : m ≤ (extend m n).1 := by
  induction n using extend.induct m with
  | case1 n h ih =>
    rw [extend_of_lt h]
    exact ih (by omega)
  | case2 n h =>
    rw [extend_of_not h]
    simp only
    omega

/-- Long division by `m`: from a quotient and a remainder, up to so many further digits. Stops
early when nothing remains. Answers with the quotient, the remainder and the number of digits. -/
def long (m : Nat) : Nat → Nat → Nat → Nat × Nat × Nat
  | 0, q, r => (q, r, 0)
  | n + 1, q, r =>
    if r = 0 then (q, 0, 0)
    else
      let (q', r', k) := long m n (q * 10 + r * 10 / m) (r * 10 % m)
      (q', r', k + 1)

/-- Long division keeps `quotient · divisor + remainder`, up to the digits that it appends. -/
theorem long_eq (m n q r : Nat) :
    (long m n q r).1 * m + (long m n q r).2.1 = (q * m + r) * 10 ^ (long m n q r).2.2 := by
  induction n generalizing q r with
  | zero => simp [long]
  | succ n ih =>
    by_cases h : r = 0
    · simp [long, h]
    · simp only [long, h, if_false, ih, Nat.pow_succ]
      have hdiv : (q * 10 + r * 10 / m) * m + r * 10 % m = (q * m + r) * 10 := by
        have hd := Nat.div_add_mod (r * 10) m
        rw [Nat.mul_comm m] at hd
        rw [Nat.add_mul, Nat.add_mul, Nat.mul_right_comm q 10 m]
        omega
      rw [hdiv, Nat.mul_assoc, Nat.mul_comm 10]

/-- The digits and the scale of the quotient of `n` by `m`, both positive. -/
def quotientNat (n m : Nat) : Nat × Nat :=
  let (n', k) := extend m n
  let q := n' / m
  let (q', r, added) := long m (Quotient.precision - (Numeral.write q).length) q (n' % m)
  (if m ≤ 2 * r then q' + 1 else q', k + added)

/-- The quotient `a / b`. The callers keep the divisor from being zero. A dividend of zero is its
own quotient, and so is every dividend when the divisor is recognized as one. -/
def div (a b : Decimal) : Decimal :=
  if a.isZero || b.isOne then a
  else
    let (q, k) := quotientNat a.digits.natAbs b.digits.natAbs
    let digits : Int := if a.digits < 0 ↔ b.digits < 0 then q else -q
    ⟨digits, a.scale - b.scale + k⟩

/-- Dividing by a recognized one changes nothing, however many digits there are. -/
theorem div_of_isOne {a b : Decimal} (h : b.isOne = true) : a.div b = a := by
  rw [div, if_pos (by simp [h])]

example : div ⟨1, 0⟩ ⟨8, 0⟩ = ⟨125, 3⟩ := by cbv

example : div ⟨250, 2⟩ ⟨10, 1⟩ = ⟨250, 2⟩ := by decide

/-- An integer power; the power to a negative exponent is the quotient of one by the power. -/
def zpow (d : Decimal) (e : Int) : Decimal :=
  if 0 ≤ e then d.pow e.toNat else div (ofInt 1) (d.pow e.natAbs)

end Decimal

end Haklang

import Haklang.Number.Binary64
import Haklang.Number.Decimal.Quotient
import Haklang.Value.Conversion
import Haklang.Value.Order
import Haklang.Fault

/-!
# Operators on values

The operators of expressions and conditions. An arithmetic operator first brings its two operands
into one form (`Operands.of?`): two integers, or two decimals of the precision of the result. On
integers it is checked against 64 bits, on decimals it is exact; what is neither fails with the
kinds of both operands.

Powers are exact as long as the exponent is a whole number of at most `Power.exactLimit` in
magnitude; beyond that they go through binary floating point. An exponent with places that is a
whole number is held in 64 bits to be compared with this limit, and its magnitude is taken there. So
the least integer, whose magnitude needs one bit more, stops the run (`Fault.noMagnitude`).
-/

namespace Haklang

-- Powers are those of the core library, whatever other instances are in sight.
attribute [local instance (high)] instPowNat

/-- The operators between two expressions. -/
inductive BinaryOperator where
  /-- Appends lists or items, and joins all else as text. -/
  | join
  /-- The greater operand, the left one if they are equal. -/
  | max
  /-- Power. -/
  | power
  /-- Product. -/
  | multiply
  /-- Quotient, always a decimal. -/
  | divide
  /-- Sum; joins text and appends lists. -/
  | add
  /-- Difference. -/
  | subtract
deriving DecidableEq, Repr

namespace Integer

/-- The power of an integer, if it is in range. Exponents of 64 and more leave the range unless the
base is zero or one in magnitude, whose powers depend on the parity of the exponent alone. -/
def pow? (b : Integer) (e : Nat) : Option Integer :=
  if b.val.natAbs ≤ 1 then ofInt? (b.val ^ (if e = 0 then 0 else 2 - e % 2))
  else if 64 ≤ e then none
  else ofInt? (b.val ^ e)

theorem pow_eq_of_natAbs_le_one {b : Int} (hb : b.natAbs ≤ 1) (e : Nat) :
    b ^ (if e = 0 then 0 else 2 - e % 2) = b ^ e := by
  have hcases : b = 0 ∨ b = 1 ∨ b = -1 := by omega
  by_cases he : e = 0
  · simp [he]
  · rw [if_neg he]
    have hpos : 0 < 2 - e % 2 := by omega
    rcases hcases with rfl | rfl | rfl
    · rw [Int.zero_pow (by omega), Int.zero_pow he]
    · rw [Int.one_pow, Int.one_pow]
    · rcases Nat.mod_two_eq_zero_or_one e with h | h
      · obtain ⟨k, rfl⟩ : ∃ k, e = 2 * k := ⟨e / 2, by omega⟩
        rw [h, Int.pow_mul, show (-1 : Int) ^ 2 = 1 from rfl, Int.one_pow]
      · obtain ⟨k, rfl⟩ : ∃ k, e = 2 * k + 1 := ⟨e / 2, by omega⟩
        rw [h, Int.pow_succ (-1) (2 * k), Int.pow_mul, show (-1 : Int) ^ 2 = 1 from rfl,
          Int.one_pow]
        rfl

/-- The shortcuts do not change the power. -/
theorem pow?_eq (b : Integer) (e : Nat) : b.pow? e = ofInt? (b.val ^ e) := by
  unfold pow?
  split
  case isTrue h => rw [pow_eq_of_natAbs_le_one h]
  case isFalse h =>
    split
    case isFalse => rfl
    case isTrue he =>
      symm
      rw [ofInt?_eq_none_iff]
      have h1 : 2 ^ 64 ≤ (b.val ^ e).natAbs := by
        rw [Int.natAbs_pow]
        calc 2 ^ 64 ≤ 2 ^ e := Nat.pow_le_pow_right (by decide) he
          _ ≤ b.val.natAbs ^ e := Nat.pow_le_pow_left (by omega) e
      omega

end Integer

namespace Value

/-- The integer that a value is, if it is one; truth values are. -/
def integer? : Value → Option Integer
  | int n => some n
  | bool b => some (.ofBool b)
  | _ => none

/-- The precision of a decimal. -/
def precision? : Value → Option Precision
  | decimal p _ => some p
  | _ => none

end Value

/-- Two numeric operands in the form in which their operation is carried out. -/
inductive Operands where
  /-- Neither operand is a decimal. -/
  | integers (a b : Integer)
  /-- An operand is a decimal; the result has the given precision. -/
  | decimals (p : Precision) (a b : Decimal)

/-- The common form of two numeric values: fifteen places if either has them, and otherwise seven
if either is a decimal. -/
def Operands.of? (a b : Value) : Option Operands :=
  match a.integer?, b.integer? with
  | some x, some y => some (integers x y)
  | _, _ =>
    match a.number?, b.number? with
    | some x, some y =>
      let wide := a.precision? = some .fifteen ∨ b.precision? = some .fifteen
      some (decimals (if wide then .fifteen else .seven) x y)
    | _, _ => none

/-- The integer that a decimal is, if it is whole and in range. -/
def Decimal.integer? (d : Decimal) : Option Integer :=
  let n := d.units .towardZero 0
  if d.compare (.ofInt n) = .eq then Integer.ofInt? n else none

/-- The largest magnitude of a whole exponent for which powers are computed exactly. -/
def Power.exactLimit : Nat := 10000

/-- The largest exponent that an integer power accepts. -/
def Power.exponentLimit : Nat := 4294967295

namespace Value

/-- An integer result, if it is in range. -/
def ofInt (n : Int) : Except Fault Value :=
  match Integer.ofInt? n with
  | some n => .ok (int n)
  | none => .error .integerOverflow

/-- An operation that acts alike on integers and on decimals. -/
def arithmetic (attempt : Fault.Attempt) (onInt : Int → Int → Int)
    (onDecimal : Decimal → Decimal → Decimal) (a b : Value) : Except Fault Value :=
  match Operands.of? a b with
  | some (.integers x y) => ofInt (onInt x.val y.val)
  | some (.decimals p x y) => .ok (decimal p (onDecimal x y))
  | none => .error (.operands attempt a.kind b.kind)

/-- The quotient of two decimals, and the integer zero if the divisor is zero. -/
def quotient (p : Precision) (x y : Decimal) : Value :=
  if y.isZero then int 0 else decimal p (x.div y)

/-- Division: two integers have a quotient of seven places. -/
def divide (a b : Value) : Except Fault Value :=
  match Operands.of? a b with
  | some (.integers x y) => .ok (quotient .seven (.ofInt x.val) (.ofInt y.val))
  | some (.decimals p x y) => .ok (quotient p x y)
  | none => .error (.operands .divide a.kind b.kind)

/-- A power in binary floating point. -/
def floatPower (p : Precision) (base exponent : Decimal) : Except Fault Value :=
  let x := base.toFloat
  let y := exponent.toFloat
  if x < 0 ∧ ¬ Binary64.isWhole y then .error .negativeBase
  else
    match Decimal.ofFloat? (x.pow y) with
    | some d => .ok (decimal p d)
    | none => .error .powerRange

/-- A power of a decimal to a whole exponent. -/
def wholePower (p : Precision) (base : Decimal) (e : Int) : Except Fault Value :=
  if base.isZero ∧ e < 0 then .error .zeroToNegative
  else .ok (decimal p (base.zpow e))

/-- The power of two integers: an integer for a natural exponent, a decimal for a negative one. -/
def integerPower (b e : Integer) : Except Fault Value :=
  if 0 ≤ e.val then
    if e.val ≤ Power.exponentLimit then
      match b.pow? e.val.toNat with
      | some n => .ok (int n)
      | none => .error .integerOverflow
    else .error .integerOverflow
  else if b.val = 0 then .error .zeroToNegative
  else if e.val < -Power.exactLimit then floatPower .seven (.ofInt b.val) (.ofInt e.val)
  else wholePower .seven (.ofInt b.val) e.val

/-- The power of two decimals. That an exponent is within the limit is seen from its magnitude,
which the least integer does not have. -/
def decimalPower (p : Precision) (base exponent : Decimal) : Except Fault Value :=
  match exponent.integer? with
  | none => floatPower p base exponent
  | some e =>
    match e.magnitude? with
    | none => .error .noMagnitude
    | some k =>
      if k.val ≤ Power.exactLimit then wholePower p base e.val else floatPower p base exponent

/-- The power of two values. -/
def power (a b : Value) : Except Fault Value :=
  match Operands.of? a b with
  | some (.integers x y) => integerPower x y
  | some (.decimals p x y) => decimalPower p x y
  | none => .error (.operands .raise a.kind b.kind)

/-- The sum; two texts are joined, and two lists of one kind of items are appended. -/
def add (a b : Value) : Except Fault Value :=
  match a, b with
  | text s, text t => .ok (text (s ++ t))
  | list xs, list ys =>
    match xs.append? ys with
    | some zs => .ok (list zs)
    | none => .error (.addLists xs.itemType ys.itemType)
  | a, b => arithmetic .add (· + ·) Decimal.add a b

/-- Two lists of one kind of items are appended, a single value on the right of a list becomes its
last item, and all else is joined as text. -/
def join (a b : Value) : Except Fault Value :=
  match a, b with
  | list xs, list ys =>
    match xs.append? ys with
    | some zs => .ok (list zs)
    | none => .ok (text (a.render ++ b.render))
  | list xs, b =>
    match xs.push? b with
    | some ys => .ok (list ys)
    | none => .error (.appendTo b.kind xs.itemType)
  | a, b => .ok (text (a.render ++ b.render))

/-- How two values compare, as an operation that fails when they cannot be compared. -/
def order (a b : Value) : Except Fault Ordering :=
  match a.compare? b with
  | some o => .ok o
  | none => .error (.operands .compare a.kind b.kind)

/-- The greater value, the left one if they are equal. The right value is the one that is compared
with the left. -/
def max (a b : Value) : Except Fault Value :=
  (b.order a).map fun o ↦ if o = .gt then b else a

/-- Whether two values are in a relation. Equality never fails. -/
def relate (r : Relation) (a b : Value) : Except Fault Bool :=
  if r = .eq then .ok (a.equals b) else (a.order b).map r.holdsFor

/-- The opposite: of a number, of the order of characters or items, of a truth value. -/
def negate : Value → Except Fault Value
  | int n => ofInt (-n.val)
  | decimal p d => .ok (decimal p d.neg)
  | text s => .ok (text (String.ofList s.toList.reverse))
  | list xs => .ok (list xs.reverse)
  | bool b => .ok (bool !b)

end Value

/-- The value of an operator on two values. -/
def BinaryOperator.apply : BinaryOperator → Value → Value → Except Fault Value
  | join => Value.join
  | max => Value.max
  | power => Value.power
  | multiply => Value.arithmetic .multiply (· * ·) Decimal.mul
  | divide => Value.divide
  | add => Value.add
  | subtract => Value.arithmetic .subtract (· - ·) Decimal.sub

end Haklang

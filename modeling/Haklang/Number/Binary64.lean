import Haklang.Number.Numeral
import Haklang.Number.Decimal.Basic
import Haklang.Number.Decimal.Rounding

/-!
# Decimals and binary floating point

Powers that are not computed exactly, and the lengths of pauses, go through the 64-bit binary
format. Every finite number of the format is a decimal (`Decimal.ofFloat?`). In the other direction
a fraction becomes the nearest number of the format (`Binary64.ofFraction`), by exact integer
arithmetic.

**Of a long decimal only the leading digits count** (`Decimal.magnitude`): with more than
`Magnitude.longest` digits, what follows the first `Magnitude.precision` is dropped before the
conversion (`Decimal.leading_mul_le`), and a shorter one is left alone
(`Decimal.leading_of_length_le`). What then has no places after the point is multiplied up in
floating point, so that it need not be the nearest number.

A finite number of the format is `mantissa · 2 ^ exponent` (`Binary64.finite?`); the packed form
of a positive number `m · 2 ^ q` with the least possible `q` is `(q + 1074) · 2 ^ 52 + m`.
-/

namespace Haklang

-- Powers are those of the core library, whatever other instances are in sight.
attribute [local instance (high)] instPowNat

namespace Binary64

/-- The number of bits that hold the fraction. -/
def fractionBits : Nat := 52

/-- The number of bits that hold the exponent. -/
def exponentBits : Nat := 11

/-- A finite number of the format, `mantissa · 2 ^ exponent` with a sign. -/
structure Finite where
  /-- Whether the sign bit is set. -/
  negative : Bool
  /-- The magnitude in units of the last place. -/
  mantissa : Nat
  /-- The binary exponent of the last place. -/
  exponent : Int

/-- The parts of a finite number; infinities and the results that are not numbers have none. -/
def finite? (x : Float) : Option Finite :=
  let bits := x.toBits.toNat
  let field : Nat := bits / 2 ^ fractionBits % 2 ^ exponentBits
  let fraction : Nat := bits % 2 ^ fractionBits
  let negative := bits / 2 ^ (fractionBits + exponentBits) == 1
  if field = 2047 then none
  else if field = 0 then some ⟨negative, fraction, -1074⟩
  else some ⟨negative, fraction + 2 ^ fractionBits, field - 1075⟩

/-- The least exponent at which `n / m` has at most 53 binary digits before the point, not below
that of the smallest number of the format. -/
def lastPlace (n m : Nat) : Int :=
  let e : Int := n.log2 - m.log2
  let below := if 0 ≤ e then n < m * 2 ^ e.toNat else n * 2 ^ (-e).toNat < m
  max ((if below then e - 1 else e) - 52) (-1074)

/-- The number of the format nearest to `n / m`, ties to even, and infinity beyond the greatest;
the divisor is positive. -/
def ofFraction (n m : Nat) : Float :=
  if n = 0 then 0
  else
    let q := lastPlace n m
    let mantissa :=
      if 0 ≤ q then Rounding.halfEven.quotient n (m * 2 ^ q.toNat)
      else Rounding.halfEven.quotient (n * 2 ^ (-q).toNat) m
    let bits := (q + 1074).toNat * 2 ^ fractionBits + mantissa
    Float.ofBits (min bits (2047 * 2 ^ fractionBits)).toUInt64

/-- The number above all others. -/
def infinity : Float := Float.ofBits (2047 * 2 ^ fractionBits).toUInt64

/-- The power `x ^ n` by repeated squaring, in floating point. -/
def power (x : Float) (n : Nat) (result : Float) : Float :=
  let result := if n % 2 = 1 then result * x else result
  if n < 2 then result else power (x * x) (n / 2) result
termination_by n

/-- The whole nanoseconds nearest to a number of seconds, ties to even. A negative number counts
as zero; from `2 ^ 64` seconds on there is no answer. -/
def nanoseconds? (seconds : Float) : Option Nat :=
  if 0 < seconds then
    match finite? seconds with
    | none => none
    | some x =>
      let n := x.mantissa * 2 ^ x.exponent.toNat
      let m := 2 ^ (-x.exponent).toNat
      if n < UInt64.size * m then some (Rounding.halfEven.quotient (n * 1000000000) m) else none
  else some 0

/-- Whether a number is a finite whole one. -/
def isWhole (x : Float) : Bool :=
  match finite? x with
  | none => false
  | some x => x.mantissa % 2 ^ (-x.exponent).toNat == 0

end Binary64

namespace Decimal

/-- The most digits that a decimal is converted with. -/
def Magnitude.longest : Nat := 42

/-- How many digits are left of a decimal that has more. -/
def Magnitude.precision : Nat := 40

/-- The largest scale from which a decimal is converted. -/
def Magnitude.scaleLimit : Int := 2147483647

/-- The leading digits of a number with too many, and how many digits follow them. -/
def leading (n : Nat) : Nat × Nat :=
  let length := (Numeral.write n).length
  let dropped := if length ≤ Magnitude.longest then 0 else length - Magnitude.precision
  (n / 10 ^ dropped, dropped)

/-- A number with few digits keeps them all. -/
theorem leading_of_length_le {n : Nat} (h : (Numeral.write n).length ≤ Magnitude.longest) :
    leading n = (n, 0) := by
  simp [leading, h]

/-- The digits that follow are dropped, so the leading digits never exceed the number. -/
theorem leading_mul_le (n : Nat) : (leading n).1 * 10 ^ (leading n).2 ≤ n :=
  Nat.div_mul_le_self n _

/-- The magnitude of a decimal as a floating-point number. A whole number without places becomes the
nearest one. Otherwise the leading digits count: with places after the point the result is the
number nearest to them, and infinity if there are too many places; without places it is the
floating-point product of the digits and the power of ten. -/
def magnitude (d : Decimal) : Float :=
  let n := d.digits.natAbs
  if n = 0 then 0
  else if d.scale = 0 then Binary64.ofFraction n 1
  else
    let (n, dropped) := leading n
    let scale := d.scale - dropped
    if scale ≤ 0 then Binary64.ofFraction n 1 * Binary64.power 10 (-scale).toNat 1
    else if Magnitude.scaleLimit < scale then Binary64.infinity
    else if n.log2 + 1081 ≤ 3 * scale.toNat then 0
    else Binary64.ofFraction n (10 ^ scale.toNat)

/-- A decimal as a floating-point number. -/
def toFloat (d : Decimal) : Float := if d.digits < 0 then -d.magnitude else d.magnitude

/-- Halves a number as long as it is even, at most `n` times; also says how often. -/
def halve : Nat → Nat → Nat × Nat
  | 0, m => (m, 0)
  | n + 1, m => if m % 2 = 0 then let p := halve n (m / 2); (p.1, p.2 + 1) else (m, 0)

/-- The exact value of a finite floating-point number, with as many places as it needs. -/
def ofFloat? (x : Float) : Option Decimal :=
  (Binary64.finite? x).map fun x : Binary64.Finite ↦
    let sign (n : Nat) : Int := if x.negative then -n else n
    if x.mantissa = 0 then (⟨0, 0⟩ : Decimal)
    else if 0 ≤ x.exponent then ⟨sign (x.mantissa * 2 ^ x.exponent.toNat), 0⟩
    else
      let (odd, k) := halve (-x.exponent).toNat x.mantissa
      let places := (-x.exponent).toNat - k
      ⟨sign (odd * 5 ^ places), places⟩

end Decimal

end Haklang

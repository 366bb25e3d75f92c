import Haklang.Number.Numeral
import Haklang.Number.Integer
import Haklang.Number.Decimal.Basic

/-!
# Rounding and writing decimals

`Decimal.units` is a decimal in whole units of `10 ^ (-places)`, rounded when it has more places
than that. A decimal is written with a fixed number of places after rounding half to even
(`Decimal.fixed`), and turned into an integer of the language by dropping its places
(`Decimal.truncate?`).

Rounding works on magnitudes, so it treats both signs alike, and a number that rounds to zero has
no sign. `Decimal.units_of_le` and `Decimal.units_of_gt` are the two cases without the shortcut for
numbers far below one unit.
-/

namespace Haklang

-- Powers are those of the core library, whatever other instances are in sight.
attribute [local instance (high)] instPowNat

/-- What becomes of the part of a number below the last place kept. -/
inductive Rounding where
  /-- To the nearest number; from the middle to the one whose last digit is even. -/
  | halfEven
  /-- The part is dropped. -/
  | towardZero
deriving DecidableEq, Repr

namespace Rounding

/-- Whether `r / m`, left over above an integer quotient `q`, rounds it up. -/
def roundsUp : Rounding → (q r m : Nat) → Bool
  | halfEven, q, r, m => m < 2 * r || (2 * r == m && q % 2 == 1)
  | towardZero, _, _, _ => false

/-- The rounded quotient of natural numbers. -/
def quotient (mode : Rounding) (n m : Nat) : Nat :=
  if mode.roundsUp (n / m) (n % m) m then n / m + 1 else n / m

/-- A number that is less than half the divisor rounds to zero. -/
theorem quotient_eq_zero {mode : Rounding} {n m : Nat} (h : 2 * n < m) :
    mode.quotient n m = 0 := by
  have hlt : n < m := by omega
  have hq : n / m = 0 := Nat.div_eq_of_lt hlt
  have hr : n % m = n := Nat.mod_eq_of_lt hlt
  have hup : mode.roundsUp 0 n m = false := by
    cases mode
    · simp only [roundsUp, Nat.zero_mod, Bool.or_eq_false_iff, decide_eq_false_iff_not,
        Bool.and_eq_false_iff]
      exact ⟨by omega, .inr rfl⟩
    · rfl
  rw [quotient, hq, hr, hup]
  rfl

/-- The rounded quotient of an integer by a positive number, alike for both signs. -/
def divide (mode : Rounding) (n : Int) (m : Nat) : Int := n.sign * mode.quotient n.natAbs m

end Rounding

namespace Decimal

/-- The number in units of `10 ^ (-places)`, rounded to a whole number of them. -/
def units (mode : Rounding) (d : Decimal) (places : Int) : Int :=
  if d.scale ≤ places then shift d.digits (places - d.scale).toNat
  else
    let k := (d.scale - places).toNat
    if d.digits.natAbs.log2 + 2 ≤ 3 * k then 0 else mode.divide d.digits (10 ^ k)

theorem units_of_le {mode : Rounding} {d : Decimal} {places : Int} (h : d.scale ≤ places) :
    d.units mode places = d.digits * 10 ^ (places - d.scale).toNat := by
  simp [units, h]

/-- With too many places the digits are divided; the shortcut agrees with the division. -/
theorem units_of_gt {mode : Rounding} {d : Decimal} {places : Int} (h : places < d.scale) :
    d.units mode places = mode.divide d.digits (10 ^ (d.scale - places).toNat) := by
  rw [units, if_neg (Int.not_le.2 h)]
  simp only
  split
  case isTrue hk =>
    have hlt : 2 * d.digits.natAbs < 10 ^ (d.scale - places).toNat := by
      have h1 : d.digits.natAbs < 2 ^ (d.digits.natAbs.log2 + 1) := Nat.lt_log2_self
      have h2 : 2 ^ (d.digits.natAbs.log2 + 2) ≤ 2 ^ (3 * (d.scale - places).toNat) :=
        Nat.pow_le_pow_right (by decide) hk
      have h3 : (2 : Nat) ^ (3 * (d.scale - places).toNat) ≤ 10 ^ (d.scale - places).toNat := by
        rw [Nat.pow_mul]
        exact Nat.pow_le_pow_left (by decide) _
      rw [Nat.pow_succ] at h2
      omega
    simp [Rounding.divide, Rounding.quotient_eq_zero hlt]
  case isFalse => rfl

/-- The integer of the language that is left when the places are dropped, if it is in range. -/
def truncate? (d : Decimal) : Option Integer := Integer.ofInt? (d.units .towardZero 0)

/-- A whole number of units of `10 ^ (-k)` in plain notation: a point before the last `k` digits,
which are padded with zeros, and no point when there are none. -/
def plainNat (k n : Nat) : List Char :=
  if k = 0 then Numeral.write n
  else
    let fraction := Numeral.write (n % 10 ^ k)
    Numeral.write (n / 10 ^ k) ++ '.' :: (List.replicate (k - fraction.length) '0' ++ fraction)

/-- Plain notation with a minus sign for a negative number. -/
def plain (k : Nat) (n : Int) : List Char :=
  if n < 0 then '-' :: plainNat k n.natAbs else plainNat k n.natAbs

/-- The number written with exactly `k` places, rounded half to even. -/
def fixed (d : Decimal) (k : Nat) : String := String.ofList (plain k (d.units .halfEven k))

example : (Decimal.mk 125 2).fixed 1 = "1.2" := by cbv

example : (Decimal.mk 135 2).fixed 1 = "1.4" := by cbv

example : (Decimal.mk (-2) 0).fixed 7 = "-2.0000000" := by cbv

example : (Decimal.mk (-1) 3).fixed 2 = "0.00" := by cbv

end Decimal

end Haklang

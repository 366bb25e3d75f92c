import Haklang.Text.Cut
import Haklang.Number.Numeral
import Haklang.Number.Decimal.Basic

/-!
# Reading decimals

A decimal is written as digits with at most one point and an optional exponent after `e` or `E`.
The point is taken out before the digits are read, so it may stand anywhere before or among them,
even before a sign; underscores may stand between digits and do not count. The scale, which is the
number of places after the point less the exponent, has to fit in 64 bits; arithmetic does not
check that again.
-/

namespace Haklang

namespace Decimal

/-- Digits, the first of which is not an underscore; underscores among them do not count. -/
def readDigits? : List Char → Option Nat
  | '_' :: _ => none
  | cs => Numeral.read? (cs.filter (· != '_'))

/-- A sign, not followed by a plus sign, before digits. -/
def readSigned? : List Char → Option Int
  | '-' :: cs => if cs.head? = some '+' then none else (readDigits? cs).map fun n : Nat ↦ -(n : Int)
  | '+' :: cs => if cs.head? = some '+' then none else (readDigits? cs).map fun n : Nat ↦ (n : Int)
  | cs => (readDigits? cs).map fun n : Nat ↦ (n : Int)

/-- The text before the exponent with its first point taken out, and how many places followed the
point. -/
def removePoint (base : List Char) : List Char × Nat :=
  match Text.splitAtFirst? (· == '.') base with
  | none => (base, 0)
  | some (whole, places) => (whole ++ places, (places.filter (· != '_')).length)

/-- Reads a decimal. -/
def read? (cs : List Char) : Option Decimal := do
  let (base, exponent) ←
    match Text.splitAtFirst? (fun c ↦ c == 'e' || c == 'E') cs with
    | none => some (cs, 0)
    | some (base, e) => (Numeral.readInt? e).map fun n ↦ (base, n)
  let (text, places) := removePoint base
  let scale := (places : Int) - exponent
  if -9223372036854775808 ≤ scale ∧ scale ≤ 9223372036854775807 then
    (readSigned? text).map fun n ↦ ⟨n, scale⟩
  else none

example : read? "30.7".toList = some ⟨307, 1⟩ := by cbv

example : read? ".-5".toList = some ⟨-5, 2⟩ := by cbv

example : read? "1.-5".toList = none := by cbv

example : read? "1_0.5e-2".toList = some ⟨105, 3⟩ := by cbv

example : read? "5.".toList = some ⟨5, 0⟩ := by cbv

example : read? ".".toList = none := by cbv

end Decimal

end Haklang

import Haklang.Number.Numeral

/-!
# Integers of the language

A whole number of the language is held in 64 bits with a sign. Its range is part of the type, so
an operation that could leave it says so: it computes on the mathematical integers and comes back
through `Integer.ofInt?`, which is defined on the range alone (`ofInt?_eq_some_iff`,
`ofInt?_eq_none_iff`). Taking the magnitude is such an operation (`magnitude?_eq_none_iff`).
-/

namespace Haklang

/-- A whole number of 64 bits with a sign. -/
structure Integer where
  /-- The number. -/
  val : Int
  /-- The number is not below the least one. -/
  least_le : -9223372036854775808 ≤ val := by decide
  /-- The number is not above the greatest one. -/
  le_greatest : val ≤ 9223372036854775807 := by decide
deriving DecidableEq

namespace Integer

theorem ext_iff {a b : Integer} : a = b ↔ a.val = b.val := by
  cases a
  cases b
  simp

/-- The integer of the language with a given value, if the value is in range. -/
def ofInt? (n : Int) : Option Integer :=
  if h : -9223372036854775808 ≤ n ∧ n ≤ 9223372036854775807 then some ⟨n, h.1, h.2⟩ else none

theorem ofInt?_eq_some_iff {n : Int} {a : Integer} : ofInt? n = some a ↔ a.val = n := by
  by_cases h : -9223372036854775808 ≤ n ∧ n ≤ 9223372036854775807
  · simp [ofInt?, h, ext_iff, eq_comm]
  · simp only [ofInt?, h, dif_neg, not_false_eq_true, reduceCtorEq, false_iff]
    rintro rfl
    exact h ⟨a.least_le, a.le_greatest⟩

theorem ofInt?_eq_none_iff {n : Int} :
    ofInt? n = none ↔ ¬ (-9223372036854775808 ≤ n ∧ n ≤ 9223372036854775807) := by
  by_cases h : -9223372036854775808 ≤ n ∧ n ≤ 9223372036854775807 <;> simp [ofInt?, h]

@[simp] theorem ofInt?_val (a : Integer) : ofInt? a.val = some a := ofInt?_eq_some_iff.2 rfl

/-- The magnitude of an integer, if it is an integer itself. -/
def magnitude? (a : Integer) : Option Integer := ofInt? a.val.natAbs

/-- The least integer has no magnitude: the range goes one further down than up. -/
theorem magnitude?_eq_none_iff {a : Integer} :
    a.magnitude? = none ↔ a.val = -9223372036854775808 := by
  have hleast := a.least_le
  have hgreatest := a.le_greatest
  rw [magnitude?, ofInt?_eq_none_iff]
  omega

/-- Every other integer has its magnitude. -/
theorem val_of_magnitude? {a b : Integer} (h : a.magnitude? = some b) : b.val = a.val.natAbs :=
  ofInt?_eq_some_iff.1 h

instance : Inhabited Integer := ⟨⟨0, by decide, by decide⟩⟩

instance : OfNat Integer 0 := ⟨⟨0, by decide, by decide⟩⟩

instance : OfNat Integer 1 := ⟨⟨1, by decide, by decide⟩⟩

@[simp] theorem val_zero : (0 : Integer).val = 0 := rfl

@[simp] theorem val_one : (1 : Integer).val = 1 := rfl

/-- One for true and zero for false. -/
def ofBool (b : Bool) : Integer := if b then 1 else 0

/-- Reads an optional sign and ASCII digits; a number out of range is not an integer. -/
def read? (cs : List Char) : Option Integer := (Numeral.readInt? cs).bind ofInt?

/-- The digits of an integer, after a minus sign if it is negative. -/
def render (a : Integer) : String := String.ofList (Numeral.writeInt a.val)

/-- What is written is read back. -/
theorem read?_render (a : Integer) : read? a.render.toList = some a := by
  simp [read?, render]

end Integer

end Haklang

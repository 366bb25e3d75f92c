/-!
# Decimal digits of all scripts

A list index is written with decimal digits of any script (the Unicode general category Nd, as of
Unicode 16), while its number is read from ASCII digits alone. Every script keeps its ten digits
together in ascending order, so the category is the list of its zeros.
-/

namespace Haklang

namespace Text

/-- The code points of the digit zero, one for each run of ten decimal digits. -/
def digitZeros : List Nat :=
  [0x30, 0x660, 0x6F0, 0x7C0, 0x966, 0x9E6, 0xA66, 0xAE6, 0xB66, 0xBE6, 0xC66, 0xCE6, 0xD66,
    0xDE6, 0xE50, 0xED0, 0xF20, 0x1040, 0x1090, 0x17E0, 0x1810, 0x1946, 0x19D0, 0x1A80, 0x1A90,
    0x1B50, 0x1BB0, 0x1C40, 0x1C50, 0xA620, 0xA8D0, 0xA900, 0xA9D0, 0xA9F0, 0xAA50, 0xABF0,
    0xFF10, 0x104A0, 0x10D30, 0x10D40, 0x11066, 0x110F0, 0x11136, 0x111D0, 0x112F0, 0x11450,
    0x114D0, 0x11650, 0x116C0, 0x116D0, 0x116DA, 0x11730, 0x118E0, 0x11950, 0x11BF0, 0x11C50,
    0x11D50, 0x11DA0, 0x11F50, 0x16130, 0x16A60, 0x16AC0, 0x16B50, 0x16D70, 0x1CCF0, 0x1D7CE,
    0x1D7D8, 0x1D7E2, 0x1D7EC, 0x1D7F6, 0x1E140, 0x1E2F0, 0x1E4F0, 0x1E5F1, 0x1E950, 0x1FBF0]

/-- A character of the category Nd: one of the ten that start at a digit zero. -/
def isDecimalDigit (c : Char) : Bool :=
  digitZeros.any fun z ↦ z ≤ c.toNat && c.toNat < z + 10

theorem length_digitZeros : digitZeros.length = 76 := rfl

/-- The runs of ten are in ascending order and do not overlap. -/
theorem digitZeros_pairwise : digitZeros.Pairwise fun a b ↦ a + 10 ≤ b := by decide

/-- The ASCII digits are decimal digits. -/
theorem isDecimalDigit_of_isDigit {c : Char} (h : c.isDigit = true) : isDecimalDigit c = true := by
  have h' : 48 ≤ c.toNat ∧ c.toNat ≤ 57 := by
    simp only [Char.isDigit, Bool.and_eq_true, decide_eq_true_eq, UInt32.le_iff_toNat_le] at h
    exact h
  refine List.any_eq_true.2 ⟨0x30, .head _, ?_⟩
  simp only [Bool.and_eq_true, decide_eq_true_eq]
  omega

end Text

end Haklang

/-!
# Decimal numerals

Natural numbers and integers as runs of ASCII digits. A numeral is read from one or more digits,
leading zeros included; a signed one has at most one sign before them. Writing uses neither a
plus sign nor leading zeros.

`Numeral.read?_write` and `Numeral.readInt?_writeInt` say that what is written is read back.
-/

namespace Haklang

namespace Numeral

/-- The digits of a natural number, most significant first. -/
def write (n : Nat) : List Char := Nat.toDigits 10 n

/-- The digits of a natural number as a string. -/
def text (n : Nat) : String := String.ofList (write n)

/-- The natural number that one or more ASCII digits stand for. -/
def read? (cs : List Char) : Option Nat :=
  if cs ≠ [] ∧ cs.all Char.isDigit then some (Nat.ofDigitChars 10 cs 0) else none

/-- A minus sign before the digits of a negative number. -/
def writeInt (n : Int) : List Char :=
  if n < 0 then '-' :: write n.natAbs else write n.natAbs

/-- The integer that an optional sign and one or more ASCII digits stand for. -/
def readInt? : List Char → Option Int
  | '-' :: cs => (read? cs).map fun n : Nat ↦ -(n : Int)
  | '+' :: cs => (read? cs).map fun n : Nat ↦ (n : Int)
  | cs => (read? cs).map fun n : Nat ↦ (n : Int)

theorem isDigit_digitChar {d : Nat} (h : d < 10) : d.digitChar.isDigit = true := by
  have hd : d = 0 ∨ d = 1 ∨ d = 2 ∨ d = 3 ∨ d = 4 ∨ d = 5 ∨ d = 6 ∨ d = 7 ∨ d = 8 ∨ d = 9 := by
    omega
  rcases hd with rfl | rfl | rfl | rfl | rfl | rfl | rfl | rfl | rfl | rfl <;> rfl

theorem write_of_lt {n : Nat} (h : n < 10) : write n = [n.digitChar] :=
  Nat.toDigits_of_lt_base h

theorem write_of_ge {n : Nat} (h : 10 ≤ n) :
    write n = write (n / 10) ++ [(n % 10).digitChar] := by
  simp [write, Nat.toDigits_eq_if (b := 10) (by decide) (n := n), Nat.not_lt.2 h]

theorem write_ne_nil (n : Nat) : write n ≠ [] := by
  rcases Nat.lt_or_ge n 10 with h | h
  · simp [write_of_lt h]
  · simp [write_of_ge h]

/-- Only digits are written. -/
theorem isDigit_of_mem_write {n : Nat} {c : Char} (h : c ∈ write n) : c.isDigit = true := by
  induction n using Nat.strongRecOn with
  | ind n ih =>
    rcases Nat.lt_or_ge n 10 with hn | hn
    · rw [write_of_lt hn, List.mem_singleton] at h
      exact h ▸ isDigit_digitChar hn
    · rw [write_of_ge hn, List.mem_append, List.mem_singleton] at h
      rcases h with h | h
      · exact ih (n / 10) (by omega) h
      · exact h ▸ isDigit_digitChar (Nat.mod_lt _ (by decide))

/-- What is written is read back. -/
@[simp] theorem read?_write (n : Nat) : read? (write n) = some n := by
  have hall : (write n).all Char.isDigit = true :=
    List.all_eq_true.2 fun _ h ↦ isDigit_of_mem_write h
  rw [read?, if_pos ⟨write_ne_nil n, hall⟩]
  exact congrArg some (Nat.ofDigitChars_toDigits (by decide) (by decide))

theorem readInt?_of_isDigit {c : Char} {cs : List Char} (h : c.isDigit = true) :
    readInt? (c :: cs) = (read? (c :: cs)).map fun n : Nat ↦ (n : Int) := by
  rw [readInt?]
  · rintro rest heq
    obtain ⟨rfl, _⟩ := List.cons.inj heq
    exact absurd h (by decide)
  · rintro rest heq
    obtain ⟨rfl, _⟩ := List.cons.inj heq
    exact absurd h (by decide)

/-- What is written is read back. -/
@[simp] theorem readInt?_writeInt (n : Int) : readInt? (writeInt n) = some n := by
  by_cases h : n < 0
  · simp only [writeInt, h, if_true, readInt?, read?_write, Option.map_some]
    congr 1
    omega
  · simp only [writeInt, h, if_false]
    cases hw : write n.natAbs with
    | nil => exact absurd hw (write_ne_nil _)
    | cons c cs =>
      have hc : c.isDigit = true := isDigit_of_mem_write (hw ▸ List.mem_cons_self)
      rw [readInt?_of_isDigit hc, ← hw, read?_write, Option.map_some]
      congr 1
      omega

end Numeral

end Haklang

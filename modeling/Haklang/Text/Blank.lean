/-!
# Blank characters

The characters that count as blank at the ends of a line, of a keyword's operands and of list
items: those with the Unicode property `White_Space`. Trimming is stated on lists of characters,
the form in which every reader of the language takes its text; `String.trimmed` is the same
operation on a whole string.

`trim_length_le` is what the readers that call themselves on a trimmed part rest on.
-/

namespace Haklang

namespace Text

/-- A character is blank when it has the Unicode property `White_Space`: the controls from tab to
carriage return, the space, the next-line control and the separators of the classes Zs, Zl and
Zp. The zero-width space and the byte-order mark do not have it. -/
def isBlank (c : Char) : Bool :=
  let n := c.toNat
  (0x9 ≤ n && n ≤ 0xD) || n == 0x20 || n == 0x85 || n == 0xA0 || n == 0x1680
    || (0x2000 ≤ n && n ≤ 0x200A) || n == 0x2028 || n == 0x2029 || n == 0x202F || n == 0x205F
    || n == 0x3000

/-- The text without the blanks at its start. -/
def trimStart (cs : List Char) : List Char := cs.dropWhile isBlank

/-- The text without the blanks at its end. -/
def trimEnd (cs : List Char) : List Char := (cs.reverse.dropWhile isBlank).reverse

/-- The text without the blanks at either end. -/
def trim (cs : List Char) : List Char := trimEnd (trimStart cs)

theorem length_dropWhile_le (p : Char → Bool) (cs : List Char) :
    (cs.dropWhile p).length ≤ cs.length :=
  (List.dropWhile_sublist p).length_le

theorem length_trimStart_le (cs : List Char) : (trimStart cs).length ≤ cs.length :=
  length_dropWhile_le isBlank cs

theorem length_trimEnd_le (cs : List Char) : (trimEnd cs).length ≤ cs.length := by
  simpa [trimEnd] using length_dropWhile_le isBlank cs.reverse

/-- Trimming never makes a text longer. -/
theorem length_trim_le (cs : List Char) : (trim cs).length ≤ cs.length :=
  Nat.le_trans (length_trimEnd_le _) (length_trimStart_le _)

@[simp] theorem trim_nil : trim [] = [] := rfl

/-- Whitespace in the narrow sense of the core library is blank. -/
theorem isBlank_of_isWhitespace {c : Char} (h : c.isWhitespace = true) : isBlank c = true := by
  simp only [Char.isWhitespace, Bool.or_eq_true, decide_eq_true_eq] at h
  rcases h with (((rfl | rfl) | rfl) | rfl) <;> rfl

/-- A whole string without the blanks at either end. -/
def trimmed (s : String) : String := String.ofList (trim s.toList)

end Text

end Haklang

import Haklang.Number.Decimal.Reader
import Haklang.Value.Basic
import Haklang.Fault

/-!
# Increments

An increment adds a step that is named by a word. Two of the words may be repeated, and each
repetition moves the step by one more place to the right. Whether a keyword is nothing but
repetitions of a word is not read off character by character: the places where the word is found are
counted, and together they have to be as long as the keyword. The step is added exactly; in an
integer variable the sum then loses its places.
-/

namespace Haklang

namespace Increment

/-- The number of bytes of a text in UTF-8. -/
def byteLength : List Char → Nat
  | [] => 0
  | c :: cs => c.utf8Size + byteLength cs

/-- How often a word is found in a text from left to right, each time behind the place where it was
found before. The number is that of the characters of this place that are still to be passed. -/
def occurrencesFrom (w : List Char) : Nat → List Char → Nat
  | _, [] => 0
  | left + 1, _ :: cs => occurrencesFrom w left cs
  | 0, c :: cs =>
    if w <+: c :: cs then occurrencesFrom w (w.length - 1) cs + 1 else occurrencesFrom w 0 cs

/-- How often a word is found in a text that begins with it and is as long, in bytes, as the word so
many times. -/
def repetitions? (w cs : List Char) : Option Nat :=
  let k := occurrencesFrom w 0 cs
  if w <+: cs ∧ byteLength cs = k * byteLength w then some k else none

/-- The step that a keyword names. -/
def step? (keyword : String) : Option Decimal :=
  if keyword = "밥" then some ⟨1, 0⟩
  else if keyword = "빵" then some ⟨1, 1⟩
  else if keyword = "야채" then some ⟨-1, 0⟩
  else if keyword = "설사약" then some ⟨-1, 1⟩
  else
    match repetitions? "고기".toList keyword.toList with
    | some k => some ⟨1, k + 1⟩
    | none => (repetitions? "포자빵".toList keyword.toList).map fun k : Nat ↦ ⟨-1, k + 1⟩

/-- The step of an increment of a value, which has to be a number. -/
def stepOf (name keyword : String) (v : Value) : Except Fault Decimal :=
  if v.isNumeric then
    match step? keyword with
    | some step => .ok step
    | none => .error (.unknownStep keyword)
  else .error (.incrementNoNumber name v.kind)

/-- A value after a step. -/
def advance (name : String) (step : Decimal) : Value → Except Fault Value
  | .int n =>
    match ((Decimal.ofInt n.val).add step).truncate? with
    | some m => .ok (.int m)
    | none => .error .integerOverflow
  | .decimal p d => .ok (.decimal p (d.add step))
  | v => .error (.incrementNoNumber name v.kind)

example : step? "고기고기" = some ⟨1, 3⟩ := by decide +kernel

example : step? "고기밥" = none := by decide +kernel

end Increment

end Haklang

import Haklang.Text.Cut
import Haklang.Text.Digit
import Haklang.Number.Numeral
import Haklang.Line.Basic

/-!
# Output tokens

What an output statement writes is given by tokens side by side: text in double quotes, a variable
name in single quotes, and an item of a list, `[name][position]`. Tokens are taken from left to
right; what stands between them, and quotes and brackets that make up no token, are passed over.
-/

namespace Haklang

/-- The position that decimal digits of any script stand for: their number if they are ASCII digits
and the number fits in 64 bits, and otherwise zero. -/
def readPosition (ds : List Char) : Nat :=
  match Numeral.read? ds with
  | some n => if n < 18446744073709551616 then n else 0
  | none => 0

/-- One or more decimal digits before a closing bracket, and what follows the bracket. -/
def closedPosition? (cs : List Char) : Option (Nat × List Char) :=
  match cs.takeWhile Text.isDecimalDigit with
  | [] => none
  | d :: ds =>
    (Text.after? [']'] (cs.dropWhile Text.isDecimalDigit)).map fun r ↦ (readPosition (d :: ds), r)

namespace OutputItem

/-- The token at the start of a text, and what follows it. -/
def token? : List Char → Option (OutputItem × List Char)
  | '"' :: cs =>
    (Text.splitAtFirst? (· == '"') cs).map fun (s, r) ↦ (text (String.ofList s), r)
  | '\'' :: cs =>
    (Text.splitAtFirst? (· == '\'') cs).map fun (s, r) ↦ (var (String.ofList s), r)
  | '[' :: cs => do
    let (name, r) ← Text.splitAtFirst? (· == ']') cs
    if name = [] then none
    else
      let r ← Text.after? ['['] r
      let (position, r) ← closedPosition? r
      some (element (String.ofList name) position, r)
  | _ => none

theorem length_lt_of_closedPosition? {cs r : List Char} {n : Nat}
    (h : closedPosition? cs = some (n, r)) : r.length < cs.length := by
  rw [closedPosition?] at h
  split at h
  · cases h
  · simp only [Option.map_eq_some_iff, Prod.mk.injEq] at h
    obtain ⟨r', hr, _, rfl⟩ := h
    have h1 := congrArg List.length (Text.after?_eq_some_iff.1 hr)
    have h2 : (cs.dropWhile Text.isDecimalDigit).length ≤ cs.length :=
      (List.dropWhile_sublist _).length_le
    simp only [List.length_append, List.length_singleton] at h1
    omega

theorem length_lt_of_splitAtFirst? {p : Char → Bool} {cs l r : List Char}
    (h : Text.splitAtFirst? p cs = some (l, r)) : r.length < cs.length := by
  obtain ⟨c, _, rfl⟩ := Text.splitAtFirst?_eq_some h
  simp only [List.length_append, List.length_cons]
  omega

/-- A token takes something of the text. -/
theorem length_lt_of_token? {cs r : List Char} {item : OutputItem}
    (h : token? cs = some (item, r)) : r.length < cs.length := by
  unfold token? at h
  split at h
  · simp only [Option.map_eq_some_iff, Prod.mk.injEq] at h
    obtain ⟨⟨s, r'⟩, hs, _, rfl⟩ := h
    exact Nat.lt_succ_of_lt (length_lt_of_splitAtFirst? hs)
  · simp only [Option.map_eq_some_iff, Prod.mk.injEq] at h
    obtain ⟨⟨s, r'⟩, hs, _, rfl⟩ := h
    exact Nat.lt_succ_of_lt (length_lt_of_splitAtFirst? hs)
  · simp only [Option.bind_eq_bind, Option.bind_eq_some_iff] at h
    obtain ⟨⟨name, r₁⟩, h₁, h⟩ := h
    split at h
    · cases h
    · simp only [Option.bind_eq_some_iff, Option.some.injEq, Prod.mk.injEq] at h
      obtain ⟨r₂, h₂, ⟨n, r₃⟩, h₃, _, rfl⟩ := h
      have l₁ := length_lt_of_splitAtFirst? h₁
      have l₂ := congrArg List.length (Text.after?_eq_some_iff.1 h₂)
      have l₃ := length_lt_of_closedPosition? h₃
      simp only [List.length_append, List.length_cons] at l₂ ⊢
      omega
  · cases h

/-- The tokens of a text from left to right. -/
def readAll : List Char → List OutputItem
  | [] => []
  | c :: cs =>
    match _ : token? (c :: cs) with
    | some (item, r) => item :: readAll r
    | none => readAll cs
termination_by cs => cs.length
decreasing_by
  case _ h => exact length_lt_of_token? h
  case _ => exact Nat.lt_succ_self _

end OutputItem

namespace Statement

/-- The output statement for the part of a line before its keyword. One pair of parentheses around
the whole is not part of the tokens. -/
def ofOutput (cs : List Char) (newline : Bool) : Statement :=
  let inner := ((Text.after? ['('] cs).bind (Text.before? [')'])).getD cs
  output (OutputItem.readAll inner) newline

end Statement

end Haklang

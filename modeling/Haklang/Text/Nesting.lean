import Haklang.Text.Blank
import Haklang.Text.Cut

/-!
# Quotes and brackets

Keywords and commas divide a text only where they stand outside quotes and outside brackets. A scan
keeps the quote that is open and how many brackets are (`Nesting`); inside quotes nothing but the
same quote counts, and a bracket that closes nothing is passed over. Which characters open and
close is up to the scan: keywords are hidden by parentheses alone, commas by square brackets too.

A text is divided at the first keyword (`splitAtWord?`) or at every comma (`splitAtCommas`); what
the divisions leave out is exactly the keyword and the commas (`splitAtWord?_eq_some`,
`intercalate_pieces`).
-/

namespace Haklang

/-- Where a scan through a text stands. -/
structure Nesting where
  /-- The quote that is open. -/
  quote? : Option Char := none
  /-- The number of open brackets. -/
  depth : Nat := 0
deriving DecidableEq, Repr

/-- The characters that a scan counts as opening and closing brackets. -/
structure Brackets where
  /-- The opening ones. -/
  opening : List Char
  /-- The closing ones. -/
  closing : List Char

/-- Parentheses alone. -/
def Brackets.round : Brackets := ⟨['('], [')']⟩

/-- Parentheses and square brackets, which close each other as well. -/
def Brackets.roundAndSquare : Brackets := ⟨['(', '['], [')', ']']⟩

namespace Nesting

/-- Outside all quotes and brackets. -/
def outside (n : Nesting) : Bool := n.quote?.isNone && n.depth == 0

/-- The nesting after one more character. -/
def step (b : Brackets) (n : Nesting) (c : Char) : Nesting :=
  match n.quote? with
  | some q => if c = q then { n with quote? := none } else n
  | none =>
    if c = '\'' ∨ c = '"' then { n with quote? := some c }
    else if c ∈ b.opening then { n with depth := n.depth + 1 }
    else if c ∈ b.closing then { n with depth := n.depth - 1 }
    else n

end Nesting

namespace Text

/-- What stands before and after the first place where the word `w` stands outside quotes and
parentheses. -/
def splitAtWordFrom? (w : List Char) : Nesting → List Char → Option (List Char × List Char)
  | _, [] => none
  | n, c :: r =>
    match if n.outside then after? w (c :: r) else none with
    | some rest => some ([], rest)
    | none => (splitAtWordFrom? w (n.step .round c) r).map fun (l, rest) ↦ (c :: l, rest)

/-- What stands before and after the first place where the word `w` divides the text. -/
def splitAtWord? (w : List Char) (cs : List Char) : Option (List Char × List Char) :=
  splitAtWordFrom? w {} cs

theorem splitAtWordFrom?_eq_some {w cs l r : List Char} {n : Nesting}
    (h : splitAtWordFrom? w n cs = some (l, r)) : cs = l ++ w ++ r := by
  induction cs generalizing n l with
  | nil => simp [splitAtWordFrom?] at h
  | cons c t ih =>
    rw [splitAtWordFrom?] at h
    split at h
    case h_1 rest hw =>
      simp only [Option.some.injEq, Prod.mk.injEq] at h
      obtain ⟨rfl, rfl⟩ := h
      by_cases ho : n.outside = true
      · rw [if_pos ho, after?_eq_some_iff] at hw
        simpa using hw
      · simp [ho] at hw
    case h_2 =>
      simp only [Option.map_eq_some_iff, Prod.mk.injEq] at h
      obtain ⟨⟨u, v⟩, hu, rfl, rfl⟩ := h
      simp [ih hu]

/-- A division leaves out nothing but the word. -/
theorem splitAtWord?_eq_some {w cs l r : List Char} (h : splitAtWord? w cs = some (l, r)) :
    cs = l ++ w ++ r :=
  splitAtWordFrom?_eq_some h

/-- The pieces between the commas outside quotes and brackets: the first one, and the others in
order. -/
def pieces : Nesting → List Char → List Char × List (List Char)
  | _, [] => ([], [])
  | n, c :: r =>
    if c = ',' ∧ n.outside then
      let p := pieces n r
      ([], p.1 :: p.2)
    else
      let p := pieces (n.step .roundAndSquare c) r
      (c :: p.1, p.2)

/-- Joined with commas, the pieces are the text again. -/
theorem intercalate_pieces (n : Nesting) (cs : List Char) :
    (pieces n cs).1 ++ ((pieces n cs).2.map fun p ↦ ',' :: p).flatten = cs := by
  induction cs generalizing n with
  | nil => rfl
  | cons c r ih =>
    rw [pieces]
    split
    case isTrue h => simpa [h.1] using ih n
    case isFalse => simpa using ih (n.step .roundAndSquare c)

theorem length_le_of_mem_pieces {n : Nesting} {cs p : List Char}
    (h : p ∈ (pieces n cs).1 :: (pieces n cs).2) : p.length ≤ cs.length := by
  have hl := congrArg List.length (intercalate_pieces n cs)
  rcases List.mem_cons.1 h with rfl | h
  · simp only [List.length_append] at hl
    omega
  · obtain ⟨before, after, hs⟩ := List.append_of_mem h
    simp only [hs, List.map_append, List.map_cons, List.flatten_append, List.flatten_cons,
      List.length_append, List.length_cons] at hl
    omega

/-- The arguments of a call: the pieces between commas, without the blanks around them. A blank
text holds none. -/
def splitAtCommas (cs : List Char) : List (List Char) :=
  if trim cs = [] then []
  else
    let p := pieces {} cs
    (p.1 :: p.2).map trim

theorem length_le_of_mem_splitAtCommas {cs a : List Char} (h : a ∈ splitAtCommas cs) :
    a.length ≤ cs.length := by
  rw [splitAtCommas] at h
  split at h
  · cases h
  · obtain ⟨p, hp, rfl⟩ := List.mem_map.1 h
    exact Nat.le_trans (length_trim_le p) (length_le_of_mem_pieces hp)

end Text

end Haklang

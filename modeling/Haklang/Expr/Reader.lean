import Haklang.Text.Nesting
import Haklang.Number.Decimal.Reader
import Haklang.Expr.Basic

/-!
# Reading expressions and conditions

There is no precedence climbing. A text is divided around the keyword of lowest rank that it
contains outside quotes and parentheses, at the first place where that stands, and both halves are
read in turn; only a text without any keyword is an atom. So a keyword decides by its rank and not
by its place, and equal operators nest to the right.

Both readers call themselves on shorter and shorter parts of the text. That the parts are shorter
is what the division leaves out: the keyword (`length_lt_of_splitAtWord?`), or the brackets of a
call (`length_lt_of_callParts?`).
-/

namespace Haklang

namespace Text

/-- Both sides of a division are shorter than the whole. -/
theorem length_lt_of_splitAtWord? {w cs l r : List Char} (hw : w ≠ [])
    (h : splitAtWord? w cs = some (l, r)) : l.length < cs.length ∧ r.length < cs.length := by
  have hlen := congrArg List.length (splitAtWord?_eq_some h)
  have hpos := List.length_pos_iff.2 hw
  simp only [List.length_append] at hlen
  omega

end Text

namespace Expr

/-- The operator of lowest rank in a text, with what stands on its two sides. -/
def divide? (cs : List Char) : Option (BinaryOperator × List Char × List Char) :=
  BinaryOperator.ranked.findSome? fun op ↦
    (Text.splitAtWord? op.keyword.toList cs).map fun (l, r) ↦ (op, l, r)

theorem length_lt_of_divide? {cs l r : List Char} {op : BinaryOperator}
    (h : divide? cs = some (op, l, r)) : l.length < cs.length ∧ r.length < cs.length := by
  obtain ⟨op', _, h⟩ := List.exists_of_findSome?_eq_some h
  simp only [Option.map_eq_some_iff, Prod.mk.injEq] at h
  obtain ⟨⟨l', r'⟩, hs, rfl, rfl, rfl⟩ := h
  exact Text.length_lt_of_splitAtWord? op'.keyword_ne_nil hs

/-- The number that a text stands for: a decimal if it contains a point, and otherwise an
integer. -/
def number? (cs : List Char) : Option Expr :=
  if '.' ∈ cs then (Decimal.read? cs).map decimal else (Integer.read? cs).map int

/-- An expression without parts: a variable in single quotes, a truth value, a number, or text in
double quotes. What stands between the outer quotes is not looked at. -/
def leaf? (cs : List Char) : Option Expr :=
  match Text.between? '\'' cs with
  | some name => some (var (String.ofList name))
  | none =>
    if cs = trueWord.toList then some (bool true)
    else if cs = falseWord.toList then some (bool false)
    else
      match number? cs with
      | some e => some e
      | none => (Text.between? '"' cs).map fun s ↦ text (String.ofList s)

/-- The name and the arguments of a call, `[name](arguments)`. -/
def callParts? : List Char → Option (List Char × List Char)
  | '[' :: cs =>
    (Text.shortestRun (fun r ↦ do
      let r ← Text.after? "](".toList r
      Text.longestRun (fun r ↦ Text.after? [')'] r >>= Text.atEnd?) r) cs).map
        fun (name, args, _) ↦ (name, args)
  | _ => none

theorem length_lt_of_callParts? {cs name args : List Char}
    (h : callParts? cs = some (name, args)) : args.length < cs.length := by
  unfold callParts? at h
  split at h
  case h_2 => cases h
  case h_1 t =>
    simp only [Option.map_eq_some_iff, Prod.mk.injEq] at h
    obtain ⟨⟨n, a, u⟩, hs, rfl, rfl⟩ := h
    obtain ⟨r, rfl, hk, _, _⟩ := Text.shortestRun_eq_some hs
    simp only [Option.bind_eq_bind, Option.bind_eq_some_iff] at hk
    obtain ⟨r', hr', hl⟩ := hk
    obtain ⟨r'', rfl, _, _⟩ := Text.longestRun_eq_some hl
    rw [Text.after?_eq_some_iff] at hr'
    simp only [hr', List.length_cons, List.length_append]
    omega

/-- Reads an expression. -/
def ofChars (cs : List Char) : Expr :=
  match _ : Text.after? negateWord.toList (Text.trim cs) with
  | some rest => negate (ofChars rest)
  | none =>
    match _ : divide? (Text.trim cs) with
    | some (op, l, r) => binary op (ofChars l) (ofChars r)
    | none =>
      match leaf? (Text.trim cs) with
      | some e => e
      | none =>
        match _ : callParts? (Text.trim cs) with
        | some (name, args) =>
          call (String.ofList name) ((Text.splitAtCommas args).attach.map fun ⟨a, _⟩ ↦ ofChars a)
        | none => unresolved (String.ofList (Text.trim cs))
termination_by cs.length
decreasing_by
  all_goals have htrim := Text.length_trim_le cs
  case _ h =>
    have hlen := congrArg List.length (Text.after?_eq_some_iff.1 h)
    have hword : negateWord.toList.length = 3 := rfl
    rw [List.length_append] at hlen
    omega
  case _ h =>
    have hlt := length_lt_of_divide? h
    omega
  case _ h =>
    have hlt := length_lt_of_divide? h
    omega
  case _ h hmem =>
    have hlt := length_lt_of_callParts? h
    have hle := Text.length_le_of_mem_splitAtCommas hmem
    omega

/-- The expressions between the commas of an argument list. -/
def arguments (cs : List Char) : List Expr := (Text.splitAtCommas cs).map ofChars

/-- What an expression is read as, one level deep. -/
theorem ofChars_eq (cs : List Char) :
    ofChars cs =
      match Text.after? negateWord.toList (Text.trim cs) with
      | some rest => negate (ofChars rest)
      | none =>
        match divide? (Text.trim cs) with
        | some (op, l, r) => binary op (ofChars l) (ofChars r)
        | none =>
          match leaf? (Text.trim cs) with
          | some e => e
          | none =>
            match callParts? (Text.trim cs) with
            | some (name, args) => call (String.ofList name) (arguments args)
            | none => unresolved (String.ofList (Text.trim cs)) := by
  rw [ofChars]
  cases h₁ : Text.after? negateWord.toList (Text.trim cs) with
  | some rest => rfl
  | none =>
    cases h₂ : divide? (Text.trim cs) with
    | some p => rfl
    | none =>
      cases h₃ : leaf? (Text.trim cs) with
      | some e => rfl
      | none =>
        cases h₄ : callParts? (Text.trim cs) with
        | some p => simp [arguments]
        | none => rfl

/-- Reads an expression. -/
def ofString (s : String) : Expr := ofChars s.toList

end Expr

namespace Cond

/-- The first relation keyword, in the order of their list, that divides a text. -/
def divide? (cs : List Char) : Option (Relation × List Char × List Char) :=
  Relation.keywords.findSome? fun (w, rel) ↦
    (Text.splitAtWord? w.toList cs).map fun (l, r) ↦ (rel, l, r)

/-- Reads a condition: a truth value, two conditions around a connective, two expressions around a
relation, or one expression. -/
def ofChars (cs : List Char) : Cond :=
  if Text.trim cs = trueWord.toList then literal true
  else if Text.trim cs = falseWord.toList then literal false
  else
    match _ : Text.splitAtWord? orWord.toList (Text.trim cs) with
    | some (l, r) => or (ofChars l) (ofChars r)
    | none =>
      match _ : Text.splitAtWord? andWord.toList (Text.trim cs) with
      | some (l, r) => and (ofChars l) (ofChars r)
      | none =>
        match divide? (Text.trim cs) with
        | some (rel, l, r) => compare rel (Expr.ofChars l) (Expr.ofChars r)
        | none => holds (Expr.ofChars (Text.trim cs))
termination_by cs.length
decreasing_by
  all_goals have htrim := Text.length_trim_le cs
  all_goals
    rename_i h
    have hlt := Text.length_lt_of_splitAtWord? (by decide) h
    omega

/-- Reads a condition. -/
def ofString (s : String) : Cond := ofChars s.toList

end Cond

end Haklang

import Haklang.Text.Blank
import Haklang.Text.Cut
import Haklang.Text.Digit
import Haklang.Expr.Reader
import Haklang.Line.Basic
import Haklang.Line.Output

/-!
# Reading lines

A line is read by the first rule that fits, in the order of `Line.rules`; the order is part of the
grammar, because some rules fit lines that are meant for later ones (a deferred call starts like a
call, an output line may look like anything). Most rules look at the start of the line only and
ignore what follows; those that need the end of the line say so with `Text.atEnd?`.

A rule for a variable accepts the name in brackets, `[name]`, or in brackets and parentheses,
`[(name)]`. Both are tried with the shortest name first, the parentheses before the plain form, so
that the rest of the rule decides how far the name goes.
-/

namespace Haklang

/-- A rule: the line that a text is, if the rule fits. -/
abbrev Line.Rule : Type := List Char → Option Line

namespace Text

/-- A name in brackets before a rest that `k` accepts. -/
def bracketed {α : Type} (k : List Char → Option α) (cs : List Char) : Option (String × α) := do
  let r ← after? ['['] cs
  let (name, a) ← shortestRun (fun r ↦ after? [']'] r >>= k) r
  some (String.ofList name, a)

/-- A name in brackets, with or without parentheses inside them, before a rest that `k`
accepts. -/
def variableName {α : Type} (k : List Char → Option α) (cs : List Char) : Option (String × α) :=
  let inParentheses := do
    let r ← after? "[(".toList cs
    let (name, a) ← shortestRun (fun r ↦ after? ")]".toList r >>= k) r
    some (String.ofList name, a)
  match inParentheses with
  | some x => some x
  | none => bracketed k cs

/-- A part of a line, as text without blanks at the ends. -/
def part (cs : List Char) : String := String.ofList (trim cs)

end Text

open Text

namespace Line

/-- The line consisting of a word and nothing else. -/
def exactly (w : String) (l : Line) : Rule := fun cs ↦ if cs = w.toList then some l else none

/-- A word, then a name in brackets, then something that `k` accepts. -/
def wordThenName {α : Type} (w : String) (k : List Char → Option α) (f : String → α → Statement) :
    Rule := fun cs ↦ do
  let r ← after? w.toList cs
  let (name, a) ← bracketed k r
  some (statement (f name a))

/-- Accepts anything. -/
def anything (_ : List Char) : Option Unit := some ()

/-! ### Statements before the headers -/

/-- The end of a call, with the expression after the word, before which a `<` may stand. -/
def resultRule : Rule := fun cs ↦ do
  let r ← after? "꺼억".toList cs
  let r := trimStart r
  let r := trim ((after? ['<'] r).getD r)
  some (statement (.result (if r = [] then none else some (Expr.ofChars r))))

/-- Whether a declaration ends with the word that shields the variable. -/
def shield? (cs : List Char) : Option Bool := some (after? "포자맨".toList cs).isSome

/-- The declaration of a variable that holds no list. -/
def declareRule (t : ItemType) : Rule := fun cs ↦ do
  let r ← after? (TypeTag.item t).render.toList cs
  let (name, shielded) ← variableName shield? r
  some (statement (.declare name (.item t) shielded))

/-- The declaration of a list. -/
def declareListRule : Rule := fun cs ↦ do
  let r ← after? "\x7bBMI[".toList cs
  let (spelling, name, shielded) ←
    shortestRun (fun r ↦ after? "]\x7d".toList r >>= variableName shield?) r
  some (statement (.declare name (.list (.ofSpelling (String.ofList spelling))) shielded))

/-- An increment; the keyword is the rest of the line. -/
def incrementRule : Rule := fun cs ↦ do
  let (name, keyword) ← variableName (fun r ↦ after? "꿀꺽<".toList r >>= restOfLine) cs
  some (statement (.increment name (part keyword)))

/-- The assignment of text in single quotes, up to the last one at the end of the line. -/
def assignTextRule : Rule := fun cs ↦ do
  let (name, s, _) ← variableName (fun r ↦
    after? "쩝쩝<'".toList r >>= longestRun fun r ↦ after? ['\''] r >>= atEnd?) cs
  some (statement (.assignText name (String.ofList s)))

/-- The assignment of an expression, the rest of the line. -/
def assignRule : Rule := fun cs ↦ do
  let (name, e) ← variableName (fun r ↦ after? "꿀떡<".toList r >>= restOfLine) cs
  some (statement (.assign name (Expr.ofChars e)))

/-- The items between the commas of a list; a blank text holds none. -/
def listItems (cs : List Char) : List String :=
  if trim cs = [] then [] else (cs.splitOn ',').map part

/-- The assignment of a list, between `"[` and the last `]"`. -/
def assignListRule : Rule := fun cs ↦ do
  let (name, items, _) ← variableName (fun r ↦
    after? "쿰척<\"[".toList r >>= longestRun (after? "]\"".toList)) cs
  some (statement (.assignList name (listItems items)))

/-- The sorting of a list. -/
def sortRule (w : String) (descending : Bool) : Rule :=
  wordThenName w anything fun name _ ↦ .sort name descending

/-- Output, told by the word at the end of the line. -/
def outputRule (w : String) (newline : Bool) : Rule := fun cs ↦
  (before? w.toList cs).map fun body ↦ statement (.ofOutput body newline)

/-- Input into a variable. -/
def inputRule : Rule := fun cs ↦ do
  let r ← after? "쿰척<(".toList cs
  let (name, _) ← shortestRun (after? [')']) r
  some (statement (.input (some (String.ofList name)) false))

/-! ### Headers -/

/-- A loop with an initial statement, a condition and a step, separated by the word of the
loop. -/
def forRule : Rule := fun cs ↦ do
  let r ← after? "그챼(".toList cs
  let (init, cond, step, _) ← shortestRun (fun r ↦ after? "그챼".toList r >>=
    shortestRun fun r ↦ after? "그챼".toList r >>= shortestRun (after? ")그챼".toList)) r
  some (header (.forLoop (part init) (part cond) (part step)))

/-- The first member of a chain of conditions. -/
def ifRule : Rule := fun cs ↦ do
  let r ← after? "비만인가[".toList cs
  let (cond, _) ← shortestRun (after? "]알아보자".toList) r
  some (header (.ifBlock (part cond)))

/-- A later member of a chain of conditions; the condition goes up to the last bracket. -/
def elseIfRule : Rule := fun cs ↦ do
  let r ← after? "학범이는비만일수도있음[".toList cs
  let (cond, _) ← longestSome (after? [']']) r
  some (header (.elseIf (part cond)))

/-- A loop with a condition, which goes up to the last parenthesis. -/
def whileRule : Rule := fun cs ↦ do
  let r ← after? "나살뺄거야(".toList cs
  let (cond, _) ← longestSome (after? [')']) r
  some (header (.whileLoop (part cond)))

/-- The parameters between the commas of a definition; blank ones are left out. -/
def parameters (cs : List Char) : List String :=
  ((cs.splitOn ',').map part).filter (· != "")

/-- The definition of a function; a space may stand inside its keyword. -/
def functionRule : Rule := fun cs ↦ do
  let (name, params, _) ← bracketed (fun r ↦ do
    let r ← after? "미쉥물".toList r
    let r ← after? "연료[".toList ((after? [' '] r).getD r)
    longestRun (after? "]전줴".toList) r) cs
  some (header (.function name (parameters params)))

/-! ### Statements after the headers -/

/-- A name in brackets and arguments in parentheses, up to the last parenthesis before a rest that
`k` accepts. -/
def callWith {α : Type} (k : List Char → Option α) (f : String → List Expr → Statement) : Rule :=
  fun cs ↦ do
    let (name, args, _) ← bracketed (fun r ↦ after? ['('] r >>= longestRun k) cs
    some (statement (f name (Expr.arguments args)))

/-- A deferred call. -/
def deferRule : Rule := callWith (fun r ↦ after? ")야식".toList r >>= atEnd?) .defer

/-- A call. -/
def callRule : Rule := callWith (after? [')']) .call

/-- The output of an item of a list. -/
def outputElementRule : Rule := fun cs ↦ do
  let (name, position, _) ←
    variableName (fun r ↦ after? "쿰척[".toList r >>= closedPosition?) cs
  some (statement (.outputElement name position))

/-- A pause; its length is the expression between the brackets. -/
def pauseRule : Rule := fun cs ↦ do
  let r ← after? "낮잠[".toList cs
  let (e, _) ← longestSome (fun r ↦ after? [']'] r >>= atEnd?) r
  some (statement (.pause (Expr.ofChars e)))

/-- A comment. -/
def commentRule : Rule := fun cs ↦ (after? "//".toList cs).map fun _ ↦ statement .comment

/-- The rules in the order in which they are tried. -/
def rules : List Rule := [
  exactly "몸무게0.1톤" (statement .leave),
  resultRule,
  exactly trueWord (statement (.truth true)),
  exactly falseWord (statement (.truth false)),
  declareRule .int,
  declareRule (.decimal .seven),
  declareRule (.decimal .fifteen),
  declareRule .text,
  declareListRule,
  incrementRule,
  assignTextRule,
  assignRule,
  assignListRule,
  sortRule "거꾸로줄세우기" true,
  sortRule "줄세우기" false,
  outputRule "쿰척<쿰척" true,
  outputRule "<쿰척" false,
  exactly "쿰척<()" (statement (.input none false)),
  exactly "쿰척<쿰척()" (statement (.input none true)),
  inputRule,
  forRule,
  ifRule,
  elseIfRule,
  exactly "학범이는비만이아님" (header .elseBlock),
  exactly "학범이는비만임" (statement .marker),
  whileRule,
  exactly "5분" (statement .marker),
  functionRule,
  deferRule,
  wordThenName "간장먹고" (after? "치기".toList) fun name _ ↦ .reset name,
  wordThenName "포자" anything fun name _ ↦ .randomize name,
  exactly "포자빵" (statement .randomizeAll),
  callRule,
  outputElementRule,
  wordThenName "냠냠" atEnd? fun name _ ↦ .push name,
  wordThenName "우웩" atEnd? fun name _ ↦ .pop name,
  exactly "체중계" (statement (.inspect none)),
  wordThenName "체중계" atEnd? fun name _ ↦ .inspect (some name),
  pauseRule,
  exactly "두그릇" twice,
  commentRule]

/-- The line that a text is: that of the first rule that fits, and otherwise an unknown one. -/
def ofChars (cs : List Char) : Line :=
  (rules.findSome? (· cs)).getD (statement (.unknown (String.ofList cs)))

/-- The line that a text is. -/
def ofString (s : String) : Line := ofChars s.toList

end Line

end Haklang

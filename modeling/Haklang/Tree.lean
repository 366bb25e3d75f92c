import Haklang.Passage

/-!
# Program trees

A passage is built into a tree: a statement, a block with the trees of its body, or a tree that
runs twice. Every tree carries the line that messages name, and a serial number. Trees are numbered
in the order in which they are completed, so a block has a higher number than everything in its
body, and a tree that runs twice a higher one than the tree inside.

Building takes the next free number and gives it back behind the last one used; the trees of a body
are built from its passages, gathered anew. That this ends rests on `Passage.size_ofLines_le`: the
body of a passage has fewer lines than the passage.
-/

namespace Haklang

/-- The head of a block, with its parts read. -/
inductive BlockHead where
  /-- A loop with an initial statement, a condition and a step. -/
  | forLoop (init : Statement) (cond : Cond) (step : Statement)
  /-- The first member of a chain of conditions. -/
  | ifBlock (cond : Cond)
  /-- A later member of a chain of conditions. -/
  | elseIf (cond : Cond)
  /-- The last member of a chain of conditions. -/
  | elseBlock
  /-- A loop with a condition. -/
  | whileLoop (cond : Cond)
  /-- The definition of a function. -/
  | function (name : String) (params : List String)

/-- A statement inside a header: a line that is one, and otherwise an unknown statement. -/
def Statement.ofString (s : String) : Statement :=
  match Line.ofString s with
  | .statement st => st
  | _ => .unknown s

/-- Reads the parts of a header. -/
def BlockHead.ofHeader : Header → BlockHead
  | .forLoop init cond step => forLoop (.ofString init) (.ofString cond) (.ofString step)
  | .ifBlock cond => ifBlock (.ofString cond)
  | .elseIf cond => elseIf (.ofString cond)
  | .elseBlock => elseBlock
  | .whileLoop cond => whileLoop (.ofString cond)
  | .function name params => function name params

/-- A tree with its serial number and its line. -/
inductive Tree where
  /-- A statement. -/
  | statement (id : Nat) (line : SourceLine) (s : Statement)
  /-- A block; its line is the header. -/
  | block (id : Nat) (line : SourceLine) (head : BlockHead) (body : List Tree)
  /-- A tree that runs twice; its line is that of the tree inside. -/
  | twice (id : Nat) (line : SourceLine) (inner : Tree)

namespace Tree

/-- The serial number. -/
def id : Tree → Nat
  | statement id _ _ => id
  | block id _ _ _ => id
  | twice id _ _ => id

/-- The line that messages name. -/
def line : Tree → SourceLine
  | statement _ line _ => line
  | block _ line _ _ => line
  | twice _ line _ => line

/-- The tree as it is, or made to run twice under the next number. -/
def repeated (twice? : Bool) (t : Tree) (next : Nat) : Tree × Nat :=
  if twice? then (twice next t.line t, next + 1) else (t, next)

mutual

/-- The tree of a passage, numbered from `next`, and the next free number. The marker that makes
the next item run twice is no tree. -/
def ofPassage? (p : Passage) (next : Nat) : Option (Tree × Nat) :=
  match Line.ofString p.head.text with
  | .twice => none
  | .statement s => some (statement next p.head s, next + 1)
  | .header h =>
    let (body, next) := ofLines p.body next
    some (block next p.head (.ofHeader h) body, next + 1)
termination_by (p.size, 0)
decreasing_by
  exact Prod.Lex.left _ _ (Nat.lt_succ_self _)

/-- The trees of a body, numbered from `next`, and the next free number. -/
def ofLines (lines : List SourceLine) (next : Nat) : List Tree × Nat :=
  ofPassages (Passage.ofLines lines) false next
termination_by (lines.length, 2)
decreasing_by
  rcases Nat.lt_or_eq_of_le (Passage.size_ofLines_le lines) with h | h
  · exact Prod.Lex.left _ _ h
  · rw [h]
    exact Prod.Lex.right _ (by decide)

/-- The trees of passages in order; `twice?` says whether a marker stands before them. -/
def ofPassages (passages : List Passage) (twice? : Bool) (next : Nat) : List Tree × Nat :=
  match passages with
  | [] => ([], next)
  | p :: rest =>
    match ofPassage? p next with
    | none => ofPassages rest true next
    | some (t, next) =>
      let (t, next) := t.repeated twice? next
      let (trees, next) := ofPassages rest false next
      (t :: trees, next)
termination_by (Passage.totalSize passages, 1)
decreasing_by
  · have h : p.size ≤ Passage.totalSize (p :: rest) := Nat.le_add_right _ _
    rcases Nat.lt_or_eq_of_le h with h | h
    · exact Prod.Lex.left _ _ h
    · rw [h]
      exact Prod.Lex.right _ (by decide)
  · exact Prod.Lex.left _ _ (by simp [Passage.totalSize, Passage.size])
  · exact Prod.Lex.left _ _ (by simp [Passage.totalSize, Passage.size])

end

end Tree

end Haklang

import Haklang.Expr.Basic

/-!
# Lines

What a line of source can be: a statement, the header of a block, or the marker that makes the next
item run twice. A line that matches no rule is a statement too, one that fails when it is reached.

A header keeps the source text of its conditions and statements; they are read when the block is
built. Four words close a block, and one of the four also opens a body when it directly follows a
header.
-/

namespace Haklang

/-- A token of an output statement. -/
inductive OutputItem where
  /-- Text as it stands. -/
  | text (s : String)
  /-- The value of a variable. -/
  | var (name : String)
  /-- The item of a list at a position, counted from one. -/
  | element (name : String) (position : Nat)
deriving DecidableEq, Repr

/-- Statements of one line. -/
inductive Statement where
  /-- Leaves the innermost loop, or the call outside loops. -/
  | leave
  /-- Ends a call, with a value if there is one. -/
  | result (e? : Option Expr)
  /-- A truth value on a line of its own, which does nothing. -/
  | truth (b : Bool)
  /-- Declares a variable; a shielded one keeps its value when all are randomized. -/
  | declare (name : String) (tag : TypeTag) (shielded : Bool)
  /-- Adds the step that a keyword names. -/
  | increment (name : String) (keyword : String)
  /-- Assigns text as it stands. -/
  | assignText (name : String) (s : String)
  /-- Assigns the value of an expression. -/
  | assign (name : String) (e : Expr)
  /-- Assigns a list given by the texts of its items. -/
  | assignList (name : String) (items : List String)
  /-- Sorts a list. -/
  | sort (name : String) (descending : Bool)
  /-- Writes tokens, and a line feed if asked to. -/
  | output (items : List OutputItem) (newline : Bool)
  /-- Reads a console line, into a variable if there is one. -/
  | input (name? : Option String) (newline : Bool)
  /-- Calls a function. -/
  | call (name : String) (args : List Expr)
  /-- Puts a call off to the end of the program. -/
  | defer (name : String) (args : List Expr)
  /-- Gives a variable the value that it had when it was declared. -/
  | reset (name : String)
  /-- Gives a variable a random value. -/
  | randomize (name : String)
  /-- Gives every variable a random value. -/
  | randomizeAll
  /-- Writes the item of a list at a position, counted from one, and a line feed. -/
  | outputElement (name : String) (position : Nat)
  /-- Pushes the value of a variable on the stack. -/
  | push (name : String)
  /-- Pops a value from the stack into a variable. -/
  | pop (name : String)
  /-- Writes the type and the value of one variable, or of all together with the stack. -/
  | inspect (name? : Option String)
  /-- Pauses for a number of seconds. -/
  | pause (seconds : Expr)
  /-- A marker after a header, which does nothing. -/
  | marker
  /-- A comment. -/
  | comment
  /-- A line that matches no rule. -/
  | unknown (line : String)

/-- The header of a block. -/
inductive Header where
  /-- A loop with an initial statement, a condition and a step. -/
  | forLoop (init cond step : String)
  /-- The first member of a chain of conditions. -/
  | ifBlock (cond : String)
  /-- A later member of a chain of conditions. -/
  | elseIf (cond : String)
  /-- The last member of a chain of conditions. -/
  | elseBlock
  /-- A loop with a condition. -/
  | whileLoop (cond : String)
  /-- The definition of a function. -/
  | function (name : String) (params : List String)
deriving DecidableEq, Repr

/-- A line of source. -/
inductive Line where
  /-- A statement. -/
  | statement (s : Statement)
  /-- The header of a block. -/
  | header (h : Header)
  /-- The marker that makes the next item run twice. -/
  | twice

namespace Line

/-- Whether the line is the header of a block. -/
def isHeader : Line → Bool
  | header _ => true
  | _ => false

/-- The word that opens the body of a block, directly after its header. -/
def bodyOpener : String := "학"

/-- The words that close the innermost open block. -/
def closers : List String := ["귤한봉지", "학", "\x7d귤한봉지", "\x7d그챼"]

/-- Whether a line closes the innermost open block. -/
def isCloser (text : String) : Bool := closers.contains text

/-- The word that the first line of a program starts with; a line of this word alone is
skipped. -/
def sentinel : String := "학범"

end Line

end Haklang

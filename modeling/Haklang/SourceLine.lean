import Haklang.Text.Blank

/-!
# Source lines

A program is its lines. A line is known by its number, counted from one, and by its text without
the blanks at the ends; both are part of every message about it.
-/

namespace Haklang

/-- A line of source. -/
structure SourceLine where
  /-- The number of the line. -/
  number : Nat
  /-- The text of the line. -/
  text : String
deriving DecidableEq, Repr

/-- The texts between the line feeds. -/
def Text.lines (s : String) : List String := (s.toList.splitOn '\n').map String.ofList

end Haklang

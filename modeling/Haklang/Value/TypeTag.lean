/-!
# Type tags

Every variable carries a type tag: one of four kinds of item (integers, decimals of two precisions,
text) or a list of such items. The precision of a decimal decides how many places are written and
nothing else.

The tag is written as in a declaration (`TypeTag.render`). A list of text is written with an empty
item kind, while any kind that is not one of the three numeric spellings reads as text
(`ItemType.ofSpelling`, `ofSpelling_spelling`).
-/

namespace Haklang

/-- How many places of a decimal are written. -/
inductive Precision where
  /-- Seven places. -/
  | seven
  /-- Fifteen places. -/
  | fifteen
deriving DecidableEq, Repr

/-- The number of places. -/
def Precision.places : Precision → Nat
  | seven => 7
  | fifteen => 15

/-- The kinds of a list's items, and of a variable that holds no list. -/
inductive ItemType where
  /-- Integers of 64 bits. -/
  | int
  /-- Decimals, written with the given number of places. -/
  | decimal (p : Precision)
  /-- Text. -/
  | text
deriving DecidableEq, Repr

namespace ItemType

/-- The kind that a spelling inside the brackets of a list declaration names. -/
def ofSpelling (s : String) : ItemType :=
  if s = "30" then int
  else if s = "30.7" then decimal .seven
  else if s = "30.7ㅋㅋ" then decimal .fifteen
  else text

/-- The spelling of a kind inside the brackets of a list tag. -/
def spelling : ItemType → String
  | int => "30"
  | decimal .seven => "30.7"
  | decimal .fifteen => "30.7ㅋㅋ"
  | text => ""

theorem ofSpelling_spelling (t : ItemType) : ofSpelling t.spelling = t := by
  rcases t with _ | (_ | _) | _ <;> decide

/-- The name of a kind in messages about lists. -/
def name : ItemType → String
  | int => "Integer"
  | decimal .seven => "Decimal7"
  | decimal .fifteen => "Decimal15"
  | text => "Text"

end ItemType

/-- The type of a variable. -/
inductive TypeTag where
  /-- A single item. -/
  | item (t : ItemType)
  /-- A list of items. -/
  | list (t : ItemType)
deriving DecidableEq, Repr

namespace TypeTag

/-- The tag of integers. -/
abbrev int : TypeTag := item .int

/-- The tag of decimals. -/
abbrev decimal (p : Precision) : TypeTag := item (.decimal p)

/-- The tag of text. -/
abbrev text : TypeTag := item .text

/-- The spelling of the tag in a declaration. -/
def render : TypeTag → String
  | item .int => "\x7bBMI30\x7d"
  | item (.decimal .seven) => "\x7bBMI30.7\x7d"
  | item (.decimal .fifteen) => "\x7bBMI30.7ㅋㅋ\x7d"
  | item .text => "\x7bBMI\x7d"
  | list t => "\x7bBMI[" ++ t.spelling ++ "]\x7d"

end TypeTag

end Haklang

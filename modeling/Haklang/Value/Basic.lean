import Haklang.Number.Integer
import Haklang.Number.Decimal.Basic
import Haklang.Number.Decimal.Rounding
import Haklang.Value.TypeTag

/-!
# Values

A value is an integer, a decimal with its precision, text, a list, or a truth value. Truth values
arise inside expressions only: whatever a variable holds has a type tag, and a truth value that is
stored becomes an integer.

A list holds items of one kind, by construction. `ItemList.values` is the view of a list as plain
values; the other operations on lists are stated through it (`values_append`, `values_reverse`,
`get?_eq`, `size_eq`).
-/

namespace Haklang

/-- A list of items of one kind. -/
inductive ItemList where
  /-- A list of integers. -/
  | ints (xs : List Integer)
  /-- A list of decimals of one precision. -/
  | decimals (p : Precision) (xs : List Decimal)
  /-- A list of texts. -/
  | texts (xs : List String)
deriving DecidableEq

/-- A value. -/
inductive Value where
  /-- An integer. -/
  | int (n : Integer)
  /-- A decimal. -/
  | decimal (p : Precision) (d : Decimal)
  /-- Text. -/
  | text (s : String)
  /-- A list. -/
  | list (xs : ItemList)
  /-- A truth value. -/
  | bool (b : Bool)
deriving DecidableEq

/-- What messages call a value. -/
inductive ValueKind where
  /-- Integers. -/
  | integer
  /-- Decimals of either precision. -/
  | decimal
  /-- Text. -/
  | text
  /-- Lists of any items. -/
  | list
  /-- Truth values. -/
  | boolean
deriving DecidableEq, Repr

/-- The word for a kind. -/
def ValueKind.name : ValueKind → String
  | integer => "integer"
  | decimal => "decimal"
  | text => "text"
  | list => "list"
  | boolean => "boolean"

namespace ItemList

/-- The list without items. -/
def empty : ItemType → ItemList
  | .int => ints []
  | .decimal p => decimals p []
  | .text => texts []

/-- The kind of the items. -/
def itemType : ItemList → ItemType
  | ints _ => .int
  | decimals p _ => .decimal p
  | texts _ => .text

/-- The items as values. -/
def values : ItemList → List Value
  | ints xs => xs.map .int
  | decimals p xs => xs.map (.decimal p)
  | texts xs => xs.map .text

/-- The number of items. -/
def size : ItemList → Nat
  | ints xs => xs.length
  | decimals _ xs => xs.length
  | texts xs => xs.length

/-- The item at a position, counted from zero. -/
def get? (xs : ItemList) (i : Nat) : Option Value :=
  match xs with
  | ints xs => xs[i]?.map .int
  | decimals p xs => xs[i]?.map (.decimal p)
  | texts xs => xs[i]?.map .text

/-- The items in the opposite order. -/
def reverse : ItemList → ItemList
  | ints xs => ints xs.reverse
  | decimals p xs => decimals p xs.reverse
  | texts xs => texts xs.reverse

/-- The items of one list after those of another, if they are of one kind. -/
def append? : ItemList → ItemList → Option ItemList
  | ints xs, ints ys => some (ints (xs ++ ys))
  | decimals .seven xs, decimals .seven ys => some (decimals .seven (xs ++ ys))
  | decimals .fifteen xs, decimals .fifteen ys => some (decimals .fifteen (xs ++ ys))
  | texts xs, texts ys => some (texts (xs ++ ys))
  | _, _ => none

@[simp] theorem itemType_empty (t : ItemType) : (empty t).itemType = t := by cases t <;> rfl

@[simp] theorem values_empty (t : ItemType) : (empty t).values = [] := by cases t <;> rfl

theorem size_eq (xs : ItemList) : xs.size = xs.values.length := by
  cases xs <;> simp [size, values]

theorem get?_eq (xs : ItemList) (i : Nat) : xs.get? i = xs.values[i]? := by
  cases xs <;> simp [get?, values]

@[simp] theorem itemType_reverse (xs : ItemList) : xs.reverse.itemType = xs.itemType := by
  cases xs <;> rfl

@[simp] theorem values_reverse (xs : ItemList) : xs.reverse.values = xs.values.reverse := by
  cases xs <;> simp [reverse, values]

/-- Lists are appended exactly when their items are of one kind. -/
theorem append?_isSome_iff {xs ys : ItemList} :
    (xs.append? ys).isSome = true ↔ xs.itemType = ys.itemType := by
  rcases xs with _ | ⟨(_ | _), _⟩ | _ <;> rcases ys with _ | ⟨(_ | _), _⟩ | _ <;>
    simp [append?, itemType]

theorem values_append {xs ys zs : ItemList} (h : xs.append? ys = some zs) :
    zs.values = xs.values ++ ys.values ∧ zs.itemType = xs.itemType := by
  rcases xs with _ | ⟨(_ | _), _⟩ | _ <;> rcases ys with _ | ⟨(_ | _), _⟩ | _ <;>
    simp only [append?, reduceCtorEq, Option.some.injEq] at h <;> subst h <;>
    simp [values, itemType]

/-- The items in brackets, each written as a value of its kind, with a comma and a space
between. -/
def render (xs : ItemList) : String :=
  let items := match xs with
    | ints xs => xs.map Integer.render
    | decimals p xs => xs.map fun d ↦ d.fixed p.places
    | texts xs => xs
  "[" ++ ", ".intercalate items ++ "]"

end ItemList

/-- The literal for true. -/
def trueWord : String := "야오루폐"

/-- The literal for false. -/
def falseWord : String := "야조깜베"

namespace Value

/-- What a variable of a type holds when it is declared: thirty, 30.7, or nothing. -/
def default : TypeTag → Value
  | .item .int => int ⟨30, by decide, by decide⟩
  | .item (.decimal p) => decimal p ⟨307, 1⟩
  | .item .text => text ""
  | .list t => list (.empty t)

/-- The type of a value; a truth value counts as an integer. -/
def typeTag : Value → TypeTag
  | int _ => .int
  | decimal p _ => .decimal p
  | text _ => .text
  | list xs => .list xs.itemType
  | bool _ => .int

@[simp] theorem typeTag_default (t : TypeTag) : (default t).typeTag = t := by
  rcases t with (_ | _ | _) | t <;> simp [default, typeTag]

/-- What messages call the value. -/
def kind : Value → ValueKind
  | int _ => .integer
  | decimal _ _ => .decimal
  | text _ => .text
  | list _ => .list
  | bool _ => .boolean

/-- The number that a value is, if it is one. -/
def number? : Value → Option Decimal
  | int n => some (.ofInt n.val)
  | bool b => some (.ofInt (Integer.ofBool b).val)
  | decimal _ d => some d
  | text _ => none
  | list _ => none

/-- Whether the value is a number; truth values are. -/
def isNumeric : Value → Bool
  | text _ => false
  | list _ => false
  | _ => true

theorem isNumeric_iff {v : Value} : v.isNumeric = true ↔ v.number?.isSome = true := by
  cases v <;> simp [isNumeric, number?]

/-- Zero, empty text and empty lists do not hold; all else does. -/
def holds : Value → Bool
  | int n => n.val != 0
  | decimal _ d => !d.isZero
  | text s => s != ""
  | list xs => xs.size != 0
  | bool b => b

/-- The text of a value. -/
def render : Value → String
  | int n => n.render
  | decimal p d => d.fixed p.places
  | text s => s
  | list xs => xs.render
  | bool true => trueWord
  | bool false => falseWord

/-- A value as a variable keeps it: truth values become one and zero. -/
def stored : Value → Value
  | bool b => int (.ofBool b)
  | v => v

@[simp] theorem typeTag_stored (v : Value) : v.stored.typeTag = v.typeTag := by cases v <;> rfl

end Value

end Haklang

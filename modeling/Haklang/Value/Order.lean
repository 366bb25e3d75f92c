import Haklang.Value.Basic

/-!
# The order of values

Two values can be compared when both are numbers, both text, or both lists of comparable items:
numbers by value whatever their types, text by code points, lists item by item and then by length.
Lists are sorted by the same orders; sorting keeps the order of equal items, and the descending
order is the ascending one reversed.
-/

namespace Haklang

namespace ItemList

/-- How two lists compare, if their items do. -/
def compare? : ItemList → ItemList → Option Ordering
  | ints xs, ints ys => some (List.compareLex (fun a b ↦ compare a.val b.val) xs ys)
  | texts xs, texts ys => some (List.compareLex compare xs ys)
  | decimals _ xs, decimals _ ys => some (List.compareLex Decimal.compare xs ys)
  | _, _ => none

/-- The items in ascending order. -/
def sortAscending : ItemList → ItemList
  | ints xs => ints (xs.mergeSort fun a b ↦ decide (a.val ≤ b.val))
  | decimals p xs => decimals p (xs.mergeSort fun a b ↦ (Decimal.compare a b).isLE)
  | texts xs => texts (xs.mergeSort fun a b ↦ (compare a b).isLE)

/-- The items in ascending order, or in that order reversed. -/
def sort (descending : Bool) (xs : ItemList) : ItemList :=
  if descending then xs.sortAscending.reverse else xs.sortAscending

@[simp] theorem itemType_sort (descending : Bool) (xs : ItemList) :
    (xs.sort descending).itemType = xs.itemType := by
  cases descending <;> cases xs <;> rfl

/-- Sorting rearranges the items. -/
theorem values_sort_perm (descending : Bool) (xs : ItemList) :
    (xs.sort descending).values.Perm xs.values := by
  have h : xs.sortAscending.values.Perm xs.values := by
    cases xs <;> exact (List.mergeSort_perm _ _).map _
  cases descending
  · exact h
  · simpa [sort] using (List.reverse_perm _).trans h

end ItemList

namespace Value

/-- How two values compare, if they can be compared. -/
def compare? : Value → Value → Option Ordering
  | text a, text b => some (compare a b)
  | list xs, list ys => xs.compare? ys
  | a, b =>
    match a.number?, b.number? with
    | some x, some y => some (x.compare y)
    | _, _ => none

/-- Whether two values are equal; values that cannot be compared are not. -/
def equals (a b : Value) : Bool := a.compare? b == some .eq

end Value

/-- The relations of conditions. -/
inductive Relation where
  /-- At most. -/
  | le
  /-- At least. -/
  | ge
  /-- Equal. -/
  | eq
  /-- Less than. -/
  | lt
  /-- Greater than. -/
  | gt
deriving DecidableEq, Repr

/-- Whether a relation holds between things that compare in the given way. -/
def Relation.holdsFor : Relation → Ordering → Bool
  | le, o => o != .gt
  | ge, o => o != .lt
  | eq, o => o == .eq
  | lt, o => o == .lt
  | gt, o => o == .gt

end Haklang

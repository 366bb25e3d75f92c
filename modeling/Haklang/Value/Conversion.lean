import Haklang.Number.Decimal.Reader
import Haklang.Value.Basic

/-!
# Conversion between types

What a value becomes when it is stored in a variable, bound to a parameter, appended to a list or
read from text. A conversion either gives a value of the type asked for
(`Value.typeTag_of_convert?`) or does not exist.
-/

namespace Haklang

namespace Value

/-- The value as one of type `t`. Numbers are converted into each other, a decimal stored as an
integer losing its places; text and lists only stay what they are. -/
def convert? (t : TypeTag) (v : Value) : Option Value :=
  match t, v with
  | .item .int, int n => some (int n)
  | .item .int, bool b => some (int (.ofBool b))
  | .item .int, decimal _ d => d.truncate?.map int
  | .item (.decimal p), v => v.number?.map (decimal p)
  | .item .text, text s => some (text s)
  | .list t, list xs => if xs.itemType = t then some (list xs) else none
  | _, _ => none

/-- What is converted has the type asked for. -/
theorem typeTag_of_convert? {t : TypeTag} {v w : Value} (h : v.convert? t = some w) :
    w.typeTag = t := by
  rcases t with (_ | p | _) | t
  · cases v <;> simp only [convert?, reduceCtorEq, Option.some.injEq, Option.map_eq_some_iff] at h
    · exact h ▸ rfl
    · obtain ⟨n, _, rfl⟩ := h
      rfl
    · exact h ▸ rfl
  · simp only [convert?, Option.map_eq_some_iff] at h
    obtain ⟨d, _, rfl⟩ := h
    rfl
  · cases v <;> simp only [convert?, reduceCtorEq, Option.some.injEq] at h
    exact h ▸ rfl
  · cases v <;> simp only [convert?, reduceCtorEq] at h
    split at h
    · rename_i ht
      exact Option.some.inj h ▸ congrArg TypeTag.list ht
    · cases h

/-- The form that an argument takes in the called function: decimals have seven places and truth
values are integers. -/
def argument : Value → Value
  | decimal _ d => decimal .seven d
  | bool b => int (.ofBool b)
  | v => v

end Value

namespace ItemList

/-- The list with a value after its last item, converted to the kind of the items; any value but a
list fits a list of text. -/
def push? (xs : ItemList) (v : Value) : Option ItemList :=
  match v with
  | .list _ => none
  | v =>
    match xs with
    | ints xs =>
      match v.convert? .int with
      | some (.int n) => some (ints (xs ++ [n]))
      | _ => none
    | decimals p xs => v.number?.map fun d ↦ decimals p (xs ++ [d])
    | texts xs => some (texts (xs ++ [v.render]))

/-- An appended value does not change the kind of the items. -/
theorem itemType_of_push? {xs ys : ItemList} {v : Value} (h : xs.push? v = some ys) :
    ys.itemType = xs.itemType := by
  unfold push? at h
  split at h
  · cases h
  · cases xs with
    | ints xs =>
      simp only at h
      split at h
      · exact Option.some.inj h ▸ rfl
      · cases h
    | decimals p xs =>
      simp only [Option.map_eq_some_iff] at h
      obtain ⟨d, _, rfl⟩ := h
      rfl
    | texts xs => exact Option.some.inj h ▸ rfl

/-- Reads each text with `f`; the first one that `f` does not accept is the failure. -/
def readEach {α : Type} (f : List Char → Option α) : List String → Except String (List α)
  | [] => .ok []
  | s :: rest =>
    match f s.toList with
    | none => .error s
    | some a => (readEach f rest).map (a :: ·)

/-- A list of the given kind from the texts of its items, or the first text that is no such
item. -/
def read (t : ItemType) (items : List String) : Except String ItemList :=
  match t with
  | .int => (readEach Integer.read? items).map ints
  | .decimal p => (readEach Decimal.read? items).map (decimals p)
  | .text => .ok (texts items)

/-- A list that is read has the kind asked for. -/
theorem itemType_of_read {t : ItemType} {items : List String} {xs : ItemList}
    (h : read t items = .ok xs) : xs.itemType = t := by
  cases t with
  | int =>
    cases hr : readEach Integer.read? items <;> simp only [read, hr, Except.map] at h
    · cases h
    · exact (Except.ok.inj h) ▸ rfl
  | decimal p =>
    cases hr : readEach Decimal.read? items <;> simp only [read, hr, Except.map] at h
    · cases h
    · exact (Except.ok.inj h) ▸ rfl
  | text => exact (Except.ok.inj h) ▸ rfl

end ItemList

end Haklang

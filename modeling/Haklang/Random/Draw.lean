import Haklang.Random.Generator
import Haklang.Value.Basic

/-!
# Random values

The value that a variable gets when it is randomized. Numbers are uniform between bounds, decimals
with seven places; text is one of a few words. A list gets three to five items, its length drawn
before them, and its items have narrower bounds and fewer words.

`typeTag_draw` says that the value drawn for a type has that type.
-/

namespace Haklang

namespace Generator

/-- The words that text is drawn from. -/
def words : Vector String 8 := #v["학범", "비만", "하악", "귤", "쿰척", "꿀꺽", "포자", "미쉥물"]

/-- The words that the items of a list are drawn from. -/
def itemWords : Vector String 5 := #v["학범", "비만", "하악", "귤", "쿰척"]

/-- An integer between `-bound` and `bound`. -/
def integer (bound : Nat) (h : bound ≤ 9223372036854775807) (g : Generator) :
    Integer × Generator :=
  let k := below64 (2 * bound + 1) (Nat.succ_pos _) g
  (⟨(k.1.val : Int) - bound, by omega, by omega⟩, k.2)

/-- A decimal between `-bound` and `bound` with seven places. -/
def decimal (bound : Nat) (g : Generator) : Decimal × Generator :=
  let k := below64 (2 * (bound * 10000000) + 1) (Nat.succ_pos _) g
  (⟨(k.1.val : Int) - (bound * 10000000 : Nat), 7⟩, k.2)

/-- One of some words. -/
def word {n : Nat} (words : Vector String (n + 1)) (g : Generator) : String × Generator :=
  let k := below32 (n + 1) (Nat.succ_pos n) g
  (words[k.1], k.2)

/-- Draws `n` times, in order. -/
def times {α : Type} (draw : Generator → α × Generator) : Nat → Generator → List α × Generator
  | 0, g => ([], g)
  | n + 1, g =>
    let a := draw g
    let rest := times draw n a.2
    (a.1 :: rest.1, rest.2)

/-- A list with three to five items. -/
def list (t : ItemType) (g : Generator) : ItemList × Generator :=
  let k := below32 3 (by decide) g
  let n := k.1.val + 3
  match t with
  | .int => let xs := times (integer 100 (by decide)) n k.2; (.ints xs.1, xs.2)
  | .decimal p => let xs := times (decimal 100) n k.2; (.decimals p xs.1, xs.2)
  | .text => let xs := times (word itemWords) n k.2; (.texts xs.1, xs.2)

/-- A value of the given type. -/
def draw (t : TypeTag) (g : Generator) : Value × Generator :=
  match t with
  | .item .int => let n := integer 1000 (by decide) g; (.int n.1, n.2)
  | .item (.decimal p) => let d := decimal 1000 g; (.decimal p d.1, d.2)
  | .item .text => let s := word words g; (.text s.1, s.2)
  | .list t => let xs := list t g; (.list xs.1, xs.2)

/-- The value drawn for a type has that type. -/
theorem typeTag_draw (t : TypeTag) (g : Generator) : (draw t g).1.typeTag = t := by
  rcases t with (_ | _ | _) | (_ | _ | _) <;> rfl

end Generator

end Haklang

import Haklang.Random.Draw

/-!
# The bounds of random values

A value that is drawn for a type has the type and keeps within its bounds (`Value.DrawnFor`),
whatever words the generator gives. A number is drawn by shifting a number below a bound, and that
one is below its bound by its type, so nothing is asked of the generator.
-/

namespace Haklang

/-- The integer is between `-bound` and `bound`. -/
def Integer.Within (bound : Nat) (n : Integer) : Prop := -(bound : Int) ≤ n.val ∧ n.val ≤ bound

/-- The decimal has seven places and is between `-bound` and `bound`. -/
def Decimal.Within (bound : Nat) (d : Decimal) : Prop :=
  d.scale = 7 ∧ -(bound * 10000000 : Int) ≤ d.digits ∧ d.digits ≤ bound * 10000000

/-- The values that may be drawn for a type. -/
inductive Value.DrawnFor : TypeTag → Value → Prop where
  /-- An integer, at most a thousand away from zero. -/
  | int {n : Integer} (h : n.Within 1000) : DrawnFor (.item .int) (.int n)
  /-- A decimal, at most a thousand away from zero. -/
  | decimal {p : Precision} {d : Decimal} (h : d.Within 1000) :
    DrawnFor (.item (.decimal p)) (.decimal p d)
  /-- One of the words. -/
  | text {s : String} (h : s ∈ Generator.words.toList) : DrawnFor (.item .text) (.text s)
  /-- Three to five integers, each at most a hundred away from zero. -/
  | ints {xs : List Integer} (hlength : 3 ≤ xs.length ∧ xs.length ≤ 5)
    (h : ∀ n ∈ xs, n.Within 100) : DrawnFor (.list .int) (.list (.ints xs))
  /-- Three to five decimals, each at most a hundred away from zero. -/
  | decimals {p : Precision} {xs : List Decimal} (hlength : 3 ≤ xs.length ∧ xs.length ≤ 5)
    (h : ∀ d ∈ xs, d.Within 100) : DrawnFor (.list (.decimal p)) (.list (.decimals p xs))
  /-- Three to five of the first five words. -/
  | texts {xs : List String} (hlength : 3 ≤ xs.length ∧ xs.length ≤ 5)
    (h : ∀ s ∈ xs, s ∈ Generator.words.toList.take 5) : DrawnFor (.list .text) (.list (.texts xs))

namespace Generator

theorem within_integer (bound : Nat) (h : bound ≤ 9223372036854775807) (g : Generator) :
    (integer bound h g).1.Within bound := by
  have hlt := (below64 (2 * bound + 1) (Nat.succ_pos _) g).1.isLt
  constructor <;> simp only [integer] <;> omega

theorem within_decimal (bound : Nat) (g : Generator) : (decimal bound g).1.Within bound := by
  have hlt := (below64 (2 * (bound * 10000000) + 1) (Nat.succ_pos _) g).1.isLt
  refine ⟨rfl, ?_, ?_⟩ <;> simp only [decimal] <;> omega

theorem word_mem {n : Nat} (words : Vector String (n + 1)) (g : Generator) :
    (word words g).1 ∈ words.toList :=
  Vector.mem_toList_iff.2 (Vector.getElem_mem _)

section Times

variable {α : Type} {draw : Generator → α × Generator}

theorem length_times (n : Nat) (g : Generator) : (times draw n g).1.length = n := by
  induction n generalizing g with
  | zero => rfl
  | succ n ih => exact congrArg Nat.succ (ih _)

/-- What holds of every value that may be drawn holds of all that are drawn. -/
theorem forall_mem_times {P : α → Prop} (h : ∀ g, P (draw g).1) (n : Nat) (g : Generator) :
    ∀ a ∈ (times draw n g).1, P a := by
  induction n generalizing g with
  | zero => exact nofun
  | succ n ih => exact List.forall_mem_cons.2 ⟨h g, ih _⟩

end Times

/-- The value that is drawn for a type has the type and keeps within its bounds. -/
theorem drawnFor_draw (t : TypeTag) (g : Generator) : (draw t g).1.DrawnFor t := by
  have hlength {α : Type} {draw : Generator → α × Generator} (k : Fin 3) (g : Generator) :
      3 ≤ (times draw (k.val + 3) g).1.length ∧ (times draw (k.val + 3) g).1.length ≤ 5 := by
    rw [length_times]
    omega
  cases t with
  | item t =>
    cases t with
    | int => exact .int (within_integer 1000 _ g)
    | decimal p => exact .decimal (within_decimal 1000 g)
    | text => exact .text (word_mem words g)
  | list t =>
    cases t with
    | int => exact .ints (hlength _ _) (forall_mem_times (within_integer 100 _) _ _)
    | decimal p => exact .decimals (hlength _ _) (forall_mem_times (within_decimal 100) _ _)
    | text => exact .texts (hlength _ _) (forall_mem_times (word_mem itemWords) _ _)

end Generator

end Haklang

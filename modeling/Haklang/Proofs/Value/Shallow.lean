import Haklang.Increment
import Haklang.Store

/-!
# Operations that call nothing

No comparison, no increment and no access to the store ever fails because a limit has been reached
(`Shallow`), and an operator does so only where it stops the run
(`BinaryOperator.shallow_apply`). All other such faults are left to calls and to loops.
-/

namespace Haklang

/-- Whether failures of the category say that a limit has been reached: how deep calls are nested,
how often a loop runs, how many calls that were put off run, or how large a magnitude is. -/
def Fault.Category.isLimit : Fault.Category → Bool
  | callDepth | runaway | stopped => true
  | _ => false

/-- The result is not the fault that a limit has been reached. -/
def Shallow {α : Type} (r : Except Fault α) : Prop :=
  ∀ e, r = .error e → e.category.isLimit = false

/-- A value is no fault. -/
theorem shallow_ok {α : Type} (a : α) : Shallow (.ok a : Except Fault α) := nofun

/-- A fault may be shown to be about no limit by its category. -/
theorem shallow_error {α : Type} {e : Fault} (h : e.category.isLimit = false) :
    Shallow (.error e : Except Fault α) := by
  rintro _ ⟨⟩
  exact h

/-- What fails because of no limit does not stop the run. -/
theorem Shallow.ne_noMagnitude {α : Type} {r : Except Fault α} (hr : Shallow r) :
    r ≠ .error .noMagnitude := fun h ↦ by cases hr _ h

/-- Mapping the value does not touch the fault. -/
theorem Shallow.map {α β : Type} {r : Except Fault α} (hr : Shallow r) (f : α → β) :
    Shallow (r.map f) := by
  cases r with
  | ok a => exact shallow_ok _
  | error e => exact shallow_error (hr e rfl)

namespace Value

/-- An integer that does not fit is an overflow, which is about no limit. -/
theorem shallow_ofInt (n : Int) : Shallow (ofInt n) := by
  unfold ofInt
  split
  · exact shallow_ok _
  · exact shallow_error rfl

/-- Whichever operation it is, it fails because of the types or because of an overflow. -/
theorem shallow_arithmetic (attempt : Fault.Attempt) (onInt : Int → Int → Int)
    (onDecimal : Decimal → Decimal → Decimal) (a b : Value) :
    Shallow (arithmetic attempt onInt onDecimal a b) := by
  unfold arithmetic
  split
  · exact shallow_ofInt _
  · exact shallow_ok _
  · exact shallow_error rfl

/-- Division fails because of the types only, since a quotient by zero is the integer zero. -/
theorem shallow_divide (a b : Value) : Shallow (a.divide b) := by
  unfold divide
  split
  · exact shallow_ok _
  · exact shallow_ok _
  · exact shallow_error rfl

/-- A power in binary floating point fails because of a negative base or because of its range. -/
theorem shallow_floatPower (p : Precision) (base exponent : Decimal) :
    Shallow (floatPower p base exponent) := by
  unfold floatPower
  dsimp only
  split
  · exact shallow_error rfl
  · split
    · exact shallow_ok _
    · exact shallow_error rfl

/-- A whole power of a decimal fails if it divides by zero. -/
theorem shallow_wholePower (p : Precision) (base : Decimal) (e : Int) :
    Shallow (wholePower p base e) := by
  unfold wholePower
  split
  · exact shallow_error rfl
  · exact shallow_ok _

/-- A power of integers fails if it overflows, if it divides by zero or as one in binary floating
point does. -/
theorem shallow_integerPower (b e : Integer) : Shallow (integerPower b e) := by
  unfold integerPower
  split
  · split
    · split
      · exact shallow_ok _
      · exact shallow_error rfl
    · exact shallow_error rfl
  · split
    · exact shallow_error rfl
    · split
      · exact shallow_floatPower _ _ _
      · exact shallow_wholePower _ _ _

/-- A power fails because of a limit only where the exponent has no magnitude. -/
theorem shallow_power {a b : Value} (h : a.power b ≠ .error .noMagnitude) :
    Shallow (a.power b) := by
  unfold power at h ⊢
  split
  · exact shallow_integerPower _ _
  case h_2 hform =>
    simp only [hform] at h
    unfold decimalPower at h ⊢
    split
    · exact shallow_floatPower _ _ _
    case h_2 hwhole =>
      simp only [hwhole] at h
      split
      case h_1 hnone => exact absurd (by simp only [hnone]) h
      case h_2 =>
        split
        · exact shallow_wholePower _ _ _
        · exact shallow_floatPower _ _ _
  · exact shallow_error rfl

/-- Addition fails as arithmetic does, or because two lists have different items. -/
theorem shallow_add (a b : Value) : Shallow (a.add b) := by
  unfold add
  split
  · exact shallow_ok _
  · split
    · exact shallow_ok _
    · exact shallow_error rfl
  · exact shallow_arithmetic _ _ _ _ _

/-- Joining fails only if a value cannot become an item of the list on its left. -/
theorem shallow_join (a b : Value) : Shallow (a.join b) := by
  unfold join
  split
  · split <;> exact shallow_ok _
  · split
    · exact shallow_ok _
    · exact shallow_error rfl
  · exact shallow_ok _

/-- Values that cannot be compared are a fault about their types. -/
theorem shallow_order (a b : Value) : Shallow (a.order b) := by
  unfold order
  split
  · exact shallow_ok _
  · exact shallow_error rfl

/-- A relation fails as the order does that it asks for. -/
theorem shallow_relate (r : Relation) (a b : Value) : Shallow (relate r a b) := by
  unfold relate
  split
  · exact shallow_ok _
  · exact (shallow_order a b).map _

/-- Every value has an opposite but the least integer, where it is an overflow. -/
theorem shallow_negate (v : Value) : Shallow v.negate := by
  cases v with
  | int n => exact shallow_ofInt _
  | _ => exact shallow_ok _

end Value

/-- Powers apart, operators fail because of no limit. -/
theorem BinaryOperator.shallow_apply_of_ne {op : BinaryOperator} (hop : op ≠ .power) (a b : Value) :
    Shallow (op.apply a b) := by
  cases op with
  | join => exact Value.shallow_join a b
  | max => exact (Value.shallow_order b a).map _
  | power => exact absurd rfl hop
  | multiply => exact Value.shallow_arithmetic _ _ _ a b
  | divide => exact Value.shallow_divide a b
  | add => exact Value.shallow_add a b
  | subtract => exact Value.shallow_arithmetic _ _ _ a b

/-- An operator that does not stop the run fails because of no limit. -/
theorem BinaryOperator.shallow_apply {op : BinaryOperator} {a b : Value}
    (h : op.apply a b ≠ .error .noMagnitude) : Shallow (op.apply a b) := by
  by_cases hop : op = .power
  · subst hop
    exact Value.shallow_power h
  · exact shallow_apply_of_ne hop a b

/-- No step is found for a wrong keyword or for a value that is no number. -/
theorem Increment.shallow_stepOf (name keyword : String) (v : Value) :
    Shallow (Increment.stepOf name keyword v) := by
  unfold Increment.stepOf
  split
  · split
    · exact shallow_ok _
    · exact shallow_error rfl
  · exact shallow_error rfl

/-- To advance a value fails if it overflows. -/
theorem Increment.shallow_advance (name : String) (step : Decimal) (v : Value) :
    Shallow (Increment.advance name step v) := by
  unfold Increment.advance
  split
  · split
    · exact shallow_ok _
    · exact shallow_error rfl
  · exact shallow_ok _
  · exact shallow_error rfl

namespace Store

/-- A name may be undefined, and that is all. -/
theorem shallow_get (s : Store) (name : String) : Shallow (s.get name) := by
  unfold get
  split
  · exact shallow_ok _
  · exact shallow_error rfl

/-- A function may be undefined, and that is all. -/
theorem shallow_function (s : Store) (name : String) : Shallow (s.function name) := by
  unfold function
  split
  · exact shallow_ok _
  · exact shallow_error rfl

/-- An update fails as what computes the new value does, or because the variable is undefined. -/
theorem shallow_update (s : Store) (name : String) {f : Variable → Except Fault Value}
    (hf : ∀ v, Shallow (f v)) : Shallow (s.update name f).1 := by
  unfold update
  split
  · exact shallow_error rfl
  · rename_i v _
    rcases hv : f v with e | value
    · exact shallow_error (hf v e hv)
    · exact shallow_ok _

/-- Setting a variable fails if the value has no form of its type. -/
theorem shallow_set (s : Store) (name : String) (value : Value) : Shallow (s.set name value).1 := by
  refine s.shallow_update name fun v ↦ ?_
  split
  · exact shallow_ok _
  · exact shallow_error rfl

/-- Assigning fails where setting does. -/
theorem shallow_assign (s : Store) (name : String) (value : Value) :
    Shallow (s.assign name value).1 := by
  unfold assign
  split
  · exact s.shallow_set name value
  · exact shallow_ok _

/-- The stack may be empty, and that is all. -/
theorem shallow_pop (s : Store) : Shallow s.pop.1 := by
  unfold pop
  split
  · exact shallow_error rfl
  · exact shallow_ok _

end Store

end Haklang

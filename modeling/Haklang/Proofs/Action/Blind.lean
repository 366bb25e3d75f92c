import Haklang.Proofs.Action.Parallel

/-!
# Actions that do not look at functions

Only two things in a program have to do with the table of functions: a definition changes it and a
call looks a name up in it. Everything else is *blind* (`Action.Blind`): with another table of
functions it does the same, and leaves that other table behind as it is. Blindness says both at
once, since the other table may be the one that was there (`Action.Blind.functions_after`).

A blind action is one that runs side by side with itself on machines that differ in that table
(`Action.blind_iff`). That they differ in nothing else is mirrored by all that a statement does
(`Machine.mirrors_otherFunctions`), so every statement is blind as far as calls are
(`Statement.blind_run`).
-/

namespace Haklang

/-- The store with another table of functions. -/
def Store.withFunctions (s : Store) (fs : Table Function) : Store := { s with functions := fs }

/-- The machine with another table of functions. -/
def Machine.withFunctions (m : Machine) (fs : Table Function) : Machine :=
  { m with store := m.store.withFunctions fs }

namespace Store

variable (s : Store) (fs : Table Function) (name : String)

/-- Writing a variable and exchanging the table of functions may be swapped. -/
theorem put_withFunctions (v : Variable) :
    (s.withFunctions fs).put name v = (s.put name v).withFunctions fs := by
  cases h : s.calls <;> simp [put, withTop, top, withFunctions, h]

/-- Parameters are declared one by one, so the same goes for all of them. -/
theorem defineAll_withFunctions (params : List (String × Value)) :
    (s.withFunctions fs).defineAll params = (s.defineAll params).withFunctions fs := by
  induction params generalizing s with
  | nil => rfl
  | cons p rest ih =>
    rw [defineAll, defineAll, define, put_withFunctions, ih]
    rfl

end Store

/-- The second machine is the first one with that table of functions. -/
def Machine.OtherFunctions (fs : Table Function) (m m' : Machine) : Prop := m' = m.withFunctions fs

/-- A statement cannot tell machines apart that differ in their table of functions only. -/
theorem Machine.mirrors_otherFunctions (fs : Table Function) :
    Machine.Mirrors (Machine.OtherFunctions fs) Eq where
  lookup? := by rintro m _ rfl name; rfl
  stack := by rintro m _ rfl; rfl
  input := by rintro m _ rfl; rfl
  generator := by rintro m _ rfl; rfl
  fault f := rfl
  put := by
    rintro m _ rfl name v
    exact congrArg (fun s ↦ { m with store := s }) (m.store.put_withFunctions fs name v)
  setStack := by rintro m _ rfl stack; rfl
  note := by rintro m _ rfl e he; rfl
  setInput := by rintro m _ rfl input; rfl
  setGenerator := by rintro m _ rfl generator; rfl

namespace Action

variable {α : Type} {x : Action α}

/-- An answer whose machine, or what stands in its place, is mapped. -/
def mapState {σ τ : Type} (f : σ → τ) :
    EStateM.Result Diagnostic σ α → EStateM.Result Diagnostic τ α
  | .ok a s => .ok a (f s)
  | .error d s => .error d (f s)

/-- With another table of functions the action does the same, and leaves that table as it is. -/
def Blind (x : Action α) : Prop :=
  ∀ m fs, x (m.withFunctions fs) = mapState (·.withFunctions fs) (x m)

/-- An action is blind exactly if it runs side by side with itself, whatever the other table is. -/
theorem blind_iff : Blind x ↔ ∀ fs, Parallel (Machine.OtherFunctions fs) Eq x x := by
  constructor
  · rintro h fs m _ rfl
    rw [h m fs]
    cases x m with
    | ok a m' => exact .ok rfl
    | error d m' => exact .error rfl rfl
  · intro h m fs
    have hm := h fs (rfl : m.OtherFunctions fs (m.withFunctions fs))
    generalize x m = r at hm
    generalize x (m.withFunctions fs) = r' at hm
    cases hm with
    | ok hm =>
      rw [hm]
      rfl
    | error hd hm =>
      rw [hm, hd]
      rfl

namespace Blind

/-- A blind action leaves the table of functions as it was. -/
theorem functions_after (hx : Blind x) (m : Machine) :
    (x.after m).store.functions = m.store.functions := by
  have h : x m = mapState (·.withFunctions m.store.functions) (x m) := hx m m.store.functions
  rw [after]
  cases hm : x m with
  | ok a m' =>
    rw [hm] at h
    have hm' : m' = m'.withFunctions m.store.functions := by injection h
    exact congrArg (·.store.functions) hm'
  | error d m' =>
    rw [hm] at h
    have hm' : m' = m'.withFunctions m.store.functions := by injection h
    exact congrArg (·.store.functions) hm'

theorem pure (a : α) : Blind (Pure.pure a : Action α) := fun _ _ ↦ rfl

theorem fail (f : Fault) : Blind (Action.fail f : Action α) := fun _ _ ↦ rfl

theorem ofExcept (r : Except Fault α) : Blind (Action.ofExcept r) :=
  blind_iff.2 fun fs ↦ .ofExcept (Machine.mirrors_otherFunctions fs) r

/-- A modification is blind if it commutes with exchanging the table. -/
theorem modify {f : Machine → Machine}
    (h : ∀ m fs, f (m.withFunctions fs) = (f m).withFunctions fs) :
    Blind (modify f : Action Unit) := by
  intro m fs
  show EStateM.Result.ok () (f (m.withFunctions fs)) = .ok () ((f m).withFunctions fs)
  rw [h m fs]

/-- Whatever happens to the store is blind if it commutes with exchanging the table. -/
theorem put {f : Store → Store} (h : ∀ s fs, f (s.withFunctions fs) = (f s).withFunctions fs) :
    Blind (Action.modifyStore f) :=
  modify fun m fs ↦ congrArg (fun s ↦ { m with store := s }) (h m.store fs)

theorem assign (name : String) (value : Value) : Blind (Action.change (·.assign name value)) :=
  blind_iff.2 fun fs ↦ .assign (Machine.mirrors_otherFunctions fs) name value

end Blind

end Action

/-! ### Expressions and statements -/

open Haklang.Action

variable {call : Callee}

/-- An expression is blind if the calls in it are. -/
theorem Expr.blind_eval (hcall : ∀ name args, Blind (call name args)) (e : Expr) :
    Blind (e.eval call) :=
  blind_iff.2 fun fs ↦ e.parallel_eval (Machine.mirrors_otherFunctions fs)
    fun name args ↦ blind_iff.1 (hcall name args) fs

namespace Statement

theorem blind_pauseFor (v : Value) : Blind (pauseFor v) :=
  blind_iff.2 fun fs ↦ parallel_pauseFor (Machine.mirrors_otherFunctions fs) v

/-- A statement has nothing to do with functions but for the calls inside it. -/
theorem blind_run (hcall : ∀ name args, Blind (call name args)) (line : SourceLine)
    (s : Statement) : Blind (s.run call line) := by
  refine blind_iff.2 fun fs ↦ s.parallel_run (Machine.mirrors_otherFunctions fs)
    (fun name args ↦ blind_iff.1 (hcall name args) fs) ?_
  rintro m _ rfl name args
  rfl

end Statement

end Haklang

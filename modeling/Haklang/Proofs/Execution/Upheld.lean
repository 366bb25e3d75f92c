import Haklang.Proofs.Execution.Frames
import Haklang.Proofs.Execution.Moments
import Mathlib.Logic.Relation

/-!
# What a machine keeps of a program

The bodies of functions and the deferred calls are all that a machine keeps of a program. A kind of
trees *upholds* a property of machines (`Tree.Upholds`) if nothing else decides the property, if it
makes the bodies of all functions trees of the kind, and if trees of the kind keep it where they
define a function or put off a call.

Then calls keep it, since they run bodies of functions (`Tree.Upholds.respects_callFunction`). So it
is kept by whatever a tree of the kind runs, and there is no moment on the way at which it does not
hold (`Tree.Upholds.reaches`).
-/

open Relation (ReflTransGen)

namespace Haklang

open Haklang.Action

theorem Store.find?_of_function_eq {s : Store} {name : String} {f : Function}
    (h : s.function name = .ok f) : s.functions.find? name = some f := by
  unfold function at h
  split at h
  · cases h
    assumption
  · cases h

/-- The second machine has the property if the first one has it. -/
def Machine.Inherits (P : Machine → Prop) (m m' : Machine) : Prop := P m → P m'

instance {P : Machine → Prop} : IsPreorder Machine (Machine.Inherits P) where
  refl _ := id
  trans _ _ _ h h' := h' ∘ h

namespace Tree

/-- Functions and deferred calls decide the property, it makes bodies trees of the kind, and trees
of the kind keep it. -/
structure Upholds (K : Tree → Prop) (P : Machine → Prop) : Prop where
  /-- Nothing but functions and deferred calls matters. -/
  congr : ∀ {m m' : Machine}, m'.store.functions = m.store.functions →
    m'.deferred = m.deferred → P m → P m'
  /-- The bodies of functions are of the kind. -/
  body : ∀ {m name f}, P m → m.store.functions.find? name = some f → ∀ t ∈ f.body, K t
  /-- The trees inside are of the kind. -/
  children : ∀ t, K t → ∀ u ∈ t.children, K u
  /-- A function is defined. -/
  function : ∀ id line name params body, K (.block id line (.function name params) body) →
    ∀ m, P m → P { m with store := m.store.defineFunction name { params, body } }
  /-- A call is put off. -/
  defer : ∀ t, K t → ∀ name args, Statement.defer name args ∈ t.direct → ∀ m values, P m →
    P { m with deferred := m.deferred ++ [{ name, args := values, line := t.line }] }

namespace Upholds

variable {K : Tree → Prop} {P : Machine → Prop} {p q : Moment} (hK : Upholds K P)

include hK

theorem revises : Machine.Revises (Machine.Inherits P) where
  put m name v _ _ := hK.congr (m.store.functions_put name v) rfl
  push _ _ _ _ := hK.congr rfl rfl
  pop _ := hK.congr rfl rfl
  note _ _ _ := hK.congr rfl rfl
  readLine _ := hK.congr rfl rfl
  generator _ _ := hK.congr rfl rfl

theorem kind : Kind (Machine.Inherits P) K where
  children := hK.children
  direct t ht _ hs := {
    declare := fun name _ _ _ m ↦ hK.congr (m.store.functions_put name _) rfl
    pop := fun name _ m _ ↦ hK.congr (m.store.functions_put name _) rfl
    defer := fun name args hdefer ↦ hK.defer t ht name args (hdefer ▸ hs) }
  function := hK.function
  chosen _ _ := hK.congr rfl rfl

/-- A call keeps the property. The induction is on how deep calls may still be nested. -/
theorem respects_callFunction (depth : Nat) (name : String) (args : List Value) :
    Respects (Machine.Inherits P) (callFunction depth name args) := by
  induction depth generalizing name args with
  | zero =>
    rw [callFunction]
    refine (Respects.read _).bind fun f ↦ ?_
    split
    · exact .fail _
    · exact Respects.get.bind fun m ↦ .fail _
  | succ depth ih =>
    rw [callFunction]
    refine Respects.readBind fun m f hf hm ↦ ?_
    have hbody : Respects (Machine.Inherits P) (runAll (callFunction depth) f.body) :=
      respects_runAll_of hK.revises hK.kind ih f.body (hK.body hm (Store.find?_of_function_eq hf))
    have hparams : Respects (Machine.Inherits P) (modifyStore (·.defineAll (f.params.zip args))) :=
      Respects.modify fun m ↦ hK.congr (m.store.functions_defineAll _) rfl
    have henter : ∀ m : Machine, m.Inherits P { m with store := m.store.enter } :=
      fun _ ↦ hK.congr rfl rfl
    have hexit : ∀ m : Machine, m.Inherits P { m with store := m.store.exit } :=
      fun _ ↦ hK.congr rfl rfl
    have hcall := (hparams.bind fun _ ↦ hbody.withOwnChain hK.kind.chosen).inFrame henter hexit
    split
    · exact hm
    · exact (hcall.bind fun signal ↦ .pure signal.value?) m hm

theorem respects_callee (name : String) (args : List Value) :
    Respects (Machine.Inherits P) (callee name args) :=
  Respects.get.bind fun m ↦ hK.respects_callFunction m.depthLeft name args

/-- The property holds behind a task of the kind, if it holds before. -/
theorem after (htask : p.task.Kind (Machine.Inherits P) K) (hp : P p.machine) : P p.after :=
  p.task.respects_run_of hK.revises hK.kind (hK.respects_callFunction p.depth) htask p.machine hp

theorem starts (htask : p.task.Kind (Machine.Inherits P) K) (hp : P p.machine) (h : Starts p q) :
    q.task.Kind (Machine.Inherits P) K ∧ P q.machine := by
  obtain ⟨name, args, f, -, -, hf, -, hq, hmachine⟩ | ⟨-, hq, hmachine⟩ :=
    h.rel_of hK.revises hK.kind hK.respects_callFunction htask
  · rw [hq, hmachine]
    exact ⟨hK.body hp (Store.find?_of_function_eq hf),
      hK.congr (Store.functions_defineAll _ _) rfl hp⟩
  · exact ⟨hq, hmachine hp⟩

/-- The property holds at every moment on the way, and all that runs is of the kind. -/
theorem reaches (htask : p.task.Kind (Machine.Inherits P) K) (hp : P p.machine)
    (h : ReflTransGen Starts p q) : q.task.Kind (Machine.Inherits P) K ∧ P q.machine := by
  induction h with
  | refl => exact ⟨htask, hp⟩
  | tail _ h ih => exact hK.starts ih.1 ih.2 h

end Upholds

end Tree

end Haklang

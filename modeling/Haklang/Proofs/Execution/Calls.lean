import Haklang.Proofs.Execution.Respects

/-!
# What every call does to the machine

Some relations are the same inside and outside of a call: they hold across the opening of a frame
and across its closing (`Machine.Spans`). For these nothing has to be assumed about calls any more:
they hold across everything that is run.
-/

namespace Haklang

open Haklang.Action

namespace Machine

/-- What calls ask of a relation: what trees do, and that it holds across the opening and the
closing of a frame. -/
structure Spans (R : Machine → Machine → Prop) : Prop extends Runs R where
  /-- A frame is opened. -/
  enter : ∀ m, R m { m with store := m.store.enter }
  /-- The innermost frame is closed. -/
  exit : ∀ m, R m { m with store := m.store.exit }

end Machine

variable {R : Machine → Machine → Prop} [IsPreorder Machine R]

theorem Action.Respects.inFrame (henter : ∀ m, R m { m with store := m.store.enter })
    (hexit : ∀ m, R m { m with store := m.store.exit }) {α : Type} {x : Action α}
    (hx : Respects R x) : Respects R (Action.inCall x) := by
  intro m
  rw [after_inCall]
  have hbody : R { m with store := m.store.enter } (x.after { m with store := m.store.enter }) :=
    hx _
  exact trans_of R (henter m) (trans_of R hbody (hexit _))

/-- Parameters are declared one by one. -/
theorem Machine.Writes.defineAll (hR : Machine.Writes R) (params : List (String × Value))
    (m : Machine) : R m { m with store := m.store.defineAll params } := by
  induction params generalizing m with
  | nil => exact refl_of R m
  | cons p rest ih =>
    have hparam := hR.put m p.1 _ (m.store.admits_argument p.1 p.2)
    exact trans_of R hparam (ih { m with store := m.store.define p.1 p.2.argument })

/-- A call respects what the bodies of functions do and what the opening and the closing of a frame
do. -/
theorem Machine.Spans.respects_callFunction (hR : Machine.Spans R) (depth : Nat) (name : String)
    (args : List Value) : Respects R (callFunction depth name args) := by
  refine respects_callFunction_of_body (fun call hcall params body ↦ ?_) depth name args
  have hparams : Respects R (modifyStore (·.defineAll params)) :=
    Respects.modify (hR.defineAll params)
  have hbody : Respects R (Tree.runAll call body) := Tree.respects_runAll hR.toRuns hcall body
  exact (hparams.bind fun _ ↦ hbody.withOwnChain hR.chosen).inFrame hR.enter hR.exit

theorem Machine.Spans.respects_callee (hR : Machine.Spans R) (name : String)
    (args : List Value) : Respects R (Action.callee name args) :=
  Respects.get.bind fun m ↦ hR.respects_callFunction m.depthLeft name args

theorem Machine.Spans.respects_runTree (hR : Machine.Spans R) (t : Tree) :
    Respects R (Action.runTree t) :=
  Respects.get.bind fun m ↦ t.respects_run hR.toRuns (hR.respects_callFunction m.depthLeft)

end Haklang

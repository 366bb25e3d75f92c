import Haklang.Proofs.Execution.Respects

/-!
# Calls never write back

Only the innermost frame is ever written. A tree may change that frame and leaves all frames below
it as they were (`Machine.SameOuter`); a call opens a frame of its own and closes it again on every
way out, so whatever is evaluated leaves all frames as they were (`Machine.SameFrames`).

The two relations carry the induction on the depth of calls together: the body of a function runs
under the first, which a frame opened before and closed behind it turns into the second
(`Machine.SameOuter.sameFrames_exit`). Nothing is asked of the machine, of the functions that it
knows or of the depth that calls may still be nested to.

Both relations also keep the limits, so the depth left to calls is the same wherever a call is met
in one frame (`Machine.SameOuter.depthLeft_eq`).
-/

namespace Haklang

open Haklang.Action

/-! ### Frames of a store -/

namespace Store

/-- Variables are written in the innermost frame. -/
theorem tail_frames_put (s : Store) (name : String) (v : Variable) :
    (s.put name v).frames.tail = s.frames.tail := by
  rw [frames_put, List.tail_cons]

@[simp] theorem tail_frames_enter (s : Store) : s.enter.frames.tail = s.frames := rfl

/-- There is one frame more than calls that have been entered. -/
theorem length_frames (s : Store) : s.frames.length = s.depth + 1 := by
  simp [frames, depth]

/-- A store has at least one frame, so the frames below the innermost one tell how many there
are. -/
theorem depth_eq_of_tail_frames_eq {s s' : Store} (h : s'.frames.tail = s.frames.tail) :
    s'.depth = s.depth := by
  have := congrArg List.length h
  rw [List.length_tail, List.length_tail, s'.length_frames, s.length_frames] at this
  omega

/-- Closing the innermost frame of a call leaves the frames below it. -/
theorem frames_exit {s : Store} (h : s.calls ≠ []) : s.exit.frames = s.frames.tail := by
  obtain ⟨f, outer, h⟩ := List.exists_cons_of_ne_nil h
  simp [exit, frames, h]

end Store

/-! ### The two relations -/

namespace Machine

/-- All frames and the limits are the same. -/
structure SameFrames (m m' : Machine) : Prop where
  /-- All frames are the same. -/
  frames : m'.store.frames = m.store.frames
  /-- The limits are the same. -/
  limits : m'.limits = m.limits

/-- The frames below the innermost one and the limits are the same. -/
structure SameOuter (m m' : Machine) : Prop where
  /-- The frames below the innermost one are the same. -/
  outer : m'.store.frames.tail = m.store.frames.tail
  /-- The limits are the same. -/
  limits : m'.limits = m.limits

instance : IsPreorder Machine SameFrames where
  refl _ := ⟨rfl, rfl⟩
  trans _ _ _ h h' := ⟨h'.frames.trans h.frames, h'.limits.trans h.limits⟩

instance : IsPreorder Machine SameOuter where
  refl _ := ⟨rfl, rfl⟩
  trans _ _ _ h h' := ⟨h'.outer.trans h.outer, h'.limits.trans h.limits⟩

variable {m m' : Machine}

/-- Machines with the same frames have the same ones behind the innermost. -/
theorem SameFrames.sameOuter (h : SameFrames m m') : SameOuter m m' :=
  ⟨congrArg List.tail h.frames, h.limits⟩

/-- The number of those is the depth. -/
theorem SameOuter.depth_eq (h : SameOuter m m') : m'.store.depth = m.store.depth :=
  Store.depth_eq_of_tail_frames_eq h.outer

/-- The depth left to calls is the same wherever a call is met in one frame. -/
theorem SameOuter.depthLeft_eq (h : SameOuter m m') : m'.depthLeft = m.depthLeft := by
  rw [depthLeft, depthLeft, h.limits, h.depth_eq]

/-- What a frame of its own was run in comes back as it was when that frame is closed. -/
theorem SameOuter.sameFrames_exit (h : SameOuter { m with store := m.store.enter } m') :
    SameFrames m { m' with store := m'.store.exit } := by
  have hcalls : m'.store.calls ≠ [] := by
    intro hnil
    have hdepth : m'.store.depth = m.store.depth + 1 := h.depth_eq
    rw [Store.depth, hnil] at hdepth
    simp at hdepth
  refine ⟨?_, h.limits⟩
  -- what is below the frame of the call is all that there was before it
  show m'.store.exit.frames = m.store.frames
  rw [Store.frames_exit hcalls, h.outer, Store.tail_frames_enter]

/-- Nothing that a tree does by itself reaches below the innermost frame. -/
theorem runs_sameOuter : Runs SameOuter where
  put m name v _ := ⟨m.store.tail_frames_put name v, rfl⟩
  push _ _ _ _ := ⟨rfl, rfl⟩
  pop _ := ⟨rfl, rfl⟩
  note _ _ _ := ⟨rfl, rfl⟩
  readLine _ := ⟨rfl, rfl⟩
  generator _ _ := ⟨rfl, rfl⟩
  defer _ _ := ⟨rfl, rfl⟩
  function _ _ _ := ⟨rfl, rfl⟩
  chosen _ _ := ⟨rfl, rfl⟩

end Machine

/-! ### Calls -/

/-- A relation that is implied by one that is respected is respected. -/
theorem Action.Respects.mono {R R' : Machine → Machine → Prop} {α : Type} {x : Action α}
    (h : ∀ {m m'}, R m m' → R' m m') (hx : Respects R x) : Respects R' x :=
  fun m ↦ h (hx m)

/-- Parameters are declared in the innermost frame. -/
theorem Store.tail_frames_defineAll (s : Store) (params : List (String × Value)) :
    (s.defineAll params).frames.tail = s.frames.tail := by
  induction params generalizing s with
  | nil => rfl
  | cons p rest ih =>
    rw [Store.defineAll, ih]
    exact s.tail_frames_put _ _

/-- Parameters define no functions. -/
theorem Store.functions_defineAll (s : Store) (params : List (String × Value)) :
    (s.defineAll params).functions = s.functions := by
  induction params generalizing s with
  | nil => rfl
  | cons p rest ih =>
    rw [Store.defineAll, ih]
    exact s.functions_put _ _

/-- A frame opened before an action and closed behind it hides what the action does to the frame. -/
theorem Action.Respects.inCall {α : Type} {x : Action α}
    (hx : Respects Machine.SameOuter x) : Respects Machine.SameFrames (Action.inCall x) := by
  intro m
  rw [after_inCall]
  exact (hx _).sameFrames_exit

/-- The body of a function, with the parameters declared in its frame, reaches no frame below. -/
theorem respects_functionBody {call : Callee}
    (hcall : ∀ name args, Respects Machine.SameFrames (call name args))
    (params : List (String × Value)) (body : List Tree) :
    Respects Machine.SameOuter (do
      modifyStore (·.defineAll params)
      withOwnChain (Tree.runAll call body)) := by
  have hdefine : Respects Machine.SameOuter (modifyStore (·.defineAll params)) :=
    Respects.modify fun m ↦ ⟨m.store.tail_frames_defineAll _, rfl⟩
  have hbody : Respects Machine.SameOuter (Tree.runAll call body) :=
    Tree.respects_runAll Machine.runs_sameOuter
      (fun name args ↦ (hcall name args).mono Machine.SameFrames.sameOuter) body
  exact hdefine.bind fun _ ↦ hbody.withOwnChain Machine.runs_sameOuter.chosen

/-- A call leaves all frames as they were. -/
theorem respects_callFunction (depth : Nat) (name : String) (args : List Value) :
    Respects Machine.SameFrames (callFunction depth name args) :=
  respects_callFunction_of_body
    (fun _ hcall params body ↦ (respects_functionBody hcall params body).inCall) depth name args

/-- Calls never write back. Whatever is evaluated, in any state and with calls nested to any depth,
leaves all frames as they were, whether it fails or not; a tree leaves all frames below the
innermost one, and their number, as they were. -/
theorem frames_after_eval_eq (depth : Nat) (m : Machine) :
    (∀ e : Expr, ((e.eval (callFunction depth)).after m).store.frames = m.store.frames) ∧
    (∀ c : Cond, ((c.eval (callFunction depth)).after m).store.frames = m.store.frames) ∧
    (∀ es : List Expr,
      ((Expr.evalAll (callFunction depth) es).after m).store.frames = m.store.frames) ∧
    (∀ (name : String) (args : List Value),
      ((callFunction depth name args).after m).store.frames = m.store.frames) ∧
    ∀ t : Tree,
      ((t.run (callFunction depth)).after m).store.frames.tail = m.store.frames.tail ∧
      ((t.run (callFunction depth)).after m).store.frames.length = m.store.frames.length := by
  have hcall := respects_callFunction depth
  refine ⟨fun e ↦ (e.respects_eval hcall m).frames, fun c ↦ (c.respects_eval hcall m).frames,
    fun es ↦ (Expr.respects_evalAll hcall es m).frames, fun name args ↦ (hcall name args m).frames,
    fun t ↦ ?_⟩
  have hrun : Machine.SameOuter m ((t.run (callFunction depth)).after m) :=
    t.respects_run Machine.runs_sameOuter
      (fun name args ↦ (hcall name args).mono Machine.SameFrames.sameOuter) m
  refine ⟨hrun.outer, ?_⟩
  rw [Store.length_frames, Store.length_frames, hrun.depth_eq]

end Haklang

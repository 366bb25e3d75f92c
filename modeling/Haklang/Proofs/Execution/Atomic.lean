import Haklang.Proofs.Action.Failing
import Haklang.Proofs.Execution.Declared
import Haklang.Proofs.Store.Snapshots

/-!
# Statements that fail

A statement that fails has changed no variable. What it evaluates before it can fail leaves the
variables in sight alone, and the operations on variables write only when they succeed, or else copy
a variable into the innermost frame, which cannot be seen (`Store.own`). If it makes no call either,
then nothing has happened at all, but that a line has been read
(`Statement.unchanged_of_run_error`).
-/

namespace Haklang

open Haklang.Action

/-- A line that is read is gone from those left to read. -/
theorem Console.input_readLine (c : Console) : c.readLine.2.input = c.input.tail := by
  unfold readLine
  split <;> simp_all

/-! ### Operations on variables -/

namespace Store

@[simp] theorem depth_own (s : Store) (name : String) : (s.own name).2.depth = s.depth := by
  unfold own
  split <;> simp

@[simp] theorem stack_own (s : Store) (name : String) : (s.own name).2.stack = s.stack := by
  unfold own
  split <;> simp

@[simp] theorem functions_own (s : Store) (name : String) :
    (s.own name).2.functions = s.functions := by
  unfold own
  split <;> simp

/-- An update that fails copies the variable, if there is one. -/
theorem snd_update_of_error {s : Store} {name : String} {f : Variable → Except Fault Value}
    {e : Fault} (h : (s.update name f).1 = .error e) : (s.update name f).2 = (s.own name).2 := by
  unfold update at h ⊢
  rcases hv : s.lookup? name with - | v
  · rw [own, hv]
  · rcases hvalue : f v with e | value
    · simp only [hvalue]
    · simp [hv, hvalue] at h

/-- An assignment that fails has set a variable, and so has copied it at most. -/
theorem snd_assign_of_error {s : Store} {name : String} {value : Value} {e : Fault}
    (h : (s.assign name value).1 = .error e) : (s.assign name value).2 = (s.own name).2 := by
  unfold assign at h ⊢
  rcases hv : s.lookup? name with - | v
  · simp [hv] at h
  · rw [hv] at h
    exact snd_update_of_error h

end Store

/-- A change that copies a variable when it fails. -/
theorem Action.aborts_change {R : Machine → Machine → Prop} {α : Type}
    {f : Store → Except Fault α × Store} (name : String)
    (hown : ∀ m : Machine, R m { m with store := (m.store.own name).2 })
    (hf : ∀ s e, (f s).1 = .error e → (f s).2 = (s.own name).2) : Aborts R (change f) := by
  intro m d m' h
  rw [change_apply] at h
  rcases hvalue : (f m.store).1 with e | a
  · rw [hvalue, hf m.store e hvalue] at h
    cases h
    exact hown m
  · rw [hvalue] at h
    cases h

/-! ### Calls in expressions -/

/-- No function is called. -/
def Expr.CallFree : Expr → Prop
  | negate e => e.CallFree
  | binary _ l r => l.CallFree ∧ r.CallFree
  | call _ _ => False
  | _ => True

/-- An expression without calls changes nothing. -/
theorem Expr.CallFree.respects_eval {R : Machine → Machine → Prop} [IsPreorder Machine R]
    {call : Callee} {e : Expr} (he : e.CallFree) : Respects R (e.eval call) := by
  match e with
  | .negate e => exact (CallFree.respects_eval (e := e) he).bind fun _ ↦ .ofExcept _
  | .binary _ l r =>
    exact (CallFree.respects_eval (e := l) he.1).bind fun _ ↦
      (CallFree.respects_eval (e := r) he.2).bind fun _ ↦ .ofExcept _
  | .var _ => exact Respects.get.bind fun _ ↦ .pure _
  | .int _ => exact .pure _
  | .decimal _ => exact .pure _
  | .text _ => exact .pure _
  | .bool _ => exact .pure _
  | .unresolved _ => exact .fail _

/-- Arguments respect what each of them respects. -/
theorem Expr.respects_evalAll_of {R : Machine → Machine → Prop} [IsPreorder Machine R]
    {call : Callee} {es : List Expr} (hes : ∀ e ∈ es, Respects R (e.eval call)) :
    Respects R (Expr.evalAll call es) := by
  induction es with
  | nil => exact .pure _
  | cons e rest ih =>
    exact (hes e (.head _)).bind fun _ ↦ (ih fun e he ↦ hes e (.tail _ he)).bind fun _ ↦ .pure _

namespace Statement

/-- The expressions that a statement evaluates. -/
def expressions : Statement → List Expr
  | result (some e) => [e]
  | assign _ e => [e]
  | call _ args => args
  | defer _ args => args
  | pause e => [e]
  | _ => []

/-- The statement is not a call, and no function is called in its expressions. -/
def CallFree (s : Statement) : Prop :=
  (∀ name args, s ≠ .call name args) ∧ ∀ e ∈ s.expressions, e.CallFree

/-! ### Randomizing -/

/-- Randomizing a variable fails only if there is none. -/
theorem randomizeOne_of_isSome {name : String} {m : Machine}
    (h : (m.store.lookup? name).isSome) (d : Diagnostic) (m' : Machine) :
    randomizeOne name m ≠ .error d m' := by
  intro herror
  obtain ⟨v, hv⟩ := Option.isSome_iff_exists.1 h
  rw [randomizeOne, bind_of_ok (read_get_of_some hv)] at herror
  split at herror
  · cases herror
  · obtain h | ⟨value, m₁, hrandom, herror⟩ := bind_eq_error_iff.1 herror
    · cases h
    · cases hrandom
      rw [change_apply, Store.update_of_ok hv rfl] at herror
      cases herror

/-- Drawing a value does not fail for a variable in sight, and without one it changes nothing. -/
theorem aborts_randomizeOne {R : Machine → Machine → Prop} [Std.Refl R] (name : String) :
    Aborts R (randomizeOne name) := by
  intro m d m' h
  by_cases hname : (m.store.lookup? name).isSome
  · exact absurd h (randomizeOne_of_isSome hname d m')
  · have hnone : m.store.lookup? name = none := Option.not_isSome_iff_eq_none.1 hname
    rw [randomizeOne, bind_of_error (read_get_of_none hnone)] at h
    cases h
    exact refl_of R m

/-- All variables in sight can be randomized, since they stay in sight. -/
theorem randomizeEach_of_isSome {names : List String} {m : Machine}
    (h : ∀ name ∈ names, (m.store.lookup? name).isSome) (d : Diagnostic) (m' : Machine) :
    randomizeEach names m ≠ .error d m' := by
  induction names generalizing m with
  | nil => nofun
  | cons name rest ih =>
    intro herror
    obtain herror | ⟨_, m₁, hfirst, herror⟩ := bind_eq_error_iff.1 herror
    · exact randomizeOne_of_isSome (h name (.head _)) d m' herror
    · refine ih (fun other hother ↦ ?_) herror
      obtain ⟨v, hv⟩ := Option.isSome_iff_exists.1 (h other (.tail _ hother))
      have hkeeps : Respects (Machine.Keeps (fun _ ↦ ()) other) (randomizeOne name) :=
        respects_randomizeOne (Machine.revises_keeps fun _ _ _ _ ↦ rfl) name
      obtain ⟨w, hw, -⟩ := hkeeps.of_ok hfirst v hv
      rw [hw]
      rfl

/-! ### Statements -/

/-- Reading a line into a variable fails before the line is read, if there is no variable, and
otherwise behind it. -/
theorem inputTo_of_error {name : String} {m m' : Machine} {d : Diagnostic}
    (h : inputTo name m = .error d m') :
    m' = m ∨ (m.store.lookup? name).isSome ∧
      ∃ store, (store = m.store ∨ store = (m.store.own name).2) ∧
        m' = { m with store, console := m.console.readLine.2 } := by
  rcases hv : m.store.lookup? name with - | v
  · rw [inputTo, bind_of_error (read_get_of_none hv)] at h
    cases h
    exact .inl rfl
  · have hline : readLine m =
      .ok (m.console.readLine.1.getD "") { m with console := m.console.readLine.2 } := rfl
    refine .inr ⟨rfl, ?_⟩
    rw [inputTo, bind_of_ok (read_get_of_some hv), bind_of_ok hline] at h
    rcases hvalue : Value.ofConsole? v.tag (m.console.readLine.1.getD "") with - | value
    · simp only [hvalue] at h
      cases h
      exact ⟨m.store, .inl rfl, rfl⟩
    · simp only [hvalue, change_apply] at h
      rcases hset : (m.store.set name value).1 with e | u
      · rw [hset] at h
        cases h
        exact ⟨_, .inr (Store.snd_update_of_error hset), rfl⟩
      · rw [hset] at h
        cases h

/-- A statement that does not read a line into a variable aborts within what its expressions and
calls respect, if copying a variable is within it too. -/
theorem aborts_run {R : Machine → Machine → Prop} [IsPreorder Machine R] {call : Callee}
    (hown : ∀ name (m : Machine), R m { m with store := (m.store.own name).2 }) {s : Statement}
    (hexpressions : ∀ e ∈ s.expressions, Respects R (e.eval call))
    (hcall : ∀ name args, s = .call name args → ∀ values, Respects R (call name values))
    (hinput : ∀ name newline, s ≠ .input (some name) newline) (line : SourceLine) :
    Aborts R (s.run call line) := by
  have hnext : ∀ _ : Unit, Succeeds (pure Signal.next : Action Signal) := fun _ ↦ .pure _
  have hupdate : ∀ name f, Aborts R (change (·.update name f)) := fun name f ↦
    aborts_change name (hown name) fun _ _ ↦ Store.snd_update_of_error
  have hassign : ∀ name value, Aborts R (change (·.assign name value)) := fun name value ↦
    aborts_change name (hown name) fun _ _ ↦ Store.snd_assign_of_error
  cases s with
  | leave | truth | marker | comment => exact (Succeeds.pure _).aborts
  | unknown => exact (Respects.fail _).aborts
  | result e? =>
    cases e? with
    | none => exact (Succeeds.pure _).aborts
    | some e => exact (hexpressions e (.head _)).bind_aborts fun _ ↦ (Succeeds.pure _).aborts
  | declare name tag shielded => exact ((Succeeds.modify _).bind hnext).aborts
  | increment name keyword =>
    refine Aborts.bind ?_ hnext
    exact (Respects.read _).bind_aborts fun _ ↦
      (Respects.ofExcept _).bind_aborts fun _ ↦ hupdate name _
  | assignText name s => exact (hassign name _).bind hnext
  | assign name e =>
    exact (hexpressions e (.head _)).bind_aborts fun v ↦ (hassign name v).bind hnext
  | assignList name items =>
    refine Aborts.bind ?_ hnext
    refine (Respects.read _).bind_aborts fun v ↦ ?_
    split
    · split
      · exact hupdate name _
      · exact (Respects.fail _).aborts
    · exact (Respects.fail _).aborts
  | sort name descending => exact (hupdate name _).bind hnext
  | output items newline =>
    exact (Succeeds.get.bind fun m ↦ (Succeeds.note _).bind hnext).aborts
  | input name? newline =>
    cases name? with
    | none =>
      refine Succeeds.aborts (Succeeds.readLine.discard.bind fun _ ↦ ?_)
      cases newline with
      | true => exact (Succeeds.note _).bind hnext
      | false => exact .pure _
    | some name => exact absurd rfl (hinput name newline)
  | call name args =>
    exact (Expr.respects_evalAll_of hexpressions).bind_aborts fun vs ↦
      ((hcall name args rfl vs).discard.aborts).bind hnext
  | defer name args =>
    exact (Expr.respects_evalAll_of hexpressions).bind_aborts fun vs ↦
      ((Succeeds.modify _).bind hnext).aborts
  | reset name => exact (hupdate name _).bind hnext
  | randomize name => exact (aborts_randomizeOne name).bind hnext
  | randomizeAll =>
    -- a name in sight stands for a variable, so there is nothing that could fail
    intro m d m' h
    have h : (randomizeEach m.store.names >>= fun _ ↦ pure Signal.next) m = .error d m' := h
    obtain h | ⟨_, _, -, h⟩ := bind_eq_error_iff.1 h
    · exact absurd h (randomizeEach_of_isSome (fun name hname ↦ Store.mem_names_iff.1 hname) d m')
    · cases h
  | outputElement name position =>
    refine Aborts.bind ?_ hnext
    refine (Respects.read _).bind_aborts fun v ↦ ?_
    split
    · split
      · exact (Succeeds.note _).aborts
      · exact (Respects.fail _).aborts
    · exact (Respects.fail _).aborts
  | push name =>
    exact (Respects.read _).bind_aborts fun v ↦ ((Succeeds.modify _).bind hnext).aborts
  | pop name =>
    refine Aborts.bind ?_ fun v ↦ (Succeeds.modify _).bind hnext
    -- it fails on an empty stack only, which stays as it is
    intro m d m' h
    rw [change_apply, Store.pop] at h
    split at h
    · cases h
      exact refl_of R m
    · cases h
  | inspect name? =>
    cases name? with
    | none => exact (Succeeds.get.bind fun m ↦ (Succeeds.note _).bind hnext).aborts
    | some name =>
      exact (Respects.read _).bind_aborts fun v ↦ ((Succeeds.note _).bind hnext).aborts
  | pause e =>
    refine (hexpressions e (.head _)).bind_aborts fun v ↦ Aborts.bind ?_ hnext
    unfold pauseFor
    split
    · exact (Respects.fail _).aborts
    · split
      · exact (Succeeds.note _).aborts
      · exact (Respects.fail _).aborts

end Statement

/-! ### What is left as it was -/

namespace Machine

/-- The same variables are in sight, at the same depth of calls. -/
structure SameView (m m' : Machine) : Prop where
  /-- The variables in sight. -/
  lookup? : ∀ name, m'.store.lookup? name = m.store.lookup? name
  /-- The number of calls in progress. -/
  depth : m'.store.depth = m.store.depth

instance : IsPreorder Machine SameView where
  refl _ := ⟨fun _ ↦ rfl, rfl⟩
  trans _ _ _ h h' :=
    ⟨fun name ↦ (h'.lookup? name).trans (h.lookup? name), h'.depth.trans h.depth⟩

/-- Copying a variable to the innermost frame is not seen by any lookup. -/
theorem sameView_own (m : Machine) (name : String) :
    SameView m { m with store := (m.store.own name).2 } :=
  ⟨m.store.lookup?_own name, m.store.depth_own name⟩

/-- Machines with the same frames have the same view. -/
theorem SameFrames.sameView {m m' : Machine} (h : SameFrames m m') : SameView m m' where
  lookup? name := by rw [Store.lookup?_eq_findSome?, Store.lookup?_eq_findSome?, h.frames]
  depth := h.sameOuter.depth_eq

/-- Apart from variables and the chain of conditions, everything is as it was. -/
structure SameRest (m m' : Machine) : Prop where
  /-- The stack. -/
  stack : m'.store.stack = m.store.stack
  /-- The functions. -/
  functions : m'.store.functions = m.store.functions
  /-- The calls that are put off. -/
  deferred : m'.deferred = m.deferred
  /-- The generator. -/
  generator : m'.generator = m.generator
  /-- The console. -/
  console : m'.console = m.console

instance : IsPreorder Machine SameRest where
  refl _ := ⟨rfl, rfl, rfl, rfl, rfl⟩
  trans _ _ _ h h' := ⟨h'.stack.trans h.stack, h'.functions.trans h.functions,
    h'.deferred.trans h.deferred, h'.generator.trans h.generator, h'.console.trans h.console⟩

/-- Copying a variable touches nothing but frames. -/
theorem sameRest_own (m : Machine) (name : String) :
    SameRest m { m with store := (m.store.own name).2 } :=
  ⟨m.store.stack_own name, m.store.functions_own name, rfl, rfl, rfl⟩

end Machine

namespace Statement

variable {depth : Nat} {line : SourceLine} {s : Statement} {m m' : Machine} {d : Diagnostic}

/-- Input that fails has failed in reading for the variable: nothing fails that comes behind it. -/
theorem inputTo_of_run_error {call : Callee} {name : String} {newline : Bool}
    (h : (input (some name) newline).run call line m = .error d m') :
    inputTo name m = .error d m' := by
  obtain h | ⟨_, _, -, h⟩ := bind_eq_error_iff.1 h
  · exact h
  · cases newline <;> cases h

/-- Calls close the frames that they open, so they may stand in a statement that fails. -/
theorem sameView_of_error (h : s.run (callFunction depth) line m = .error d m') :
    Machine.SameView m m' := by
  by_cases hinput : ∃ name newline, s = .input (some name) newline
  · obtain ⟨name, newline, rfl⟩ := hinput
    obtain rfl | ⟨-, store, rfl | rfl, rfl⟩ := inputTo_of_error (inputTo_of_run_error h)
    · exact refl_of Machine.SameView m'
    · exact ⟨fun _ ↦ rfl, rfl⟩
    · exact ⟨m.store.lookup?_own name, m.store.depth_own name⟩
  · have hcall : ∀ name args, Respects Machine.SameView (callFunction depth name args) :=
      fun name args ↦ (respects_callFunction depth name args).mono Machine.SameFrames.sameView
    exact aborts_run (fun name m ↦ m.sameView_own name) (fun e _ ↦ e.respects_eval hcall)
      (fun name _ _ values ↦ hcall name values)
      (fun name newline hs ↦ hinput ⟨name, newline, hs⟩) line m d m' h

/-- Without calls there is nothing that could have changed anything but variables. -/
theorem sameRest_of_error {call : Callee} (hfree : s.CallFree)
    (hinput : ∀ name newline, s ≠ .input (some name) newline)
    (h : s.run call line m = .error d m') : Machine.SameRest m m' :=
  aborts_run (fun name m ↦ m.sameRest_own name) (fun e he ↦ (hfree.2 e he).respects_eval)
    (fun name args hs ↦ absurd hs (hfree.1 name args)) hinput line m d m' h

/-- A statement that fails has changed no variable, whatever it has called. If it makes no calls, it
has changed nothing else that can be observed either, but that one line may have been read into a
variable that there is. -/
theorem unchanged_of_run_error (h : s.run (callFunction depth) line m = .error d m') :
    ((∀ name, m'.store.lookup? name = m.store.lookup? name) ∧ m'.store.depth = m.store.depth) ∧
      (s.CallFree →
        m'.store.stack = m.store.stack ∧ m'.store.functions = m.store.functions ∧
          m'.deferred = m.deferred ∧ m'.generator = m.generator ∧
          m'.console.transcript = m.console.transcript ∧
          (m'.console.input = m.console.input ∨
            ∃ name newline, s = .input (some name) newline ∧ (m.store.lookup? name).isSome ∧
              m'.console.input = m.console.input.tail)) := by
  have hview := sameView_of_error h
  refine ⟨⟨hview.lookup?, hview.depth⟩, fun hfree ↦ ?_⟩
  by_cases hinput : ∃ name newline, s = .input (some name) newline
  · obtain ⟨name, newline, rfl⟩ := hinput
    have hline := m.console.transcript_readLine
    obtain rfl | ⟨hname, store, rfl | rfl, rfl⟩ := inputTo_of_error (inputTo_of_run_error h)
    · exact ⟨rfl, rfl, rfl, rfl, rfl, .inl rfl⟩
    · exact ⟨rfl, rfl, rfl, rfl, hline, .inr ⟨name, newline, rfl, hname, m.console.input_readLine⟩⟩
    · exact ⟨m.store.stack_own name, m.store.functions_own name, rfl, rfl, hline,
        .inr ⟨name, newline, rfl, hname, m.console.input_readLine⟩⟩
  · have hrest := sameRest_of_error hfree (fun name newline hs ↦ hinput ⟨name, newline, hs⟩) h
    exact ⟨hrest.stack, hrest.functions, hrest.deferred, hrest.generator,
      congrArg Console.transcript hrest.console, .inl (congrArg Console.input hrest.console)⟩

/-- A line is read into a list of the program from inside a call. -/
theorem unchanged_of_run_error_input :
    let m : Machine :=
      { generator := .ofSeed 0
        store := (({} : Store).declare "x" (.list .int) false).enter
        console := { input := ["1", "2"] } }
    ∃ d m', (input (some "x") true).run (callFunction 0) ⟨1, ""⟩ m = .error d m' ∧
      m'.store.lookup? "x" = some ⟨.default (.list .int), .list .int, false⟩ ∧
      m'.store.depth = 1 ∧ m'.console.transcript = #[] ∧ m'.console.input = ["2"] := by
  intro m
  have hv : m.store.lookup? "x" = some ⟨.default (.list .int), .list .int, false⟩ := by
    show (Store.put {} "x" _).lookup? "x" = _
    rw [Store.lookup?_put, if_pos rfl]
  have hrun : (input (some "x") true).run (callFunction 0) ⟨1, ""⟩ m =
      .error { fault := .consoleLine "1" (.list .int) "x" }
        { m with console := m.console.readLine.2 } := by
    show (inputTo "x" >>= _) m = _
    refine bind_of_error ?_ _
    rw [inputTo, bind_of_ok (read_get_of_some hv)]
    rfl
  obtain ⟨⟨hlookup, hdepth⟩, hfree⟩ := unchanged_of_run_error hrun
  obtain ⟨-, -, -, -, htranscript, -⟩ := hfree ⟨nofun, nofun⟩
  exact ⟨_, _, hrun, (hlookup "x").trans hv, hdepth, htranscript, rfl⟩

end Statement

end Haklang

import Haklang.Proofs.Action.Parallel
import Haklang.Proofs.Arena.Fuel
import Haklang.Proofs.Tree.Renumbered

/-!
# Runs at lines with other numbers

The numbers of lines are kept in trees, in functions, in calls that are put off and in diagnostics,
and nothing that runs looks at one. Of two machines that differ in them, and in what messages at the
console say of them (`Machine.Renumbered`), trees that differ in them make two such machines again,
with the same answer or with diagnostics that differ in them (`Tree.parallel_run`,
`Action.parallel_runTree`).
-/

namespace Haklang

open Haklang.Action

variable {f : Nat → Nat}

/-! ### What holds lines -/

/-- The function, its lines with other numbers. -/
def Function.renumber (f : Nat → Nat) (g : Function) : Function :=
  { g with body := Tree.renumberAll f g.body }

/-- The call, its line with another number. -/
def DeferredCall.renumber (f : Nat → Nat) (c : DeferredCall) : DeferredCall :=
  { c with line := c.line.renumber f }

/-- The diagnostic, its line with another number. -/
def Diagnostic.renumber (f : Nat → Nat) (d : Diagnostic) : Diagnostic :=
  { d with line? := d.line?.map (·.renumber f) }

/-- The line of a diagnostic may be named before or after lines are renumbered. -/
theorem Diagnostic.locate_renumber (d : Diagnostic) (line : SourceLine) :
    (d.renumber f).locate (line.renumber f) = (d.locate line).renumber f := by
  obtain ⟨fault, - | inner⟩ := d <;> rfl

/-- The store, the lines of its functions with other numbers. -/
def Store.renumber (f : Nat → Nat) (s : Store) : Store :=
  s.withFunctions (s.functions.map (·.renumber f))

/-- Variables hold no lines, so writing one goes with renumbering. -/
theorem Store.put_renumber (s : Store) (name : String) (v : Variable) :
    (s.renumber f).put name v = (s.put name v).renumber f := by
  rw [renumber, put_withFunctions, renumber, functions_put]

/-- The same holds of parameters. -/
theorem Store.defineAll_renumber (s : Store) (params : List (String × Value)) :
    (s.renumber f).defineAll params = (s.defineAll params).renumber f := by
  rw [renumber, defineAll_withFunctions, renumber, functions_defineAll]

/-- A function is defined with its own lines renumbered. -/
theorem Store.defineFunction_renumber (s : Store) (name : String) (g : Function) :
    (s.renumber f).defineFunction name (g.renumber f) = (s.defineFunction name g).renumber f := by
  rw [defineFunction, renumber, renumber, defineFunction, Table.map_insert]
  rfl

/-- The events are the same, but for the numbers of lines in messages. -/
inductive Console.Event.Renumbered (f : Nat → Nat) : Event → Event → Prop where
  /-- Text is written. -/
  | output (s : String) : Renumbered f (.output s) (.output s)
  /-- A pause is made. -/
  | pause (n : Nat) : Renumbered f (.pause n) (.pause n)
  /-- A diagnostic is written. -/
  | message (d : Diagnostic) :
    Renumbered f (.message (d.render ++ "\n")) (.message ((d.renumber f).render ++ "\n"))

/-- The consoles are the same, but for the numbers of lines in messages. -/
structure Console.Renumbered (f : Nat → Nat) (c c' : Console) : Prop where
  /-- The same lines are left to read. -/
  input : c.input = c'.input
  /-- The same was done, but for the numbers of lines in messages. -/
  transcript : List.Forall₂ (Event.Renumbered f) c.transcript.toList c'.transcript.toList

/-- Consoles stay alike when the same is noted at both, but for numbers in a message. -/
theorem Console.Renumbered.note {c c' : Console} (h : Renumbered f c c') {e e' : Event}
    (he : Event.Renumbered f e e') : Renumbered f (c.note e) (c'.note e') where
  input := h.input
  transcript := by
    rw [Console.note, Console.note, Array.toList_push, Array.toList_push]
    exact List.rel_append h.transcript (.cons he .nil)

/-- A view of the transcript that leaves messages out is the same. -/
theorem Console.Renumbered.filterMap_eq {c c' : Console} (h : Renumbered f c c') {β : Type}
    {view : Event → Option β} (hview : ∀ s, view (.message s) = none) :
    c.transcript.toList.filterMap view = c'.transcript.toList.filterMap view := by
  have htranscript := h.transcript
  generalize c.transcript.toList = events at htranscript ⊢
  generalize c'.transcript.toList = events' at htranscript ⊢
  induction htranscript with
  | nil => rfl
  | cons he _ ih =>
    rw [List.filterMap_cons, List.filterMap_cons, ih]
    cases he with
    | output s => rfl
    | pause n => rfl
    | message d => rw [hview, hview]

/-- The same was written. -/
theorem Console.Renumbered.output {c c' : Console} (h : Renumbered f c c') :
    c.output = c'.output := congrArg String.join (h.filterMap_eq fun _ ↦ rfl)

/-- The same pauses were made. -/
theorem Console.Renumbered.pauses {c c' : Console} (h : Renumbered f c c') :
    c.pauses = c'.pauses := h.filterMap_eq fun _ ↦ rfl

/-- The machines are the same, but for the numbers of lines. -/
structure Machine.Renumbered (f : Nat → Nat) (m m' : Machine) : Prop where
  /-- The stores are the same, but for the lines of functions. -/
  store : m'.store = m.store.renumber f
  /-- The consoles are the same, but for the numbers of lines in messages. -/
  console : m.console.Renumbered f m'.console
  /-- The generator is the same. -/
  generator : m.generator = m'.generator
  /-- The limits are the same. -/
  limits : m.limits = m'.limits
  /-- The same calls have been put off, at other lines. -/
  deferred : m'.deferred = m.deferred.map (·.renumber f)
  /-- The chain of conditions stands at the same place. -/
  chosen : m.chosen = m'.chosen

namespace Machine.Renumbered

variable {m m' : Machine}

/-- The same variables are in sight. -/
theorem lookup? (h : m.Renumbered f m') (name : String) :
    m.store.lookup? name = m'.store.lookup? name := by
  rw [h.store]
  rfl

/-- The same depth is left to calls. -/
theorem depthLeft (h : m.Renumbered f m') : m.depthLeft = m'.depthLeft := by
  rw [Machine.depthLeft, Machine.depthLeft, h.store, h.limits]
  rfl

/-- The chain of conditions may move on in both. -/
theorem setChosen (h : m.Renumbered f m') (chosen : Bool) :
    Machine.Renumbered f { m with chosen } { m' with chosen } :=
  { h with chosen := rfl }

/-- What is done to both stores and has nothing to do with functions. -/
theorem setStore (h : m.Renumbered f m') {s s' : Store} (hs : s' = s.renumber f) :
    Machine.Renumbered f { m with store := s } { m' with store := s' } :=
  { h with store := hs }

/-- The same variable may be written in both. -/
theorem put (h : m.Renumbered f m') (name : String) (v : Variable) :
    Machine.Renumbered f { m with store := m.store.put name v }
      { m' with store := m'.store.put name v } :=
  h.setStore (by rw [h.store, Store.put_renumber])

/-- The same call may be put off in both, at lines of different number. -/
theorem defer (h : m.Renumbered f m') (line : SourceLine) (name : String) (args : List Value) :
    Machine.Renumbered f { m with deferred := m.deferred ++ [{ name, args, line }] }
      { m' with deferred := m'.deferred ++ [{ name, args, line := line.renumber f }] } :=
  { h with deferred := by rw [h.deferred, List.map_append]; rfl }

end Machine.Renumbered

/-- All that statements see and do is the same on machines that differ in numbers of lines. -/
theorem Machine.mirrors_renumbered (f : Nat → Nat) :
    Machine.Mirrors (Machine.Renumbered f) fun d d' ↦ d' = d.renumber f where
  lookup? h := h.lookup?
  stack h := by
    rw [h.store]
    rfl
  input h := h.console.input
  generator h := h.generator
  fault _ := rfl
  put h := h.put
  setStack h stack := h.setStore (by rw [h.store]; rfl)
  note h e he := by
    refine { h with console := h.console.note ?_ }
    cases e with
    | output s => exact .output s
    | message s => cases he
    | pause n => exact .pause n
  setInput h input := { h with console := { h.console with input := rfl } }
  setGenerator h generator := { h with generator := rfl }

/-! ### Combinators of trees -/

namespace Action

variable {α β : Type}

/-- The actions run side by side but for the numbers of lines. -/
abbrev ParallelRenumbered (f : Nat → Nat) (x y : Action α) : Prop :=
  Parallel (Machine.Renumbered f) (fun d d' ↦ d' = d.renumber f) x y

namespace ParallelRenumbered

/-- Moving on in a chain goes side by side. -/
theorem setChosen (chosen : Bool) :
    ParallelRenumbered f (modify fun m ↦ { m with chosen }) (modify fun m ↦ { m with chosen }) :=
  .modify fun h ↦ h.setChosen chosen

/-- A chain of its own keeps the chain around it on both machines. -/
theorem withOwnChain {x y : Action α} (hx : ParallelRenumbered f x y) :
    ParallelRenumbered f (Action.withOwnChain x) (Action.withOwnChain y) := by
  intro m m' h
  have hm := hx (h.setChosen false)
  rw [Action.withOwnChain, Action.withOwnChain]
  generalize x { m with chosen := false } = r at hm
  generalize y { m' with chosen := false } = r' at hm
  cases hm with
  | ok h' => exact .ok (h.chosen ▸ h'.setChosen m.chosen)
  | error hd h' => exact .error hd (h.chosen ▸ h'.setChosen m.chosen)

/-- A call opens and closes a frame on both machines. -/
theorem inCall {x y : Action α} (hx : ParallelRenumbered f x y) :
    ParallelRenumbered f (Action.inCall x) (Action.inCall y) := by
  intro m m' h
  have henter : m'.store.enter = m.store.enter.renumber f := by
    rw [h.store]
    rfl
  have hm := hx (h.setStore henter)
  rw [Action.inCall, Action.inCall]
  generalize x { m with store := m.store.enter } = r at hm
  generalize y { m' with store := m'.store.enter } = r' at hm
  cases hm with
  | ok h' => exact .ok (h'.setStore (by rw [h'.store]; rfl))
  | error hd h' => exact .error hd (h'.setStore (by rw [h'.store]; rfl))

/-- A failure gets the line on one machine and the renumbered line on the other. -/
theorem within {x y : Action α} (hx : ParallelRenumbered f x y) (line : SourceLine) :
    ParallelRenumbered f (Action.within line x) (Action.within (line.renumber f) y) :=
  Parallel.within hx fun {d d'} hd ↦ by rw [hd, Diagnostic.locate_renumber]

/-- A function is looked up on one side, and the same at other lines on the other. -/
theorem function {k k' : Function → Action α} {name : String}
    (hk : ∀ g : Function, ParallelRenumbered f (k g) (k' (g.renumber f))) :
    ParallelRenumbered f (Action.read (·.function name) >>= k)
      (Action.read (·.function name) >>= k') := by
  intro m m' h
  have hfind : m'.store.functions.find? name =
      (m.store.functions.find? name).map (·.renumber f) := by
    rw [h.store]
    exact Table.find?_map _ _ _
  show Matched _ _ ((ofExcept (m.store.function name) >>= k) m)
    ((ofExcept (m'.store.function name) >>= k') m')
  rw [Store.function, Store.function, hfind]
  rcases m.store.functions.find? name with - | g
  · exact .error rfl h
  · exact hk g h

end ParallelRenumbered

end Action

/-! ### Statements, trees and calls -/

variable {call call' : Callee}

/-- Statements run side by side, if calls do. -/
theorem Statement.parallel_renumbered
    (hcall : ∀ name args, ParallelRenumbered f (call name args) (call' name args))
    (line : SourceLine) (s : Statement) :
    ParallelRenumbered f (s.run call line) (s.run call' (line.renumber f)) :=
  s.parallel_run (Machine.mirrors_renumbered f) hcall fun h ↦ h.defer line

mutual

/-- Trees run side by side, if calls do: by induction on the tree, where each line is renumbered
with it. -/
theorem Tree.parallel_run
    (hcall : ∀ name args, ParallelRenumbered f (call name args) (call' name args)) :
    ∀ t : Tree, ParallelRenumbered f (t.run call) ((t.renumber f).run call')
  | .statement _ line s => by
    rw [renumber]
    exact (s.parallel_renumbered hcall line).within line
  | .block _ line head body => by
    have hR := Machine.mirrors_renumbered f
    have hbody := (Tree.parallel_runAll hcall body).withOwnChain
    have hcond (c : Cond) : ParallelRenumbered f (c.eval call) (c.eval call') :=
      c.parallel_eval hR hcall
    rw [renumber]
    refine .within ?_ line
    cases head with
    | function name params =>
      exact (Parallel.modify fun h ↦ h.setStore (by
        rw [h.store]
        exact Store.defineFunction_renumber _ name { params, body })).bind fun _ ↦ .pure _
    | ifBlock c =>
      refine (ParallelRenumbered.setChosen false).bind fun _ ↦ (hcond c).bind fun b ↦ ?_
      cases b with
      | true => exact (ParallelRenumbered.setChosen true).bind fun _ ↦ hbody
      | false => exact .pure _
    | elseIf c =>
      refine .getBind fun {m m'} h ↦ ?_
      rw [h.chosen]
      split
      · exact .pure _
      · refine (hcond c).bind fun b ↦ ?_
        cases b with
        | true => exact (ParallelRenumbered.setChosen true).bind fun _ ↦ hbody
        | false => exact .pure _
    | elseBlock =>
      refine .getBind fun {m m'} h ↦ (ParallelRenumbered.setChosen false).bind fun _ ↦ ?_
      rw [h.chosen]
      split
      · exact .pure _
      · exact hbody
    | whileLoop c =>
      refine .getBind fun {m m'} h ↦ ?_
      rw [h.limits]
      exact .loop hR _ (hcond c) hbody (.pure _) _
    | forLoop init c step =>
      refine (init.parallel_renumbered hcall line).discard.bind fun _ ↦ .getBind fun {m m'} h ↦ ?_
      rw [h.limits]
      exact .loop hR _ (hcond c) hbody (step.parallel_renumbered hcall line).discard _
  | .twice _ line inner => by
    have hinner := Tree.parallel_run hcall inner
    rw [renumber]
    refine .within (hinner.bind fun signal ↦ ?_) line
    cases signal with
    | next => exact hinner
    | left => exact .pure _
    | returned v? => exact .pure _

/-- Trees in a row run side by side, if calls do. -/
theorem Tree.parallel_runAll
    (hcall : ∀ name args, ParallelRenumbered f (call name args) (call' name args)) :
    ∀ ts : List Tree,
      ParallelRenumbered f (Tree.runAll call ts) (Tree.runAll call' (Tree.renumberAll f ts))
  | [] => .pure _
  | t :: ts => by
    rw [renumberAll, runAll, runAll]
    refine (Tree.parallel_run hcall t).bind fun signal ↦ ?_
    cases signal with
    | next => exact Tree.parallel_runAll hcall ts
    | left => exact .pure _
    | returned v? => exact .pure _

end

/-- The induction is on the depth left to calls; the body of the function makes its calls at one
level less. -/
theorem parallel_callFunction (depth : Nat) (name : String) (args : List Value) :
    ParallelRenumbered f (callFunction depth name args) (callFunction depth name args) := by
  have hR := Machine.mirrors_renumbered f
  induction depth generalizing name args with
  | zero =>
    rw [callFunction]
    refine .function fun g ↦ ?_
    show ParallelRenumbered f (if g.params.length ≠ args.length then _ else _)
      (if g.params.length ≠ args.length then _ else _)
    split
    · exact .fail hR _
    · refine .getBind fun {m m'} h ↦ ?_
      rw [h.limits]
      exact .fail hR _
  | succ depth ih =>
    rw [callFunction]
    refine .function fun g ↦ ?_
    show ParallelRenumbered f (if g.params.length ≠ args.length then _ else _)
      (if g.params.length ≠ args.length then _ else _)
    split
    · exact .fail hR _
    · have hdefine : ParallelRenumbered f (modifyStore (·.defineAll (g.params.zip args)))
          (modifyStore (·.defineAll (g.params.zip args))) :=
        .modify fun h ↦ h.setStore (by
          rw [h.store]
          exact Store.defineAll_renumber _ _)
      have hbody := (Tree.parallel_runAll ih g.body).withOwnChain
      exact (ParallelRenumbered.inCall (hdefine.bind fun _ ↦ hbody)).bind fun signal ↦ .pure _

/-- A call in the present state of the machine. -/
theorem Action.parallel_callee (name : String) (args : List Value) :
    ParallelRenumbered f (Action.callee name args) (Action.callee name args) :=
  .getBind fun {m m'} h ↦ by
    rw [h.depthLeft]
    exact parallel_callFunction _ name args

/-- A tree in the present state of the machine. -/
theorem Action.parallel_runTree (t : Tree) :
    ParallelRenumbered f (Action.runTree t) (Action.runTree (t.renumber f)) :=
  .getBind fun {m m'} h ↦ by
    rw [h.depthLeft]
    exact t.parallel_run (parallel_callFunction _)

end Haklang

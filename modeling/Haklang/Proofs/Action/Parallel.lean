import Haklang.Proofs.Action.Respects
import Haklang.Proofs.Store.Snapshots

/-!
# Actions side by side

Two actions run side by side if on machines that are related they come to related machines and to
answers that match: the same value, or diagnostics that are related in their turn
(`Action.Parallel`). This passes through the combinators, one lemma each.

A relation mirrors what statements see and do (`Machine.Mirrors`) if related machines have the same
variables in sight, the same stack and so on, and if they stay related when the same is done to
both. Then an expression, a condition and a statement each run side by side with themselves, as far
as calls do (`Expr.parallel_eval`, `Statement.parallel_run`). Functions, deferred calls and what was
written at the console before are not asked for: no statement looks at them but through a call.
-/

namespace Haklang

open Haklang.Action

/-! ### Combinators -/

namespace Action

variable {α β : Type} {R : Machine → Machine → Prop} {E : Diagnostic → Diagnostic → Prop}

/-- The same value, or related diagnostics; and related machines in either case. -/
inductive Matched (R : Machine → Machine → Prop) (E : Diagnostic → Diagnostic → Prop) :
    EStateM.Result Diagnostic Machine α → EStateM.Result Diagnostic Machine α → Prop where
  /-- Both succeed. -/
  | ok {a : α} {m m' : Machine} (h : R m m') : Matched R E (.ok a m) (.ok a m')
  /-- Both fail. -/
  | error {d d' : Diagnostic} {m m' : Machine} (hd : E d d') (h : R m m') :
    Matched R E (.error d m) (.error d' m')

/-- On related machines the answers of the actions match. -/
def Parallel (R : Machine → Machine → Prop) (E : Diagnostic → Diagnostic → Prop)
    (x y : Action α) : Prop := ∀ ⦃m m'⦄, R m m' → Matched R E (x m) (y m')

namespace Parallel

/-- Equal values match, whatever the relation. -/
theorem pure (a : α) : Parallel R E (Pure.pure a) (Pure.pure a) := fun _ _ h ↦ .ok h

/-- Sequences run side by side if their parts do, given the same answers to the first part. -/
theorem bind {x y : Action α} {f g : α → Action β} (hx : Parallel R E x y)
    (hf : ∀ a, Parallel R E (f a) (g a)) : Parallel R E (x >>= f) (y >>= g) := by
  intro m m' h
  have hm := hx h
  show Matched R E (EStateM.bind x f m) (EStateM.bind y g m')
  rw [EStateM.bind, EStateM.bind]
  generalize x m = r at hm
  generalize y m' = r' at hm
  cases hm with
  | ok h => exact hf _ h
  | error hd h => exact .error hd h

/-- Actions that run side by side still do so without their answers. -/
theorem discard {x y : Action α} (hx : Parallel R E x y) :
    Parallel R E (Functor.discard x) (Functor.discard y) := by
  intro m m' h
  have hm := hx h
  show Matched R E (EStateM.map _ x m) (EStateM.map _ y m')
  rw [EStateM.map, EStateM.map]
  generalize x m = r at hm
  generalize y m' = r' at hm
  cases hm with
  | ok h => exact .ok h
  | error hd h => exact .error hd h

/-- What reads the machine goes on with machines that are related. -/
theorem getBind {f g : Machine → Action β} (h : ∀ {m m'}, R m m' → Parallel R E (f m) (g m')) :
    Parallel R E (MonadState.get >>= f) (MonadState.get >>= g) := fun _ _ hm ↦ h hm hm

/-- Modifications that keep machines related run side by side. -/
theorem modify {f g : Machine → Machine} (h : ∀ {m m'}, R m m' → R (f m) (g m')) :
    Parallel R E (modify f : Action Unit) (modify g) := fun _ _ hm ↦ .ok (h hm)

/-- Two lines may stand around the actions, if naming them keeps diagnostics related. -/
theorem within {x y : Action α} {line line' : SourceLine} (hx : Parallel R E x y)
    (hline : ∀ {d d'}, E d d' → E (d.locate line) (d'.locate line')) :
    Parallel R E (Action.within line x) (Action.within line' y) := by
  intro m m' h
  have hm := hx h
  rw [Action.within, Action.within]
  generalize x m = r at hm
  generalize y m' = r' at hm
  cases hm with
  | ok h => exact .ok h
  | error hd h => exact .error (hline hd) h

end Parallel

end Action

/-! ### Relations that mirror what statements see and do -/

/-- Related machines are the same to statements, and stay related when the same is done to both. A
fault without a line is a diagnostic that is related to itself. -/
structure Machine.Mirrors (R : Machine → Machine → Prop) (E : Diagnostic → Diagnostic → Prop) :
    Prop where
  /-- The same variables are in sight. -/
  lookup? : ∀ {m m'}, R m m' → ∀ name, m.store.lookup? name = m'.store.lookup? name
  /-- The stack is the same. -/
  stack : ∀ {m m'}, R m m' → m.store.stack = m'.store.stack
  /-- The same lines are left to read. -/
  input : ∀ {m m'}, R m m' → m.console.input = m'.console.input
  /-- The same random values are to come. -/
  generator : ∀ {m m'}, R m m' → m.generator = m'.generator
  /-- A fault is not known to have a line. -/
  fault : ∀ f, E { fault := f } { fault := f }
  /-- A variable is written in both. -/
  put : ∀ {m m'}, R m m' → ∀ name v,
    R { m with store := m.store.put name v } { m' with store := m'.store.put name v }
  /-- The stack changes in both. -/
  setStack : ∀ {m m'}, R m m' → ∀ stack,
    R { m with store.stack := stack } { m' with store.stack := stack }
  /-- Something is done at both consoles that is no message. -/
  note : ∀ {m m'}, R m m' → ∀ e : Console.Event, e.message? = none →
    R { m with console := m.console.note e } { m' with console := m'.console.note e }
  /-- A line is read from both consoles. -/
  setInput : ∀ {m m'}, R m m' → ∀ input,
    R { m with console.input := input } { m' with console.input := input }
  /-- The generator changes in both. -/
  setGenerator : ∀ {m m'}, R m m' → ∀ generator,
    R { m with generator } { m' with generator }

section Mirrors

variable {R : Machine → Machine → Prop} {E : Diagnostic → Diagnostic → Prop} {α : Type}

/-- Mirrored machines have the same names in sight. -/
theorem Machine.Mirrors.names (hR : Machine.Mirrors R E) {m m' : Machine} (h : R m m') :
    m.store.names = m'.store.names := Store.names_congr (hR.lookup? h)

/-- A variable is declared with the type of a value in both. -/
theorem Machine.Mirrors.bind (hR : Machine.Mirrors R E) {m m' : Machine} (h : R m m')
    (name : String) (value : Value) :
    R { m with store := m.store.bind name value }
      { m' with store := m'.store.bind name value } := by
  simp only [Store.bind, hR.lookup? h name]
  exact hR.put h name _

namespace Action.Parallel

/-- The same fault on both machines makes for matching failures. -/
theorem fail (hR : Machine.Mirrors R E) (f : Fault) :
    Parallel R E (Action.fail f : Action α) (Action.fail f) := fun _ _ h ↦ .error (hR.fault f) h

/-- An answer that does not depend on the machine matches itself. -/
theorem ofExcept (hR : Machine.Mirrors R E) (r : Except Fault α) :
    Parallel R E (Action.ofExcept r) (Action.ofExcept r) := by
  cases r with
  | ok a => exact .pure a
  | error f => exact .fail hR f

/-- The same variable is read on both machines, or it is undefined on both. -/
theorem get (hR : Machine.Mirrors R E) (name : String) :
    Parallel R E (Action.read (·.get name)) (Action.read (·.get name)) := by
  refine getBind fun {m m'} h ↦ ?_
  have hget : m.store.get name = m'.store.get name := by
    rw [Store.get, Store.get, hR.lookup? h]
  show Parallel R E (Action.ofExcept (m.store.get name)) (Action.ofExcept (m'.store.get name))
  rw [hget]
  exact .ofExcept hR _

/-- The same variable is written on both machines. -/
theorem put (hR : Machine.Mirrors R E) (name : String) (v : Variable) :
    Parallel R E (Action.modifyStore (·.put name v)) (Action.modifyStore (·.put name v)) :=
  modify fun h ↦ hR.put h name v

/-- The same is noted at both consoles, as long as it is no message. -/
theorem note (hR : Machine.Mirrors R E) {e : Console.Event} (he : e.message? = none) :
    Parallel R E (Action.note e) (Action.note e) := modify fun h ↦ hR.note h e he

/-- Both consoles have the same lines to read, so they give the same line. -/
theorem readLine (hR : Machine.Mirrors R E) : Parallel R E Action.readLine Action.readLine := by
  intro m m' h
  have hinput := hR.input h
  show Matched R E
    (.ok (m.console.readLine.1.getD "") { m with console := m.console.readLine.2 })
    (.ok (m'.console.readLine.1.getD "") { m' with console := m'.console.readLine.2 })
  rw [Console.readLine, Console.readLine, ← hinput]
  rcases m.console.input with - | ⟨line, rest⟩
  · exact .ok h
  · exact .ok (hR.setInput h rest)

/-- Both generators draw the same. -/
theorem random (hR : Machine.Mirrors R E) (f : Generator → α × Generator) :
    Parallel R E (Action.random f) (Action.random f) := by
  intro m m' h
  show Matched R E (.ok (f m.generator).1 { m with generator := (f m.generator).2 })
    (.ok (f m'.generator).1 { m' with generator := (f m'.generator).2 })
  rw [hR.generator h]
  exact .ok (hR.setGenerator h _)

/-- A change of the store that on related machines has the same answer and leaves related ones. -/
theorem change (hR : Machine.Mirrors R E) {f : Store → Except Fault α × Store}
    (h : ∀ {m m'}, R m m' → (f m.store).1 = (f m'.store).1 ∧
      R { m with store := (f m.store).2 } { m' with store := (f m'.store).2 }) :
    Parallel R E (Action.change f) (Action.change f) := by
  intro m m' hm
  obtain ⟨hanswer, hrel⟩ := h hm
  rw [change_apply, change_apply, hanswer]
  exact ofExcept hR _ hrel

/-- The update of a variable is computed from the same value on both machines, so it succeeds or
fails on both. -/
theorem update (hR : Machine.Mirrors R E) (name : String) (f : Variable → Except Fault Value) :
    Parallel R E (Action.change (·.update name f)) (Action.change (·.update name f)) :=
  change hR fun {m m'} h ↦ by
    have hlookup := hR.lookup? h name
    rcases hv : m.store.lookup? name with - | v <;> rw [hv] at hlookup
    · simp only [Store.update, hv, ← hlookup]
      exact ⟨trivial, h⟩
    · cases hf : f v with
      | error e =>
        simp only [Store.update, Store.own, hv, ← hlookup, hf]
        exact ⟨trivial, hR.put h name v⟩
      | ok value =>
        simp only [Store.update, hv, ← hlookup, hf]
        exact ⟨trivial, hR.put h name _⟩

/-- An assignment finds a variable on both machines or on neither. -/
theorem assign (hR : Machine.Mirrors R E) (name : String) (value : Value) :
    Parallel R E (Action.change (·.assign name value)) (Action.change (·.assign name value)) := by
  intro m m' h
  have hlookup := hR.lookup? h name
  rw [change_apply, change_apply]
  rcases hv : m.store.lookup? name with - | v <;> rw [hv] at hlookup <;>
    simp only [Store.assign, hv, ← hlookup]
  · exact .ok (hR.bind h name value)
  · exact update hR name _ h

/-- The induction is on the iterations that are left. -/
theorem loop (hR : Machine.Mirrors R E) (limit : Nat) {cond cond' : Action Bool}
    {body body' : Action Signal} {step step' : Action Unit} (hcond : Parallel R E cond cond')
    (hbody : Parallel R E body body') (hstep : Parallel R E step step') (left : Nat) :
    Parallel R E (Action.loop limit cond body step left)
      (Action.loop limit cond' body' step' left) := by
  induction left with
  | zero =>
    refine hcond.bind fun b ↦ ?_
    cases b with
    | true => exact .fail hR _
    | false => exact .pure _
  | succ left ih =>
    refine hcond.bind fun b ↦ ?_
    cases b with
    | true =>
      refine hbody.bind fun signal ↦ ?_
      cases signal with
      | next => exact hstep.bind fun _ ↦ ih
      | left => exact .pure _
      | returned v? => exact .pure _
    | false => exact .pure _

end Action.Parallel

/-! ### Expressions and conditions -/

/-- Calls of the same functions with the same arguments run side by side. -/
def Callee.Parallel (R : Machine → Machine → Prop) (E : Diagnostic → Diagnostic → Prop)
    (call call' : Callee) : Prop :=
  ∀ name args, Action.Parallel R E (call name args) (call' name args)

variable {call call' : Callee}

mutual

/-- An expression has matching values on related machines, if calls do. -/
theorem Expr.parallel_eval (hR : Machine.Mirrors R E) (hcall : call.Parallel R E call') :
    ∀ e : Expr, Parallel R E (e.eval call) (e.eval call')
  | .negate e => (e.parallel_eval hR hcall).bind fun _ ↦ .ofExcept hR _
  | .binary _ l r => (l.parallel_eval hR hcall).bind fun _ ↦
    (r.parallel_eval hR hcall).bind fun _ ↦ .ofExcept hR _
  | .var name => .getBind fun {m m'} h ↦ by
    rw [hR.lookup? h name]
    exact .pure _
  | .int _ => .pure _
  | .decimal _ => .pure _
  | .text _ => .pure _
  | .bool _ => .pure _
  | .call name args => (Expr.parallel_evalAll hR hcall args).bind fun vs ↦
    (hcall name vs).bind fun v? ↦ by
      cases v? with
      | none => exact .fail hR _
      | some v => exact .pure _
  | .unresolved _ => .fail hR _

/-- Arguments are evaluated side by side, one after the other. -/
theorem Expr.parallel_evalAll (hR : Machine.Mirrors R E) (hcall : call.Parallel R E call') :
    ∀ es : List Expr, Parallel R E (Expr.evalAll call es) (Expr.evalAll call' es)
  | [] => .pure _
  | e :: es => (e.parallel_eval hR hcall).bind fun _ ↦
    (Expr.parallel_evalAll hR hcall es).bind fun _ ↦ .pure _

end

/-- A condition holds on both machines or on neither, if calls match. -/
theorem Cond.parallel_eval (hR : Machine.Mirrors R E) (hcall : call.Parallel R E call')
    (c : Cond) : Parallel R E (c.eval call) (c.eval call') := by
  induction c with
  | literal b => exact .pure b
  | or l r ihl ihr => exact ihl.bind fun _ ↦ ihr.bind fun _ ↦ .pure _
  | and l r ihl ihr => exact ihl.bind fun _ ↦ ihr.bind fun _ ↦ .pure _
  | compare rel l r =>
    exact (l.parallel_eval hR hcall).bind fun _ ↦
      (r.parallel_eval hR hcall).bind fun _ ↦ .ofExcept hR _
  | holds e => exact (e.parallel_eval hR hcall).bind fun _ ↦ .pure _

/-! ### Statements -/

/-- What an output item writes depends on the variables in sight alone. -/
theorem OutputItem.render_congr {s s' : Store} (h : ∀ name, s.lookup? name = s'.lookup? name) :
    OutputItem.render s = OutputItem.render s' := by
  funext item
  cases item <;> simp only [render, h]

/-- What an inspection writes depends on the variables in sight and on the stack. -/
theorem Store.describe_congr {s s' : Store} (h : ∀ name, s.lookup? name = s'.lookup? name)
    (hstack : s.stack = s'.stack) : s.describe = s'.describe := by
  simp only [describe, names_congr h, h, hstack]

namespace Statement

/-- A variable is drawn anew on both machines, in the same way, since it has the same type on both.
-/
theorem parallel_randomizeOne (hR : Machine.Mirrors R E) (name : String) :
    Parallel R E (randomizeOne name) (randomizeOne name) :=
  (Parallel.get hR name).bind fun v ↦ by
    split
    · exact .pure _
    · exact (Parallel.random hR _).bind fun _ ↦ .update hR name _

/-- Drawing one variable after another keeps the machines side by side. -/
theorem parallel_randomizeEach (hR : Machine.Mirrors R E) (names : List String) :
    Parallel R E (randomizeEach names) (randomizeEach names) := by
  induction names with
  | nil => exact .pure _
  | cons name rest ih => exact (parallel_randomizeOne hR name).bind fun _ ↦ ih

/-- The line that is read is converted for the same variable on both machines. -/
theorem parallel_inputTo (hR : Machine.Mirrors R E) (name : String) :
    Parallel R E (inputTo name) (inputTo name) :=
  (Parallel.get hR name).bind fun v ↦ (Parallel.readLine hR).bind fun line ↦ by
    split
    · exact .update hR name _
    · exact .fail hR _

/-- The keyword and the variable are the same on both machines, so the amount is. -/
theorem parallel_incrementBy (hR : Machine.Mirrors R E) (name keyword : String) :
    Parallel R E (incrementBy name keyword) (incrementBy name keyword) :=
  (Parallel.get hR name).bind fun v ↦
    (Parallel.ofExcept hR (Increment.stepOf name keyword v.value)).bind fun _ ↦
      .update hR name _

/-- The items are read for the same variable on both machines. -/
theorem parallel_assignItems (hR : Machine.Mirrors R E) (name : String) (items : List String) :
    Parallel R E (assignItems name items) (assignItems name items) :=
  (Parallel.get hR name).bind fun v ↦ by
    split
    · split
      · exact .update hR name _
      · exact .fail hR _
    · exact .fail hR _

/-- The item at a position is the same on both machines. -/
theorem parallel_outputItem (hR : Machine.Mirrors R E) (name : String) (position : Nat) :
    Parallel R E (outputItem name position) (outputItem name position) :=
  (Parallel.get hR name).bind fun v ↦ by
    split
    · split
      · exact .note hR rfl
      · exact .fail hR _
    · exact .fail hR _

/-- The pause is checked, and noted, on both machines alike. -/
theorem parallel_pauseFor (hR : Machine.Mirrors R E) (v : Value) :
    Parallel R E (pauseFor v) (pauseFor v) := by
  unfold pauseFor
  split
  · exact .fail hR _
  · split
    · exact .note hR rfl
    · exact .fail hR _

/-- A statement runs side by side with itself, at lines that the calls which it puts off may go
with. -/
theorem parallel_run (hR : Machine.Mirrors R E) (hcall : call.Parallel R E call')
    {line line' : SourceLine}
    (hdefer : ∀ {m m'}, R m m' → ∀ name args,
      R { m with deferred := m.deferred ++ [{ name, args, line }] }
        { m' with deferred := m'.deferred ++ [{ name, args, line := line' }] })
    (s : Statement) : Parallel R E (s.run call line) (s.run call' line') := by
  cases s with
  | leave => exact .pure _
  | result e? =>
    cases e? with
    | none => exact .pure _
    | some e => exact (e.parallel_eval hR hcall).bind fun _ ↦ .pure _
  | truth b => exact .pure _
  | declare name tag shielded => exact (Parallel.put hR name _).bind fun _ ↦ .pure _
  | increment name keyword => exact (parallel_incrementBy hR name keyword).bind fun _ ↦ .pure _
  | assignText name s => exact (Parallel.assign hR name _).bind fun _ ↦ .pure _
  | assign name e =>
    exact (e.parallel_eval hR hcall).bind fun v ↦ (Parallel.assign hR name v).bind fun _ ↦ .pure _
  | assignList name items => exact (parallel_assignItems hR name items).bind fun _ ↦ .pure _
  | sort name descending => exact (Parallel.update hR name _).bind fun _ ↦ .pure _
  | output items newline =>
    -- what is written is made of variables, and the same ones are in sight
    refine .getBind fun {m m'} h ↦ ?_
    simp only [OutputItem.render_congr (hR.lookup? h)]
    exact (Parallel.note hR rfl).bind fun _ ↦ .pure _
  | input name? newline =>
    have hnewline : Parallel R E (do
        if newline then note (.output "\n")
        return Signal.next) (do
        if newline then note (.output "\n")
        return Signal.next) := by
      cases newline with
      | true => exact (Parallel.note hR rfl).bind fun _ ↦ .pure _
      | false => exact .pure _
    cases name? with
    | none => exact (Parallel.readLine hR).discard.bind fun _ ↦ hnewline
    | some name => exact (parallel_inputTo hR name).bind fun _ ↦ hnewline
  | call name args =>
    exact (Expr.parallel_evalAll hR hcall args).bind fun vs ↦
      (hcall name vs).discard.bind fun _ ↦ .pure _
  | defer name args =>
    exact (Expr.parallel_evalAll hR hcall args).bind fun vs ↦
      (Parallel.modify fun h ↦ hdefer h name vs).bind fun _ ↦ .pure _
  | reset name => exact (Parallel.update hR name _).bind fun _ ↦ .pure _
  | randomize name => exact (parallel_randomizeOne hR name).bind fun _ ↦ .pure _
  | randomizeAll =>
    refine .getBind fun {m m'} h ↦ ?_
    rw [hR.names h]
    exact (parallel_randomizeEach hR _).bind fun _ ↦ .pure _
  | outputElement name position =>
    exact (parallel_outputItem hR name position).bind fun _ ↦ .pure _
  | push name =>
    refine (Parallel.get hR name).bind fun v ↦ (Parallel.modify fun {m m'} h ↦ ?_).bind fun _ ↦
      .pure _
    simp only [Store.push, hR.stack h]
    exact hR.setStack h _
  | pop name =>
    refine .bind (.change hR fun {m m'} h ↦ ?_) fun v ↦
      (Parallel.modify fun h ↦ hR.bind h name v).bind fun _ ↦ .pure _
    -- both stacks are empty, or they have the same value on top
    have hstack := hR.stack h
    rcases hs : m.store.stack with - | ⟨value, rest⟩ <;> rw [hs] at hstack <;>
      simp only [Store.pop, hs, ← hstack]
    · exact ⟨trivial, h⟩
    · exact ⟨trivial, hR.setStack h rest⟩
  | inspect name? =>
    cases name? with
    | none =>
      refine .getBind fun {m m'} h ↦ ?_
      rw [Store.describe_congr (hR.lookup? h) (hR.stack h)]
      exact (Parallel.note hR rfl).bind fun _ ↦ .pure _
    | some name =>
      exact (Parallel.get hR name).bind fun v ↦ (Parallel.note hR rfl).bind fun _ ↦ .pure _
  | pause e =>
    exact (e.parallel_eval hR hcall).bind fun v ↦ (parallel_pauseFor hR v).bind fun _ ↦ .pure _
  | marker => exact .pure _
  | comment => exact .pure _
  | unknown text => exact .fail hR _

end Statement

end Mirrors

end Haklang

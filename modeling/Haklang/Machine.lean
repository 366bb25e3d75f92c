import Haklang.Console
import Haklang.Store
import Haklang.Random.Draw

/-!
# The machine

The state that statements act on, and the actions themselves: computations that read and change the
state and may fail with a diagnostic. A failure keeps the state that it was reached in, so what was
written and changed before it stays.

Actions are built from few basic ones: reading or changing the store, the console and the
generator, and failing with a fault. `Action.within` gives the line that a failure inside is
reported at.
-/

namespace Haklang

/-- What bounds the running of a program. -/
structure Limits where
  /-- How often the body of a loop may run, and how many deferred calls may. -/
  iterations : Nat := 100000
  /-- How deep calls may be nested. -/
  callDepth : Nat := 1000
deriving DecidableEq, Repr

/-- A call put off to the end of the program. -/
structure DeferredCall where
  /-- The name of the function. -/
  name : String
  /-- The arguments, as they were when the call was put off. -/
  args : List Value
  /-- The line that put it off. -/
  line : SourceLine

/-- The state that statements act on. -/
structure Machine where
  /-- Variables, functions and the stack. -/
  store : Store := {}
  /-- The console. -/
  console : Console := {}
  /-- Where random values come from. -/
  generator : Generator
  /-- What bounds the running. -/
  limits : Limits := {}
  /-- The calls put off so far, in order. -/
  deferred : List DeferredCall := []
  /-- Whether a member of the current chain of conditions has been chosen. -/
  chosen : Bool := false

/-- A computation on the machine that may fail. -/
abbrev Action : Type → Type := EStateM Diagnostic Machine

namespace Action

/-- Fails with a fault whose line is not known yet. -/
def fail {α : Type} (f : Fault) : Action α := throw { fault := f }

/-- The result of a computation that may fail with a fault. -/
def ofExcept {α : Type} : Except Fault α → Action α
  | .ok a => pure a
  | .error f => fail f

/-- A result computed from the store. -/
def read {α : Type} (f : Store → Except Fault α) : Action α := do ofExcept (f (← get).store)

/-- A change of the store, which stays also when it fails. -/
def change {α : Type} (f : Store → Except Fault α × Store) : Action α := do
  let (a, store) := f (← get).store
  modify fun m ↦ { m with store }
  ofExcept a

/-- A change of the store that cannot fail. -/
def modifyStore (f : Store → Store) : Action Unit := modify fun m ↦ { m with store := f m.store }

/-- Notes an event at the console. -/
def note (e : Console.Event) : Action Unit := modify fun m ↦ { m with console := m.console.note e }

/-- The next line from the console, and the empty line when there are no more. -/
def readLine : Action String := do
  let (line?, console) := (← get).console.readLine
  modify fun m ↦ { m with console }
  pure (line?.getD "")

/-- The value of a function that changes the generator. -/
def random {α : Type} (f : Generator → α × Generator) : Action α := do
  let (a, generator) := f (← get).generator
  modify fun m ↦ { m with generator }
  pure a

/-- Reports a failure inside at the given line, unless it has a line already. -/
def within {α : Type} (line : SourceLine) (x : Action α) : Action α := fun m ↦
  match x m with
  | .ok a m => .ok a m
  | .error d m => .error (d.locate line) m

/-- Runs an action with a chain of conditions of its own; the chain outside is as before, also when
the action fails. -/
def withOwnChain {α : Type} (x : Action α) : Action α := fun m ↦
  match x { m with chosen := false } with
  | .ok a m' => .ok a { m' with chosen := m.chosen }
  | .error d m' => .error d { m' with chosen := m.chosen }

/-- Runs an action in a call of its own, in whose frame it may declare variables; the frame is left
also when the action fails. -/
def inCall {α : Type} (x : Action α) : Action α := fun m ↦
  match x { m with store := m.store.enter } with
  | .ok a m => .ok a { m with store := m.store.exit }
  | .error d m => .error d { m with store := m.store.exit }

end Action

end Haklang

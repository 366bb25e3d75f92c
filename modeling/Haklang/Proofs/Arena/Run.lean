import Haklang.Proofs.Action.Blind
import Haklang.Proofs.Arena.Basic
import Haklang.Session

/-!
# Running from an arena

The language run by number: a node is looked up in the arena, a block and a function know the nodes
of their bodies by number, and a call looks its function up in a table that the program changes
while it runs. Nothing in the text of these functions says that a run comes to an end. They recur on
fuel and on nothing else, and a run that has no fuel left, or that looks for a node where there is
none, has no answer (`Attempt.stuck`).

The limits of the language are checked where a program meets them: a loop counts its iterations up
to the limit, a call compares the number of calls in progress with the limit, and the calls that
were put off are counted as they run.

Statements and expressions without calls do what they do elsewhere (`Attempt.lift`); the functions
that a machine holds by itself are not used here.
-/

namespace Haklang

namespace Arena

open Haklang.Action

/-- A function whose body is known by number. -/
structure Routine where
  /-- The names of the parameters. -/
  params : List String
  /-- The numbers of the nodes of the body. -/
  body : List Nat

/-- The machine, with functions known by number. -/
structure Runner where
  /-- The state that statements act on. -/
  machine : Machine
  /-- The functions. -/
  routines : Table Routine := {}

/-- A computation on a runner that may fail, and that may have no answer. -/
def Attempt (α : Type) : Type := Runner → Option (EStateM.Result Diagnostic Runner α)

namespace Attempt

variable {α β : Type}

instance : Monad Attempt where
  pure a := fun r ↦ some (.ok a r)
  bind x f := fun r ↦
    (x r).bind fun
      | .ok a r => f a r
      | .error d r => some (.error d r)

/-- There is no answer. -/
def stuck : Attempt α := fun _ ↦ none

/-- An action on the machine. -/
def lift (x : Action α) : Attempt α := fun r ↦
  some (mapState (fun machine ↦ { r with machine }) (x r.machine))

/-- Reports a failure inside at the given line, unless it has a line already. -/
def within (line : SourceLine) (x : Attempt α) : Attempt α := fun r ↦
  (x r).map fun
    | .ok a r => .ok a r
    | .error d r => .error (d.locate line) r

/-- Runs with a chain of conditions of its own. -/
def withOwnChain (x : Attempt α) : Attempt α := fun r ↦
  (x { r with machine.chosen := false }).map
    (mapState fun r' ↦ { r' with machine.chosen := r.machine.chosen })

/-- Runs in a call of its own. -/
def inCall (x : Attempt α) : Attempt α := fun r ↦
  (x { r with machine.store := r.machine.store.enter }).map
    (mapState fun r' ↦ { r' with machine.store := r'.machine.store.exit })

/-- The function of a name; there has to be one. -/
def routine (name : String) : Attempt Routine := fun r ↦
  match r.routines.find? name with
  | some f => some (.ok f r)
  | none => some (.error { fault := .undefinedFunction name } r)

/-- Defines a function, in place of any other of its name. -/
def define (name : String) (f : Routine) : Attempt Unit := fun r ↦
  some (.ok () { r with routines := r.routines.insert name f })

end Attempt

open Attempt

/-- Stands for calls where there are none. -/
def noCall : Callee := fun _ _ ↦ pure none

variable (arena : Arena)

mutual

/-- The value of an expression. -/
def expr : Nat → Expr → Attempt Value
  | 0, _ => stuck
  | n + 1, .negate e => do
    let v ← expr n e
    lift (ofExcept v.negate)
  | n + 1, .binary op l r => do
    let a ← expr n l
    let b ← expr n r
    lift (ofExcept (op.apply a b))
  | n + 1, .call name args => do
    let vs ← exprs n args
    match ← call n name vs with
    | some v => pure v
    | none => lift (fail (.noResult name))
  | _ + 1, e => lift (e.eval noCall)

/-- The values of expressions, from left to right. -/
def exprs : Nat → List Expr → Attempt (List Value)
  | 0, _ => stuck
  | _ + 1, [] => pure []
  | n + 1, e :: rest => do
    let v ← expr n e
    let vs ← exprs n rest
    pure (v :: vs)

/-- Whether a condition holds. -/
def cond : Nat → Cond → Attempt Bool
  | 0, _ => stuck
  | _ + 1, .literal b => pure b
  | n + 1, .or l r => do
    let a ← cond n l
    let b ← cond n r
    pure (a || b)
  | n + 1, .and l r => do
    let a ← cond n l
    let b ← cond n r
    pure (a && b)
  | n + 1, .compare rel l r => do
    let a ← expr n l
    let b ← expr n r
    lift (ofExcept (Value.relate rel a b))
  | n + 1, .holds e => do
    let v ← expr n e
    pure v.holds

/-- Runs a statement. -/
def statement : Nat → SourceLine → Statement → Attempt Signal
  | 0, _, _ => stuck
  | n + 1, _, .result (some e) => do
    let v ← expr n e
    pure (.returned (some v))
  | n + 1, _, .assign name e => do
    let v ← expr n e
    lift (change (·.assign name v))
    pure .next
  | n + 1, _, .call name args => do
    let vs ← exprs n args
    discard (call n name vs)
    pure .next
  | n + 1, line, .defer name args => do
    let vs ← exprs n args
    lift (modify fun m ↦ { m with deferred := m.deferred ++ [{ name, args := vs, line }] })
    pure .next
  | n + 1, _, .pause e => do
    let v ← expr n e
    lift (Statement.pauseFor v)
    pure .next
  | _ + 1, line, s => lift (s.run noCall line)

/-- Runs the node of a number. -/
def node : Nat → Nat → Attempt Signal
  | 0, _ => stuck
  | n + 1, id =>
    match arena[id]? with
    | none => stuck
    | some (.statement line s) => within line (statement n line s)
    | some (.block line head body) => within line (block n line head body)
    | some (.twice line inner) => within line do
      match ← node n inner with
      | .next => node n inner
      | signal => pure signal

/-- Runs nodes in order, up to the first that ends with a signal. -/
def sequence : Nat → List Nat → Attempt Signal
  | 0, _ => stuck
  | _ + 1, [] => pure .next
  | n + 1, id :: rest => do
    match ← node n id with
    | .next => sequence n rest
    | signal => pure signal

/-- Runs a block. -/
def block : Nat → SourceLine → BlockHead → List Nat → Attempt Signal
  | 0, _, _, _ => stuck
  | _ + 1, _, .function name params, body => do
    define name { params, body }
    pure .next
  | n + 1, _, .ifBlock c, body => do
    lift (modify fun m ↦ { m with chosen := false })
    if ← cond n c then
      lift (modify fun m ↦ { m with chosen := true })
      withOwnChain (sequence n body)
    else pure .next
  | n + 1, _, .elseIf c, body => do
    if (← lift get).chosen then pure .next
    else if ← cond n c then
      lift (modify fun m ↦ { m with chosen := true })
      withOwnChain (sequence n body)
    else pure .next
  | n + 1, _, .elseBlock, body => do
    let chosen := (← lift get).chosen
    lift (modify fun m ↦ { m with chosen := false })
    if chosen then pure .next else withOwnChain (sequence n body)
  | n + 1, line, .whileLoop c, body => do
    let limit := (← lift get).limits.iterations
    loop n line c none body limit 0
  | n + 1, line, .forLoop init c step, body => do
    discard (statement n line init)
    let limit := (← lift get).limits.iterations
    loop n line c (some step) body limit 0

/-- Runs a body and a step as long as a condition holds. The last argument is the number of
iterations that have been run. -/
def loop : Nat → SourceLine → Cond → Option Statement → List Nat → Nat → Nat → Attempt Signal
  | 0, _, _, _, _, _, _ => stuck
  | n + 1, line, c, step?, body, limit, count => do
    if ← cond n c then
      if limit ≤ count then lift (fail (.runawayLoop limit))
      else
        match ← withOwnChain (sequence n body) with
        | .next =>
          step?.elim (pure ()) fun step ↦ discard (statement n line step)
          loop n line c step? body limit (count + 1)
        | .left => pure .next
        | .returned v? => pure (.returned v?)
    else pure .next

/-- Calls a function. -/
def call : Nat → String → List Value → Attempt (Option Value)
  | 0, _, _ => stuck
  | n + 1, name, args => do
    let f ← routine name
    if f.params.length ≠ args.length then
      lift (fail (.argumentCount name f.params.length args.length))
    else
      let m ← lift get
      if m.limits.callDepth ≤ m.store.depth then
        lift (fail (.callDepth name m.limits.callDepth))
      else
        let signal ← inCall do
          lift (modifyStore (·.defineAll (f.params.zip args)))
          withOwnChain (sequence n f.body)
        pure signal.value?

end

/-! ### Sessions -/

/-- A session between two lines, with the arena of all trees that it has built. -/
structure Interpreter where
  /-- The nodes of all trees so far. -/
  arena : Arena := []
  /-- The state that nodes act on. -/
  runner : Runner
  /-- Where the gathering of lines stands. -/
  collector : Collector := .idle
  /-- Whether the marker that makes the next item run twice has been met. -/
  twice? : Bool := false

namespace Interpreter

/-- A session at its start. -/
def start (generator : Generator) (limits : Limits) (input : List String) : Interpreter :=
  { runner := { machine := { generator, limits, console := { input } } } }

/-- Runs an attempt on the runner. -/
def perform {α : Type} (a : Interpreter) (x : Attempt α) :
    Option (Except Diagnostic α × Interpreter) :=
  (x a.runner).map fun
    | .ok v runner => (.ok v, { a with runner })
    | .error d runner => (.error d, { a with runner })

/-- Writes a message at the console. -/
def report (a : Interpreter) (message : String) : Interpreter :=
  { a with runner.machine.console := a.runner.machine.console.note (.message message) }

/-- Lays a passage down at the end of the arena, numbered from there, and runs it. -/
def runPassage (n : Nat) (a : Interpreter) (p : Passage) :
    Option (Except Diagnostic Unit × Interpreter) :=
  match Tree.ofPassage? p a.arena.length with
  | none => some (.ok (), { a with twice? := true })
  | some (t, next) =>
    let t := (t.repeated a.twice? next).1
    let arena := a.arena ++ t.flatten
    { a with twice? := false, arena }.perform (discard (node arena n t.id))

/-- Takes one line of source, and runs the passage that it completes. -/
def feed (n : Nat) (a : Interpreter) (text : String) (number : Nat) :
    Option (Except Diagnostic Unit × Interpreter) :=
  let text := Text.trimmed text
  if text = "" ∨ text = Line.sentinel then some (.ok (), a)
  else
    let (collector, passage?) := a.collector.push { number, text }
    match passage? with
    | none => some (.ok (), { a with collector })
    | some p => { a with collector }.runPassage n p

/-- Takes lines, each with a number of its own, up to the first that fails. -/
def feedEach (n : Nat) (a : Interpreter) :
    List SourceLine → Option (Except Diagnostic Unit × Interpreter)
  | [] => some (.ok (), a)
  | line :: rest =>
    (a.feed n line.text line.number).bind fun
      | (.ok _, a) => a.feedEach n rest
      | (.error d, a) => some (.error d, a)

/-- Runs the deferred calls in order, those that are put off meanwhile included. The last argument
is the number of calls that have been run. -/
def drain : Nat → Interpreter → Nat → Option Interpreter
  | 0, _, _ => none
  | n + 1, a, count =>
    match a.runner.machine.deferred with
    | [] => some a
    | call :: rest =>
      if a.runner.machine.limits.iterations ≤ count then
        let d : Diagnostic := { fault := .runawayDeferred a.runner.machine.limits.iterations }
        some ({ a with runner.machine.deferred := [] }.report ((d.locate call.line).render ++ "\n"))
      else
        let a := { a with runner.machine.deferred := rest }
        (a.perform (Arena.call a.arena n call.name call.args)).bind fun
          | (.ok _, a) => a.drain n (count + 1)
          | (.error d, a) => (a.report ((d.locate call.line).render ++ "\n")).drain n (count + 1)

/-- The end of the source: an open block and a marker before nothing are dropped, and the deferred
calls run. -/
def finish (n : Nat) (a : Interpreter) : Option Interpreter :=
  { a with collector := .idle, twice? := false }.drain n 0

/-- Runs a whole program. -/
def runSource (n : Nat) (a : Interpreter) (source : String) :
    Option (Except Diagnostic Session.Outcome × Interpreter) :=
  let lines := Text.lines source
  if Session.hasSentinel lines then
    (a.feedEach n (lines.zipIdx 1 |>.map fun p ↦ { number := p.2, text := p.1 })).bind fun
      | (.ok _, a) => (a.finish n).map fun a ↦ (.ok .completed, a)
      | (.error d, a) => some (.error d, a)
  else
    some (.ok .missingSentinel, a.report ("program must begin with '" ++ Line.sentinel ++ "'\n"))

end Interpreter

end Arena

end Haklang

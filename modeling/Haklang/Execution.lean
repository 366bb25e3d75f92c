import Haklang.Increment
import Haklang.Machine
import Haklang.Number.Binary64

/-!
# Execution

What expressions, conditions, statements and trees do on the machine.

Everything that can call a function takes what a call does as a parameter (`Callee`), so each of
the evaluators recurs on the tree that it is given and on nothing else. A loop recurs on the
iterations that are left, and a call (`callFunction`) on how deep calls may still be nested; it
hands the evaluators itself at one level less. So a program cannot run on for ever, and no bound is
needed that the language does not have itself.

A tree ends in one of three ways (`Signal`). Loops take notice of `left`, calls of `returned`, and
everything else passes a signal on.
-/

namespace Haklang

/-- How the running of a tree ends, if it does not fail. -/
inductive Signal where
  /-- The next tree is to run. -/
  | next
  /-- The innermost loop is to be left, or the call outside loops. -/
  | left
  /-- The call is to end, with a value if there is one. -/
  | returned (v? : Option Value)
deriving DecidableEq

/-- What calling a function with arguments does. It gives the value returned, if there is one. -/
abbrev Callee : Type := String → List Value → Action (Option Value)

open Haklang.Action

/-! ### Expressions and conditions -/

mutual

/-- The value of an expression. Operands and arguments are evaluated from left to right. A variable
that was never declared counts as zero. -/
def Expr.eval (call : Callee) : Expr → Action Value
  | .negate e => do
    let v ← e.eval call
    ofExcept v.negate
  | .binary op l r => do
    let a ← l.eval call
    let b ← r.eval call
    ofExcept (op.apply a b)
  | .var name => do return (((← get).store.lookup? name).map Variable.value).getD (.int 0)
  | .int n => pure (.int n)
  | .decimal d => pure (.decimal .seven d)
  | .text s => pure (.text s)
  | .bool b => pure (.bool b)
  | .call name args => do
    let args ← Expr.evalAll call args
    match ← call name args with
    | some v => pure v
    | none => fail (.noResult name)
  | .unresolved s => fail (.unresolved s)

/-- The values of expressions, from left to right. -/
def Expr.evalAll (call : Callee) : List Expr → Action (List Value)
  | [] => pure []
  | e :: rest => do
    let v ← e.eval call
    let vs ← Expr.evalAll call rest
    pure (v :: vs)

end

/-- Whether a condition holds. Both sides of a connective are evaluated in any case. -/
def Cond.eval (call : Callee) : Cond → Action Bool
  | .literal b => pure b
  | .or l r => do
    let a ← l.eval call
    let b ← r.eval call
    pure (a || b)
  | .and l r => do
    let a ← l.eval call
    let b ← r.eval call
    pure (a && b)
  | .compare rel l r => do
    let a ← l.eval call
    let b ← r.eval call
    ofExcept (Value.relate rel a b)
  | .holds e => do return (← e.eval call).holds

/-! ### Statements -/

/-- The text of an output token. What cannot be found is written as `undefined`. -/
def OutputItem.render (s : Store) : OutputItem → String
  | text s => s
  | var name =>
    match s.lookup? name with
    | some v => v.value.render
    | none => "undefined"
  | element name position =>
    match s.lookup? name with
    | some { value := .list xs, .. } =>
      match if position = 0 then none else xs.get? (position - 1) with
      | some v => v.render
      | none => "undefined"
    | _ => "undefined"

/-- The value that a console line stands for in a variable of the given type. -/
def Value.ofConsole? (t : TypeTag) (line : String) : Option Value :=
  match t with
  | .item .int => (Integer.read? (Text.trim line.toList)).map int
  | .item (.decimal p) => (Decimal.read? (Text.trim line.toList)).map (decimal p)
  | .item .text => some (text line)
  | .list _ => none

/-- The line that shows a variable: its type, its name, its value and its shield. -/
def Variable.describe (name : String) (v : Variable) : String :=
  v.tag.render ++ "[" ++ name ++ "] = " ++ v.value.render
    ++ (if v.shielded then " 포자맨" else "") ++ "\n"

/-- The lines that show all variables and the stack, from its bottom. -/
def Store.describe (s : Store) : String :=
  let shown := s.names.filterMap fun name ↦ (s.lookup? name).map (Variable.describe name)
  let stack := s.stack.reverse.map Value.render
  String.join shown ++ "stack(" ++ Numeral.text stack.length ++ "): "
    ++ ", ".intercalate stack ++ "\n"

namespace Statement

/-- Gives a variable a random value of its type, unless it is shielded. -/
def randomizeOne (name : String) : Action Unit := do
  let v ← read (·.get name)
  if v.shielded then pure ()
  else
    let value ← Action.random (Generator.draw v.tag)
    change (·.update name fun _ ↦ .ok value)

/-- Gives variables random values, in order. -/
def randomizeEach : List String → Action Unit
  | [] => pure ()
  | name :: rest => do
    randomizeOne name
    randomizeEach rest

/-- Reads a console line into a variable. That the variable exists is seen before the line is
read. -/
def inputTo (name : String) : Action Unit := do
  let v ← read (·.get name)
  let line ← readLine
  match Value.ofConsole? v.tag line with
  | some value => change (·.set name value)
  | none => fail (.consoleLine line v.tag name)

/-- Adds the step that a keyword names to a variable. That there is a step, and a number to add it
to, is seen before the variable is written. -/
def incrementBy (name keyword : String) : Action Unit := do
  let v ← read (·.get name)
  let step ← ofExcept (Increment.stepOf name keyword v.value)
  change (·.update name fun v ↦ Increment.advance name step v.value)

/-- Assigns a list, its items read as the type of the variable says. -/
def assignItems (name : String) (items : List String) : Action Unit := do
  let v ← read (·.get name)
  match v.tag with
  | .list t =>
    match ItemList.read t items with
    | .ok xs => change (·.set name (.list xs))
    | .error item => fail (.itemMisfit item name)
  | _ => fail (.notList name)

/-- Writes the item of a list at a position, counted from one, and a line feed. -/
def outputItem (name : String) (position : Nat) : Action Unit := do
  let v ← read (·.get name)
  match v.value with
  | .list xs =>
    match if position = 0 then none else xs.get? (position - 1) with
    | some item => note (.output (item.render ++ "\n"))
    | none => fail (.outsideList position name xs.size)
  | _ => fail (.notList name)

/-- Pauses for as many seconds as a value says. -/
def pauseFor (v : Value) : Action Unit :=
  match v.number? with
  | none => fail (.pauseNoNumber v.kind)
  | some d =>
    match Binary64.nanoseconds? d.toFloat with
    | some n => note (.pause n)
    | none => fail .pauseRange

/-- Runs a statement; its line goes with the calls that it puts off. -/
def run (call : Callee) (line : SourceLine) : Statement → Action Signal
  | .leave => pure .left
  | .result none => pure (.returned none)
  | .result (some e) => do
    let v ← e.eval call
    pure (.returned (some v))
  | .truth _ => pure .next
  | .declare name tag shielded => do
    modifyStore (·.declare name tag shielded)
    pure .next
  | .increment name keyword => do
    incrementBy name keyword
    pure .next
  | .assignText name s => do
    change (·.assign name (.text s))
    pure .next
  | .assign name e => do
    let v ← e.eval call
    change (·.assign name v)
    pure .next
  | .assignList name items => do
    assignItems name items
    pure .next
  | .sort name descending => do
    change (·.update name fun v ↦
      match v.value with
      | .list xs => .ok (.list (xs.sort descending))
      | _ => .error (.sortNoList name))
    pure .next
  | .output items newline => do
    let store := (← get).store
    let body := String.join (items.map (OutputItem.render store))
    note (.output (if newline then body ++ "\n" else body))
    pure .next
  | .input name? newline => do
    match name? with
    | some name => inputTo name
    | none => discard readLine
    if newline then note (.output "\n")
    pure .next
  | .call name args => do
    let args ← Expr.evalAll call args
    discard (call name args)
    pure .next
  | .defer name args => do
    let args ← Expr.evalAll call args
    modify fun m ↦ { m with deferred := m.deferred ++ [{ name, args, line }] }
    pure .next
  | .reset name => do
    change (·.update name fun v ↦ .ok (.default v.tag))
    pure .next
  | .randomize name => do
    randomizeOne name
    pure .next
  | .randomizeAll => do
    randomizeEach (← get).store.names
    pure .next
  | .outputElement name position => do
    outputItem name position
    pure .next
  | .push name => do
    let v ← read (·.get name)
    modifyStore (·.push v.value)
    pure .next
  | .pop name => do
    let v ← change Store.pop
    modifyStore (·.bind name v)
    pure .next
  | .inspect name? => do
    match name? with
    | some name =>
      let v ← read (·.get name)
      note (.output (v.describe name))
    | none => note (.output (← get).store.describe)
    pure .next
  | .pause e => do
    let v ← e.eval call
    pauseFor v
    pure .next
  | .marker => pure .next
  | .comment => pure .next
  | .unknown text => fail (.unrecognized text)

end Statement

/-! ### Trees -/

/-- Runs a body and a step as long as a condition holds, for at most as many iterations as are
left. A condition that still holds after the last of them is a fault, which names the limit. The
step follows a body that ran to its end. -/
def Action.loop (limit : Nat) (cond : Action Bool) (body : Action Signal) (step : Action Unit) :
    Nat → Action Signal
  | 0 => do
    if ← cond then fail (.runawayLoop limit) else pure .next
  | left + 1 => do
    if ← cond then
      match ← body with
      | .next =>
        step
        loop limit cond body step left
      | .left => pure .next
      | .returned v? => pure (.returned v?)
    else pure .next

namespace Tree

mutual

/-- Runs a tree. A failure inside is reported at its line, unless it is reported at an inner one. -/
def run (call : Callee) : Tree → Action Signal
  | .statement _ line s => within line (s.run call line)
  | .block _ line head body => within line <|
    match head with
    | .function name params => do
      modifyStore (·.defineFunction name { params, body })
      pure .next
    | .ifBlock cond => do
      modify fun m ↦ { m with chosen := false }
      if ← cond.eval call then
        modify fun m ↦ { m with chosen := true }
        withOwnChain (runAll call body)
      else pure .next
    | .elseIf cond => do
      if (← get).chosen then pure .next
      else if ← cond.eval call then
        modify fun m ↦ { m with chosen := true }
        withOwnChain (runAll call body)
      else pure .next
    | .elseBlock => do
      let chosen := (← get).chosen
      modify fun m ↦ { m with chosen := false }
      if chosen then pure .next else withOwnChain (runAll call body)
    | .whileLoop cond => do
      let limit := (← get).limits.iterations
      loop limit (cond.eval call) (withOwnChain (runAll call body)) (pure ()) limit
    | .forLoop init cond step => do
      discard (init.run call line)
      let limit := (← get).limits.iterations
      loop limit (cond.eval call) (withOwnChain (runAll call body))
        (discard (step.run call line)) limit
  | .twice _ line inner => within line do
    match ← inner.run call with
    | .next => inner.run call
    | signal => pure signal

/-- Runs trees in order, up to the first that ends with a signal. -/
def runAll (call : Callee) : List Tree → Action Signal
  | [] => pure .next
  | t :: rest => do
    match ← t.run call with
    | .next => runAll call rest
    | signal => pure signal

end

end Tree

/-! ### Calls -/

/-- The value that a call gives when its body ends with a signal. -/
def Signal.value? : Signal → Option Value
  | returned v? => v?
  | _ => none

/-- Declares the parameters of a function, holding the arguments. -/
def Store.defineAll (s : Store) : List (String × Value) → Store
  | [] => s
  | (name, v) :: rest => (s.define name v.argument).defineAll rest

/-- Calls a function when calls may still be nested to the given depth. The body runs in a frame of
its own, in which the parameters are declared. -/
def callFunction : Nat → Callee
  | depth, name, args => do
    let f ← read (·.function name)
    if f.params.length ≠ args.length then
      fail (.argumentCount name f.params.length args.length)
    else
      match depth with
      | 0 => do fail (.callDepth name (← get).limits.callDepth)
      | depth + 1 =>
        let signal ← inCall do
          modifyStore (·.defineAll (f.params.zip args))
          withOwnChain (Tree.runAll (callFunction depth) f.body)
        pure signal.value?

/-- How deep calls may still be nested. -/
def Machine.depthLeft (m : Machine) : Nat := m.limits.callDepth - m.store.depth

/-- What a call does in the present state of the machine. -/
def Action.callee : Callee := fun name args ↦ do callFunction (← get).depthLeft name args

/-- Runs a tree in the present state of the machine. -/
def Action.runTree (t : Tree) : Action Signal := do t.run (callFunction (← get).depthLeft)

end Haklang

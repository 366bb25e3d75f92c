import Haklang.Proofs.Execution.Calls

/-!
# Moments in the course of a run

The evaluators say what comes out of a run, not what happens on the way. A moment is a task that is
about to be carried out, the machine as it is then, and how deep calls may still be nested. `Starts`
says which moments a moment leads to by itself: an operator starts its left operand where it stands
itself, and its right one where the left one left off; a call starts the body of the function in a
new frame. There is a rule for every place where one evaluator runs another, so following the rules
visits all that is evaluated in the course of a run, at every depth of blocks, loops and calls, and
also in a run that fails later.

A relation that holds across everything that is run (`Machine.Spans`) holds from a moment to
every moment that it leads to (`Starts.rel`). So an invariant of runs is an invariant of all moments
on the way. If it holds inside of calls only, then it does so for all moments but those that enter
the body of a function (`Starts.rel_of`).
-/

namespace Haklang

open Haklang.Action

/-- Something to be carried out. -/
inductive Task where
  /-- The evaluation of an expression. -/
  | expr (e : Expr)
  /-- The evaluation of expressions, from left to right. -/
  | exprs (es : List Expr)
  /-- The evaluation of a condition. -/
  | cond (c : Cond)
  /-- A statement at a line. -/
  | statement (line : SourceLine) (s : Statement)
  /-- The randomizing of variables, in order. -/
  | randomizing (names : List String)
  /-- A tree. -/
  | tree (t : Tree)
  /-- Trees in order. -/
  | trees (ts : List Tree)
  /-- A loop with the iterations that are left; the step is a statement at a line. -/
  | loop (limit : Nat) (cond : Cond) (body : List Tree) (step? : Option (SourceLine × Statement))
    (left : Nat)
  /-- A call with its arguments. -/
  | call (name : String) (args : List Value)

namespace Task

/-- What happens between two iterations of a loop. -/
def step (call : Callee) : Option (SourceLine × Statement) → Action Unit
  | none => pure ()
  | some (line, s) => discard (s.run call line)

/-- Carries a task out. -/
def run (call : Callee) : Task → Action Unit
  | .expr e => discard (e.eval call)
  | .exprs es => discard (Expr.evalAll call es)
  | .cond c => discard (c.eval call)
  | .statement line s => discard (s.run call line)
  | .randomizing names => Statement.randomizeEach names
  | .tree t => discard (t.run call)
  | .trees ts => discard (Tree.runAll call ts)
  | .loop limit c body step? left =>
    discard (Action.loop limit (c.eval call) (withOwnChain (Tree.runAll call body))
      (step call step?) left)
  | .call name args => discard (call name args)

end Task

/-- A task that is about to be carried out. -/
structure Moment where
  /-- How deep calls may still be nested. -/
  depth : Nat
  /-- The task. -/
  task : Task
  /-- The machine as it is at that moment. -/
  machine : Machine

namespace Moment

/-- What a call does at that moment. -/
abbrev callee (p : Moment) : Callee := callFunction p.depth

/-- The machine once the task is done, or has failed. -/
def after (p : Moment) : Machine := (p.task.run p.callee).after p.machine

end Moment

/-- One moment leads to another by itself: what carries out the task of the first carries out that
of the second, and the machine is then the one of the second moment. -/
inductive Starts : Moment → Moment → Prop where
  /-- An operand. -/
  | negate {d e m} : Starts ⟨d, .expr (.negate e), m⟩ ⟨d, .expr e, m⟩
  /-- A left operand. -/
  | binaryLeft {d op l r m} : Starts ⟨d, .expr (.binary op l r), m⟩ ⟨d, .expr l, m⟩
  /-- A right operand, behind the left one. -/
  | binaryRight {d op l r m a m'} (h : l.eval (callFunction d) m = .ok a m') :
    Starts ⟨d, .expr (.binary op l r), m⟩ ⟨d, .expr r, m'⟩
  /-- The arguments of a call for its value. -/
  | exprArgs {d name args m} : Starts ⟨d, .expr (.call name args), m⟩ ⟨d, .exprs args, m⟩
  /-- A call for its value, behind its arguments. -/
  | exprCall {d name args m vs m'} (h : Expr.evalAll (callFunction d) args m = .ok vs m') :
    Starts ⟨d, .expr (.call name args), m⟩ ⟨d, .call name vs, m'⟩
  /-- The first of some expressions. -/
  | exprsHead {d e es m} : Starts ⟨d, .exprs (e :: es), m⟩ ⟨d, .expr e, m⟩
  /-- The other expressions, behind the first. -/
  | exprsTail {d e es m a m'} (h : e.eval (callFunction d) m = .ok a m') :
    Starts ⟨d, .exprs (e :: es), m⟩ ⟨d, .exprs es, m'⟩
  /-- The left side of an alternative. -/
  | orLeft {d l r m} : Starts ⟨d, .cond (.or l r), m⟩ ⟨d, .cond l, m⟩
  /-- The right side of an alternative, behind the left one. -/
  | orRight {d l r m a m'} (h : l.eval (callFunction d) m = .ok a m') :
    Starts ⟨d, .cond (.or l r), m⟩ ⟨d, .cond r, m'⟩
  /-- The left side of a conjunction. -/
  | andLeft {d l r m} : Starts ⟨d, .cond (.and l r), m⟩ ⟨d, .cond l, m⟩
  /-- The right side of a conjunction, behind the left one. -/
  | andRight {d l r m a m'} (h : l.eval (callFunction d) m = .ok a m') :
    Starts ⟨d, .cond (.and l r), m⟩ ⟨d, .cond r, m'⟩
  /-- The left side of a comparison. -/
  | compareLeft {d rel l r m} : Starts ⟨d, .cond (.compare rel l r), m⟩ ⟨d, .expr l, m⟩
  /-- The right side of a comparison, behind the left one. -/
  | compareRight {d rel l r m a m'} (h : l.eval (callFunction d) m = .ok a m') :
    Starts ⟨d, .cond (.compare rel l r), m⟩ ⟨d, .expr r, m'⟩
  /-- An expression that has to hold. -/
  | holds {d e m} : Starts ⟨d, .cond (.holds e), m⟩ ⟨d, .expr e, m⟩
  /-- The value that a call is to end with. -/
  | result {d line e m} : Starts ⟨d, .statement line (.result (some e)), m⟩ ⟨d, .expr e, m⟩
  /-- The value that is to be assigned. -/
  | assign {d line name e m} : Starts ⟨d, .statement line (.assign name e), m⟩ ⟨d, .expr e, m⟩
  /-- The arguments of a call. -/
  | callArgs {d line name args m} :
    Starts ⟨d, .statement line (.call name args), m⟩ ⟨d, .exprs args, m⟩
  /-- A call, behind its arguments. -/
  | call {d line name args m vs m'} (h : Expr.evalAll (callFunction d) args m = .ok vs m') :
    Starts ⟨d, .statement line (.call name args), m⟩ ⟨d, .call name vs, m'⟩
  /-- The arguments of a call that is put off. -/
  | deferArgs {d line name args m} :
    Starts ⟨d, .statement line (.defer name args), m⟩ ⟨d, .exprs args, m⟩
  /-- The length of a pause. -/
  | pause {d line e m} : Starts ⟨d, .statement line (.pause e), m⟩ ⟨d, .expr e, m⟩
  /-- The randomizing of all variables. -/
  | randomizeAll {d line m} :
    Starts ⟨d, .statement line .randomizeAll, m⟩ ⟨d, .randomizing m.store.names, m⟩
  /-- The other variables, behind the first. -/
  | randomizingTail {d name names m m'} (h : Statement.randomizeOne name m = .ok () m') :
    Starts ⟨d, .randomizing (name :: names), m⟩ ⟨d, .randomizing names, m'⟩
  /-- The statement of a tree. -/
  | treeStatement {d id line s m} :
    Starts ⟨d, .tree (.statement id line s), m⟩ ⟨d, .statement line s, m⟩
  /-- The condition of the first member of a chain. -/
  | ifCond {d id line c body m} :
    Starts ⟨d, .tree (.block id line (.ifBlock c) body), m⟩
      ⟨d, .cond c, { m with chosen := false }⟩
  /-- The body of the first member of a chain, with a chain of its own. -/
  | ifBody {d id line c body m m'}
    (h : c.eval (callFunction d) { m with chosen := false } = .ok true m') :
    Starts ⟨d, .tree (.block id line (.ifBlock c) body), m⟩
      ⟨d, .trees body, { m' with chosen := false }⟩
  /-- The condition of a later member of a chain in which none has been chosen. -/
  | elseIfCond {d id line c body m} (hm : m.chosen = false) :
    Starts ⟨d, .tree (.block id line (.elseIf c) body), m⟩ ⟨d, .cond c, m⟩
  /-- The body of a later member of a chain in which none has been chosen. -/
  | elseIfBody {d id line c body m m'} (hm : m.chosen = false)
    (h : c.eval (callFunction d) m = .ok true m') :
    Starts ⟨d, .tree (.block id line (.elseIf c) body), m⟩
      ⟨d, .trees body, { m' with chosen := false }⟩
  /-- The body of the last member of a chain in which none has been chosen. -/
  | elseBody {d id line body m} (hm : m.chosen = false) :
    Starts ⟨d, .tree (.block id line .elseBlock body), m⟩
      ⟨d, .trees body, { m with chosen := false }⟩
  /-- A loop with a condition. -/
  | whileLoop {d id line c body m} :
    Starts ⟨d, .tree (.block id line (.whileLoop c) body), m⟩
      ⟨d, .loop m.limits.iterations c body none m.limits.iterations, m⟩
  /-- The initial statement of a loop. -/
  | forInit {d id line init c step body m} :
    Starts ⟨d, .tree (.block id line (.forLoop init c step) body), m⟩ ⟨d, .statement line init, m⟩
  /-- A loop, behind its initial statement. -/
  | forLoop {d id line init c step body m signal m'}
    (h : init.run (callFunction d) line m = .ok signal m') :
    Starts ⟨d, .tree (.block id line (.forLoop init c step) body), m⟩
      ⟨d, .loop m'.limits.iterations c body (some (line, step)) m'.limits.iterations, m'⟩
  /-- The first run of a tree that runs twice. -/
  | twiceFirst {d id line t m} : Starts ⟨d, .tree (.twice id line t), m⟩ ⟨d, .tree t, m⟩
  /-- The second run of a tree that runs twice. -/
  | twiceSecond {d id line t m m'} (h : t.run (callFunction d) m = .ok .next m') :
    Starts ⟨d, .tree (.twice id line t), m⟩ ⟨d, .tree t, m'⟩
  /-- The first of some trees. -/
  | treesHead {d t ts m} : Starts ⟨d, .trees (t :: ts), m⟩ ⟨d, .tree t, m⟩
  /-- The other trees, behind the first. -/
  | treesTail {d t ts m m'} (h : t.run (callFunction d) m = .ok .next m') :
    Starts ⟨d, .trees (t :: ts), m⟩ ⟨d, .trees ts, m'⟩
  /-- The condition of a loop. -/
  | loopCond {d limit c body step? left m} :
    Starts ⟨d, .loop limit c body step? left, m⟩ ⟨d, .cond c, m⟩
  /-- The body of a loop, behind its condition, with a chain of its own. -/
  | loopBody {d limit c body step? left m m'} (h : c.eval (callFunction d) m = .ok true m') :
    Starts ⟨d, .loop limit c body step? (left + 1), m⟩
      ⟨d, .trees body, { m' with chosen := false }⟩
  /-- The step of a loop, behind a body that ran to its end. -/
  | loopStep {d limit c body line s left m m' m''} (h : c.eval (callFunction d) m = .ok true m')
    (hbody : withOwnChain (Tree.runAll (callFunction d) body) m' = .ok .next m'') :
    Starts ⟨d, .loop limit c body (some (line, s)) (left + 1), m⟩ ⟨d, .statement line s, m''⟩
  /-- The iterations that are left, behind the step. -/
  | loopNext {d limit c body step? left m m' m'' m'''}
    (h : c.eval (callFunction d) m = .ok true m')
    (hbody : withOwnChain (Tree.runAll (callFunction d) body) m' = .ok .next m'')
    (hstep : Task.step (callFunction d) step? m'' = .ok () m''') :
    Starts ⟨d, .loop limit c body step? (left + 1), m⟩ ⟨d, .loop limit c body step? left, m'''⟩
  /-- The body of a function, with the parameters declared in a new frame, and with a chain of its
  own. -/
  | functionBody {d name args m f} (hf : m.store.function name = .ok f)
    (hargs : f.params.length = args.length) :
    Starts ⟨d + 1, .call name args, m⟩
      ⟨d, .trees f.body,
        { m with store := m.store.enter.defineAll (f.params.zip args), chosen := false }⟩

/-! ### Relations across moments -/

variable {R : Machine → Machine → Prop}

variable [IsPreorder Machine R]

namespace Task

variable {K : Tree → Prop}

/-- What is known of a task if its trees are of a kind: so are those that it runs, and what its
statements allow is within the relation. -/
def Kind (R : Machine → Machine → Prop) (K : Tree → Prop) : Task → Prop
  | .statement line s => s.Allows R line
  | .tree t => K t
  | .trees ts => ∀ t ∈ ts, K t
  | .loop _ _ body step? _ => (∀ t ∈ body, K t) ∧ ∀ line s, step? = some (line, s) → s.Allows R line
  | _ => True

theorem respects_step_of (hR : Machine.Revises R) {call : Callee}
    (hcall : ∀ name args, Respects R (call name args)) {step? : Option (SourceLine × Statement)}
    (hstep : ∀ line s, step? = some (line, s) → s.Allows R line) :
    Respects R (step call step?) := by
  rcases step? with - | ⟨line, s⟩
  · exact .pure _
  · exact (s.respects_run_of hR hcall line (hstep line s rfl)).discard

/-- A task respects what calls respect and what its kind allows. -/
theorem respects_run_of (hR : Machine.Revises R) (hK : Tree.Kind R K) {call : Callee}
    (hcall : ∀ name args, Respects R (call name args)) (task : Task) (h : task.Kind R K) :
    Respects R (task.run call) := by
  cases task with
  | expr e => exact (e.respects_eval hcall).discard
  | exprs es => exact (Expr.respects_evalAll hcall es).discard
  | cond c => exact (c.respects_eval hcall).discard
  | statement line s => exact (s.respects_run_of hR hcall line h).discard
  | randomizing names => exact Statement.respects_randomizeEach hR names
  | tree t => exact (t.respects_run_of hR hK hcall h).discard
  | trees ts => exact (Tree.respects_runAll_of hR hK hcall ts h).discard
  | loop limit c body step? left =>
    have hbody := (Tree.respects_runAll_of hR hK hcall body h.1).withOwnChain hK.chosen
    have hstep := respects_step_of hR hcall h.2
    exact (Respects.loop limit (c.respects_eval hcall) hbody hstep left).discard
  | call name args => exact (hcall name args).discard

omit [IsPreorder Machine R] in
theorem kind_of_runs (hR : Machine.Runs R) (task : Task) : task.Kind R fun _ ↦ True := by
  cases task with
  | statement line s => exact s.allows_of_writes hR.toWrites line
  | trees => exact fun _ _ ↦ trivial
  | loop => exact ⟨fun _ _ ↦ trivial, fun line s _ ↦ s.allows_of_writes hR.toWrites line⟩
  | _ => exact trivial

end Task

/-- One moment leads to another by entering the body of a function: the call is deeper by one, and
it starts with the parameters in a new frame. -/
def Moment.Enters (p q : Moment) : Prop :=
  ∃ name args f, p.task = .call name args ∧ p.depth = q.depth + 1 ∧
    p.machine.store.function name = .ok f ∧ f.params.length = args.length ∧
    q.task = .trees f.body ∧
    q.machine = { p.machine with
      store := p.machine.store.enter.defineAll (f.params.zip args), chosen := false }

/-- A moment leads to others inside of the same call, or it enters the body of a function. There is
one case for each rule; what the rule asks to have been run before respects the relation. -/
theorem Starts.rel_of {K : Tree → Prop} (hR : Machine.Revises R) (hK : Tree.Kind R K)
    (hcall : ∀ depth name args, Respects R (callFunction depth name args)) {p q : Moment}
    (h : Starts p q) (hp : p.task.Kind R K) :
    p.Enters q ∨ q.depth = p.depth ∧ q.task.Kind R K ∧ R p.machine q.machine := by
  have hchosen : ∀ {m m' : Machine} (b : Bool), R m m' → R m { m' with chosen := b } :=
    fun b hm ↦ trans_of R hm (hK.chosen _ b)
  have hbody : ∀ d {body}, (∀ t ∈ body, K t) →
      Respects R (withOwnChain (Tree.runAll (callFunction d) body)) := fun d _ h ↦
    (Tree.respects_runAll_of hR hK (hcall d) _ h).withOwnChain hK.chosen
  have hcond : ∀ {d c m b m'}, Cond.eval (callFunction d) c m = .ok b m' → R m m' :=
    fun {d c _ _ _} h ↦ (c.respects_eval (hcall d)).of_ok h
  cases h with
  | negate | binaryLeft | exprArgs | exprsHead | orLeft | andLeft | compareLeft | holds | result
    | assign | callArgs | deferArgs | pause | randomizeAll | loopCond =>
    exact .inr ⟨rfl, trivial, refl_of R _⟩
  | elseIfCond => exact .inr ⟨rfl, trivial, refl_of R _⟩
  | binaryRight h | exprsTail h | compareRight h =>
    exact .inr ⟨rfl, trivial, (Expr.respects_eval (hcall _) _).of_ok h⟩
  | exprCall h | call h =>
    exact .inr ⟨rfl, trivial, (Expr.respects_evalAll (hcall _) _).of_ok h⟩
  | orRight h | andRight h => exact .inr ⟨rfl, trivial, hcond h⟩
  | randomizingTail h =>
    exact .inr ⟨rfl, trivial, (Statement.respects_randomizeOne hR _).of_ok h⟩
  | treeStatement => exact .inr ⟨rfl, hK.direct _ hp _ (.head _), refl_of R _⟩
  | ifCond => exact .inr ⟨rfl, trivial, hchosen false (refl_of R _)⟩
  | ifBody h =>
    exact .inr ⟨rfl, hK.children _ hp, hchosen false (trans_of R (hK.chosen _ false) (hcond h))⟩
  | elseIfBody _ h => exact .inr ⟨rfl, hK.children _ hp, hchosen false (hcond h)⟩
  | elseBody => exact .inr ⟨rfl, hK.children _ hp, hchosen false (refl_of R _)⟩
  | whileLoop => exact .inr ⟨rfl, ⟨hK.children _ hp, nofun⟩, refl_of R _⟩
  | forInit => exact .inr ⟨rfl, hK.direct _ hp _ (.head _), refl_of R _⟩
  | forLoop h =>
    refine .inr ⟨rfl, ⟨hK.children _ hp, fun line s hs ↦ ?_⟩, ?_⟩
    · cases hs
      exact hK.direct _ hp _ (.tail _ (.head _))
    · exact (Statement.respects_run_of hR (hcall _) _ _ (hK.direct _ hp _ (.head _))).of_ok h
  | twiceFirst => exact .inr ⟨rfl, hK.children _ hp _ (.head _), refl_of R _⟩
  | twiceSecond h =>
    have hinner := hK.children _ hp _ (.head _)
    exact .inr ⟨rfl, hinner, (Tree.respects_run_of hR hK (hcall _) _ hinner).of_ok h⟩
  | treesHead => exact .inr ⟨rfl, hp _ (.head _), refl_of R _⟩
  | treesTail h =>
    exact .inr ⟨rfl, fun t ht ↦ hp t (.tail _ ht),
      (Tree.respects_run_of hR hK (hcall _) _ (hp _ (.head _))).of_ok h⟩
  | loopBody h => exact .inr ⟨rfl, hp.1, hchosen false (hcond h)⟩
  | loopStep h hrun =>
    exact .inr ⟨rfl, hp.2 _ _ rfl, trans_of R (hcond h) ((hbody _ hp.1).of_ok hrun)⟩
  | loopNext h hrun hstep =>
    exact .inr ⟨rfl, hp, trans_of R (hcond h) (trans_of R ((hbody _ hp.1).of_ok hrun)
      ((Task.respects_step_of hR (hcall _) hp.2).of_ok hstep))⟩
  | functionBody hf hargs =>
    -- the one rule that opens a frame
    exact .inl ⟨_, _, _, rfl, rfl, hf, hargs, rfl, rfl⟩

/-! ### Relations that span calls -/

/-- A relation that spans calls holds from a moment to the machine that its task leaves behind. -/
theorem Moment.rel_after (hR : Machine.Spans R) (p : Moment) : R p.machine p.after :=
  p.task.respects_run_of hR.revises (Tree.kind_of_runs hR.toRuns)
    (hR.respects_callFunction p.depth) (p.task.kind_of_runs hR.toRuns) p.machine

/-- A relation that spans calls holds from a moment to every moment that it leads to. -/
theorem Starts.rel (hR : Machine.Spans R) {p q : Moment} (h : Starts p q) :
    R p.machine q.machine := by
  have hkind := p.task.kind_of_runs hR.toRuns
  obtain ⟨name, args, f, -, -, -, -, -, hq⟩ | ⟨-, -, hrel⟩ :=
    h.rel_of hR.revises (Tree.kind_of_runs hR.toRuns) hR.respects_callFunction hkind
  · rw [hq]
    have hparams := hR.toWrites.defineAll (f.params.zip args)
      { p.machine with store := p.machine.store.enter }
    exact trans_of R (trans_of R (hR.enter _) hparams) (hR.chosen _ false)
  · exact hrel

end Haklang

import Haklang.Proofs.Action.Respects

/-!
# What every run of a program does to the machine

The induction over expressions, conditions, statements and trees, once for all relations: a preorder
that holds across each single write (`Machine.Writes`, `Machine.Runs`) and across every call holds
across whatever is run. What calls do is a hypothesis here, since a call runs in a frame of its own
and most relations of interest are not the same inside and outside of it.

Some relations hold across the statements of one program and not across those of another: what a
variable is declared as stays where nothing declares it. What is asked of a statement is then told
from the statement (`Statement.Allows`), and what is asked of trees from a kind of tree that passes
to the trees inside (`Tree.Kind`).
-/

namespace Haklang

open Haklang.Action

variable {R : Machine → Machine → Prop} [IsPreorder Machine R] {call : Callee}

/-! ### Expressions and conditions -/

mutual

/-- An expression respects what calls respect, since nothing else in it touches the machine. -/
theorem Expr.respects_eval (hcall : ∀ name args, Respects R (call name args)) :
    ∀ e : Expr, Respects R (e.eval call)
  | .negate e => (e.respects_eval hcall).bind fun _ ↦ .ofExcept _
  | .binary _ l r =>
    (l.respects_eval hcall).bind fun _ ↦ (r.respects_eval hcall).bind fun _ ↦ .ofExcept _
  | .var _ => Respects.get.bind fun _ ↦ .pure _
  | .int _ => .pure _
  | .decimal _ => .pure _
  | .text _ => .pure _
  | .bool _ => .pure _
  | .call name args => (Expr.respects_evalAll hcall args).bind fun vs ↦
    (hcall name vs).bind fun v? ↦ by
      cases v? with
      | none => exact .fail _
      | some v => exact .pure _
  | .unresolved _ => .fail _

/-- So do arguments, one after the other. -/
theorem Expr.respects_evalAll (hcall : ∀ name args, Respects R (call name args)) :
    ∀ es : List Expr, Respects R (Expr.evalAll call es)
  | [] => .pure _
  | e :: es => (e.respects_eval hcall).bind fun _ ↦
    (Expr.respects_evalAll hcall es).bind fun _ ↦ .pure _

end

/-- A condition is evaluated by evaluating its operands. -/
theorem Cond.respects_eval (hcall : ∀ name args, Respects R (call name args)) (c : Cond) :
    Respects R (c.eval call) := by
  induction c with
  | literal b => exact .pure b
  | or l r ihl ihr => exact ihl.bind fun _ ↦ ihr.bind fun _ ↦ .pure _
  | and l r ihl ihr => exact ihl.bind fun _ ↦ ihr.bind fun _ ↦ .pure _
  | compare rel l r =>
    exact (l.respects_eval hcall).bind fun _ ↦ (r.respects_eval hcall).bind fun _ ↦ .ofExcept _
  | holds e => exact (e.respects_eval hcall).bind fun _ ↦ .pure _

/-! ### Statements -/

namespace Statement

/-- Drawing a value writes a variable of the same type, and moves the generator. -/
theorem respects_randomizeOne (hR : Machine.Revises R) (name : String) :
    Respects R (randomizeOne name) := Respects.getBind fun m v hv ↦ by
  split
  · exact refl_of R m
  · -- the value that is drawn has the type of the variable that was read
    obtain ⟨value, generator, hdraw⟩ :
      ∃ value generator, Generator.draw v.tag m.generator = (value, generator) := ⟨_, _, rfl⟩
    have hvalue : value.Plain ∧ value.typeTag = v.tag := by
      have hplain := Generator.plain_draw v.tag m.generator
      have htag := Generator.typeTag_draw v.tag m.generator
      rw [hdraw] at hplain htag
      exact ⟨hplain, htag⟩
    have hrandom : Action.random (Generator.draw v.tag) m = .ok value { m with generator } := by
      show EStateM.Result.ok (Generator.draw v.tag m.generator).1
        { m with generator := (Generator.draw v.tag m.generator).2 } = _
      rw [hdraw]
    have hupdate : m.store.update name (fun _ ↦ .ok value) =
        (.ok (), m.store.put name { v with value }) := Store.update_of_ok hv rfl
    rw [after, bind_of_ok hrandom, change_apply, hupdate]
    exact trans_of R (hR.generator m generator) (hR.put { m with generator } name _
      (fun _ ↦ ⟨hvalue.1, hvalue.2⟩) (Store.retains_of_lookup? hv value))

/-- Drawing one variable after another does no more than that. -/
theorem respects_randomizeEach (hR : Machine.Revises R) (names : List String) :
    Respects R (randomizeEach names) := by
  induction names with
  | nil => exact .pure _
  | cons name rest ih => exact (respects_randomizeOne hR name).bind fun _ ↦ ih

/-- Input reads a line and writes a value of the type of the variable. -/
theorem respects_inputTo (hR : Machine.Revises R) (name : String) :
    Respects R (inputTo name) :=
  (Respects.read _).bind fun v ↦ (Respects.readLine hR).bind fun line ↦ by
    split
    · exact .set hR name _
    · exact .fail _

/-- An increment writes one variable, with a value of its type. -/
theorem respects_incrementBy (hR : Machine.Revises R) (name keyword : String) :
    Respects R (incrementBy name keyword) :=
  (Respects.read _).bind fun _ ↦ (Respects.ofExcept _).bind fun step ↦
    .update hR name (Store.keepsType_advance name step)

/-- Assigning items writes a list of the kind that the variable is declared with. -/
theorem respects_assignItems (hR : Machine.Revises R) (name : String) (items : List String) :
    Respects R (assignItems name items) := (Respects.read _).bind fun v ↦ by
  split
  · split
    · exact .set hR name _
    · exact .fail _
  · exact .fail _

/-- An item is written at the console, or the position is at fault. -/
theorem respects_outputItem (hR : Machine.Revises R) (name : String) (position : Nat) :
    Respects R (outputItem name position) := (Respects.read _).bind fun v ↦ by
  split
  · split
    · exact .note hR rfl
    · exact .fail _
  · exact .fail _

/-- A pause is noted, or the amount is at fault. -/
theorem respects_pauseFor (hR : Machine.Revises R) (v : Value) : Respects R (pauseFor v) := by
  unfold pauseFor
  split
  · exact .fail _
  · split
    · exact .note hR rfl
    · exact .fail _

/-- What is asked of a relation for the statement itself: that it holds across the declaration, the
variable that is popped into and the call that is put off, if the statement is one of these. -/
structure Allows (R : Machine → Machine → Prop) (line : SourceLine) (s : Statement) : Prop where
  /-- A variable is declared. -/
  declare : ∀ name tag shielded, s = .declare name tag shielded →
    ∀ m, R m { m with store := m.store.declare name tag shielded }
  /-- A variable is given the value that was popped, and its type. -/
  pop : ∀ name, s = .pop name → ∀ m value, R m { m with store := m.store.bind name value }
  /-- A call is put off. -/
  defer : ∀ name args, s = .defer name args →
    ∀ m args, R m { m with deferred := m.deferred ++ [{ name, args, line }] }

/-- A relation across all that statements do is respected by every statement. -/
theorem allows_of_writes {R : Machine → Machine → Prop} (hR : Machine.Writes R) (line : SourceLine)
    (s : Statement) : s.Allows R line where
  declare name tag shielded _ m := hR.put m name _ (m.store.admits_declare name tag shielded)
  pop name _ m value := hR.put m name _ (m.store.admits_bind name value _)
  defer _ _ _ m _ := hR.defer m _

/-- A statement respects what its leaves and the calls inside it respect, and what it allows by
itself. -/
theorem respects_run_of (hR : Machine.Revises R) (hcall : ∀ name args, Respects R (call name args))
    (line : SourceLine) (s : Statement) (hs : s.Allows R line) : Respects R (s.run call line) := by
  cases s with
  | leave => exact .pure _
  | result e? =>
    cases e? with
    | none => exact .pure _
    | some e => exact (e.respects_eval hcall).bind fun _ ↦ .pure _
  | truth b => exact .pure _
  | declare name tag shielded =>
    exact (Respects.modify (hs.declare name tag shielded rfl)).bind fun _ ↦ .pure _
  | increment name keyword =>
    exact (respects_incrementBy hR name keyword).bind fun _ ↦ .pure _
  | assignText name s => exact (Respects.assign hR name _).bind fun _ ↦ .pure _
  | assign name e =>
    exact (e.respects_eval hcall).bind fun v ↦ (Respects.assign hR name v).bind fun _ ↦ .pure _
  | assignList name items => exact (respects_assignItems hR name items).bind fun _ ↦ .pure _
  | sort name descending =>
    exact (Respects.update hR name (Store.keepsType_sort name descending)).bind fun _ ↦ .pure _
  | output items newline =>
    exact Respects.get.bind fun m ↦ (Respects.note hR rfl).bind fun _ ↦ .pure _
  | input name? newline =>
    have hnewline : Respects R (do
        if newline then note (.output "\n")
        return Signal.next) := by
      cases newline with
      | true => exact (Respects.note hR rfl).bind fun _ ↦ .pure _
      | false => exact .pure _
    cases name? with
    | none => exact (Respects.readLine hR).discard.bind fun _ ↦ hnewline
    | some name => exact (respects_inputTo hR name).bind fun _ ↦ hnewline
  | call name args =>
    exact (Expr.respects_evalAll hcall args).bind fun vs ↦
      (hcall name vs).discard.bind fun _ ↦ .pure _
  | defer name args =>
    exact (Expr.respects_evalAll hcall args).bind fun vs ↦
      (Respects.modify fun m ↦ hs.defer name args rfl m vs).bind fun _ ↦ .pure _
  | reset name =>
    -- the default is one of the type that the variable is declared with
    have hdefault : Store.KeepsType fun v ↦ .ok (.default v.tag) :=
      Store.keepsType_of_eq fun v ↦ ⟨Value.plain_default v.tag, Value.typeTag_default v.tag⟩
    exact (Respects.update hR name hdefault).bind fun _ ↦ .pure _
  | randomize name => exact (respects_randomizeOne hR name).bind fun _ ↦ .pure _
  | randomizeAll =>
    exact Respects.get.bind fun m ↦ (respects_randomizeEach hR m.store.names).bind fun _ ↦ .pure _
  | outputElement name position =>
    exact (respects_outputItem hR name position).bind fun _ ↦ .pure _
  | push name =>
    exact Respects.getBind fun m v hv ↦ hR.push m name v hv
  | pop name =>
    exact (Respects.pop hR).bind fun v ↦
      (Respects.modify fun m ↦ hs.pop name rfl m v).bind fun _ ↦ .pure _
  | inspect name? =>
    cases name? with
    | none => exact Respects.get.bind fun m ↦ (Respects.note hR rfl).bind fun _ ↦ .pure _
    | some name =>
      exact (Respects.read _).bind fun v ↦ (Respects.note hR rfl).bind fun _ ↦ .pure _
  | pause e =>
    exact (e.respects_eval hcall).bind fun v ↦ (respects_pauseFor hR v).bind fun _ ↦ .pure _
  | marker => exact .pure _
  | comment => exact .pure _
  | unknown text => exact .fail _

/-- A statement respects what its leaves and the calls inside it respect. -/
theorem respects_run (hR : Machine.Writes R) (hcall : ∀ name args, Respects R (call name args))
    (line : SourceLine) (s : Statement) : Respects R (s.run call line) :=
  s.respects_run_of hR.revises hcall line (allows_of_writes hR line s)

end Statement

/-! ### Trees -/

/-- The chain outside is put back, so a body with a chain of its own respects what it respects
inside. -/
theorem Action.Respects.withOwnChain (hchosen : ∀ m chosen, R m { m with chosen }) {α : Type}
    {x : Action α} (hx : Respects R x) : Respects R (Action.withOwnChain x) := by
  intro m
  rw [after_withOwnChain]
  have hin : R m { m with chosen := false } := hchosen m false
  have hout := hchosen (x.after { m with chosen := false }) m.chosen
  exact trans_of R (trans_of R hin (hx _)) hout

/-- The induction is on the iterations that are left. -/
theorem Action.Respects.loop (limit : Nat) {cond : Action Bool} {body : Action Signal}
    {step : Action Unit} (hcond : Respects R cond) (hbody : Respects R body)
    (hstep : Respects R step) (left : Nat) :
    Respects R (Action.loop limit cond body step left) := by
  induction left with
  | zero =>
    refine hcond.bind fun b ↦ ?_
    cases b with
    | true => exact .fail _
    | false => exact .pure _
  | succ left ih =>
    refine hcond.bind fun b ↦ ?_
    cases b with
    | false => exact .pure _
    | true =>
      refine hbody.bind fun signal ↦ ?_
      cases signal with
      | next => exact hstep.bind fun _ ↦ ih
      | left => exact .pure _
      | returned v? => exact .pure _

namespace Tree

/-- The trees right inside a tree that run with it: a definition does not run the body of the
function. -/
def children : Tree → List Tree
  | statement _ _ _ => []
  | block _ _ (.function _ _) _ => []
  | block _ _ _ body => body
  | twice _ _ inner => [inner]

/-- The statements that a tree runs itself, those of a header included. -/
def direct : Tree → List Statement
  | statement _ _ s => [s]
  | block _ _ (.forLoop init _ step) _ => [init, step]
  | _ => []

/-- A kind of tree for which a relation can be told from the trees: it passes to the trees inside,
and the relation holds across what a tree of that kind does itself. -/
structure Kind (R : Machine → Machine → Prop) (K : Tree → Prop) : Prop where
  /-- The trees inside are of the kind. -/
  children : ∀ t, K t → ∀ u ∈ t.children, K u
  /-- What the statements of a tree ask of the relation. -/
  direct : ∀ t, K t → ∀ s ∈ t.direct, s.Allows R t.line
  /-- A function is defined. -/
  function : ∀ id line name params body, K (.block id line (.function name params) body) →
    ∀ m, R m { m with store := m.store.defineFunction name { params, body } }
  /-- The chain of conditions changes. -/
  chosen : ∀ m chosen, R m { m with chosen }

/-- What holds across everything that trees do holds across trees of all kinds. -/
theorem kind_of_runs {R : Machine → Machine → Prop} (hR : Machine.Runs R) :
    Kind R fun _ ↦ True where
  children _ _ _ _ := trivial
  direct t _ s _ := s.allows_of_writes hR.toWrites t.line
  function _ _ name params body _ m := hR.function m name { params, body }
  chosen := hR.chosen

variable {K : Tree → Prop}

mutual

/-- A tree respects what its leaves and the calls inside it respect, and what its kind allows. -/
theorem respects_run_of (hR : Machine.Revises R) (hK : Kind R K)
    (hcall : ∀ name args, Respects R (call name args)) :
    ∀ t : Tree, K t → Respects R (t.run call)
  | .statement id line s, ht =>
    (s.respects_run_of hR hcall line (hK.direct _ ht s (.head _))).within line
  | .block id line head body, ht => by
    have hbody (h : ∀ t ∈ body, K t) : Respects R (withOwnChain (runAll call body)) :=
      (respects_runAll_of hR hK hcall body h).withOwnChain hK.chosen
    have hchosen : ∀ b, Respects R (modify fun m ↦ { m with chosen := b } : Action Unit) :=
      fun b ↦ Respects.modify fun m ↦ hK.chosen m b
    have hchildren := hK.children _ ht
    refine Respects.within line ?_
    cases head with
    | function name params =>
      exact (Respects.modify (hK.function id line name params body ht)).bind fun _ ↦ .pure _
    | ifBlock cond =>
      refine (hchosen false).bind fun _ ↦ (cond.respects_eval hcall).bind fun b ↦ ?_
      cases b with
      | true => exact (hchosen true).bind fun _ ↦ hbody hchildren
      | false => exact .pure _
    | elseIf cond =>
      refine Respects.get.bind fun m ↦ ?_
      split
      · exact .pure _
      · refine (cond.respects_eval hcall).bind fun b ↦ ?_
        cases b with
        | true => exact (hchosen true).bind fun _ ↦ hbody hchildren
        | false => exact .pure _
    | elseBlock =>
      refine Respects.get.bind fun m ↦ (hchosen false).bind fun _ ↦ ?_
      split
      · exact .pure _
      · exact hbody hchildren
    | whileLoop cond =>
      exact Respects.get.bind fun m ↦ .loop _ (cond.respects_eval hcall) (hbody hchildren)
        (.pure _) _
    | forLoop init cond step =>
      have hinit := init.respects_run_of hR hcall line (hK.direct _ ht init (.head _))
      have hstep := step.respects_run_of hR hcall line (hK.direct _ ht step (.tail _ (.head _)))
      refine hinit.discard.bind fun _ ↦ ?_
      exact Respects.get.bind fun m ↦ .loop _ (cond.respects_eval hcall) (hbody hchildren)
        hstep.discard _
  | .twice id line inner, ht => by
    have hinner : Respects R (inner.run call) :=
      respects_run_of hR hK hcall inner (hK.children _ ht inner (.head _))
    refine Respects.within line (hinner.bind fun signal ↦ ?_)
    cases signal with
    | next => exact hinner
    | left => exact .pure _
    | returned v? => exact .pure _

/-- Trees in a row respect a relation if each of them is of a kind that does. -/
theorem respects_runAll_of (hR : Machine.Revises R) (hK : Kind R K)
    (hcall : ∀ name args, Respects R (call name args)) :
    ∀ ts : List Tree, (∀ t ∈ ts, K t) → Respects R (runAll call ts)
  | [], _ => .pure _
  | t :: ts, hts => by
    refine (respects_run_of hR hK hcall t (hts t (.head _))).bind fun signal ↦ ?_
    cases signal with
    | next => exact respects_runAll_of hR hK hcall ts fun u hu ↦ hts u (.tail _ hu)
    | left => exact .pure _
    | returned v? => exact .pure _

end

/-- A tree respects what its leaves and the calls inside it respect. -/
theorem respects_run (hR : Machine.Runs R) (hcall : ∀ name args, Respects R (call name args))
    (t : Tree) : Respects R (t.run call) :=
  t.respects_run_of hR.toWrites.revises (kind_of_runs hR) hcall trivial

/-- Trees of any kind respect a relation that statements and definitions respect. -/
theorem respects_runAll (hR : Machine.Runs R) (hcall : ∀ name args, Respects R (call name args))
    (ts : List Tree) : Respects R (runAll call ts) :=
  respects_runAll_of hR.toWrites.revises (kind_of_runs hR) hcall ts fun _ _ ↦ trivial

end Tree

/-! ### Calls -/

/-- A call respects what the bodies of functions do, each in a frame of its own. The induction is on
how deep calls may still be nested: the body of the function makes its calls at one level less. -/
theorem respects_callFunction_of_body
    (hbody : ∀ call : Callee, (∀ name args, Respects R (call name args)) →
      ∀ params body, Respects R (inCall do
        modifyStore (·.defineAll params)
        withOwnChain (Tree.runAll call body)))
    (depth : Nat) (name : String) (args : List Value) :
    Respects R (callFunction depth name args) := by
  induction depth generalizing name args with
  | zero =>
    rw [callFunction]
    refine (Respects.read _).bind fun f ↦ ?_
    split
    · exact .fail _
    · exact Respects.get.bind fun m ↦ .fail _
  | succ depth ih =>
    rw [callFunction]
    refine (Respects.read _).bind fun f ↦ ?_
    split
    · exact .fail _
    · exact (hbody _ ih (f.params.zip args) f.body).bind fun signal ↦ .pure _

end Haklang

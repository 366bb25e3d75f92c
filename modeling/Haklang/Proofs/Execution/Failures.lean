import Haklang.Proofs.Action.Failing
import Haklang.Proofs.Execution.Moments

/-!
# Where failures come from

A task fails for one of two reasons: it finds a fault itself, or a task that it starts fails
(`Moment.Fails.cases`, `Starts.fails`). Its own fault is plain, but for a call that is nested too
deeply, a loop that has no iterations left, and an operator that stops the run. The failure of a
task inside comes through as it is; only a tree adds its line, if there is none yet.
-/

namespace Haklang

open Haklang.Action

/-! ### Failing moments -/

namespace Task

/-- A diagnostic as a task passes it on: a tree adds its line, if there is none yet. -/
def report : Task → Diagnostic → Diagnostic
  | .tree t, d => d.locate t.line
  | _, d => d

end Task

/-- The task of the moment fails with a diagnostic. -/
def Moment.Fails (p : Moment) (d : Diagnostic) : Prop :=
  (p.task.run p.callee).FailsWith p.machine d

/-- What fails at a moment does so with one diagnostic. -/
theorem Moment.Fails.unique {p : Moment} {d d' : Diagnostic} (h : p.Fails d) (h' : p.Fails d') :
    d = d' :=
  FailsWith.unique h h'

/-- A call that enters the body of the function fails if the body does. -/
theorem Moment.fails_call_iff {n : Nat} {name : String} {args : List Value} {m : Machine}
    {f : Function} {d : Diagnostic} (hf : m.store.function name = .ok f)
    (hargs : f.params.length = args.length) :
    (⟨n + 1, .call name args, m⟩ : Moment).Fails d ↔
      Moment.Fails ⟨n, .trees f.body, { m with
        store := m.store.enter.defineAll (f.params.zip args), chosen := false }⟩ d := by
  have hcall : (callFunction (n + 1) name args).FailsWith m d ↔
      (withOwnChain (Tree.runAll (callFunction n) f.body)).FailsWith
        { m with store := m.store.enter.defineAll (f.params.zip args) } d := by
    rw [callFunction, failsWith_bind_iff_of_ok (read_of_ok hf), if_neg (not_not_intro hargs),
      Succeeds.failsWith_bind_iff fun _ ↦ .pure _, failsWith_inCall_iff]
    exact failsWith_bind_iff_of_ok rfl
  exact failsWith_discard_iff.trans
    (hcall.trans (failsWith_withOwnChain_iff.trans failsWith_discard_iff.symm))

/-- A failure comes through to the moment that has led to it. There is one case for each rule; what
the rule asks to have been run before has not failed. -/
theorem Starts.fails {p q : Moment} {d : Diagnostic} (h : Starts p q) (hq : q.Fails d) :
    p.Fails (p.task.report d) := by
  cases h with
  | negate | binaryLeft | exprArgs | exprsHead | orLeft | andLeft | compareLeft | holds | result
    | assign | callArgs | deferArgs | pause | treesHead =>
    exact failsWith_discard_iff.2 ((failsWith_discard_iff.1 hq).bind _)
  | binaryRight h | exprsTail h | orRight h | andRight h | compareRight h | exprCall h =>
    exact failsWith_discard_iff.2
      (failsWith_bind_of_ok h ((failsWith_discard_iff.1 hq).bind _))
  | call h => exact failsWith_discard_iff.2 (failsWith_bind_of_ok h (hq.bind _))
  | randomizeAll => exact failsWith_discard_iff.2 (failsWith_bind_of_ok rfl (hq.bind _))
  | randomizingTail h => exact failsWith_bind_of_ok h hq
  | treeStatement => exact (failsWith_discard_iff.1 hq).discard_within _
  | ifCond =>
    have hq := failsWith_discard_iff.1 hq
    exact FailsWith.discard_within (failsWith_bind_of_ok rfl (hq.bind _)) _
  | ifBody h =>
    have hq := failsWith_discard_iff.1 hq
    refine FailsWith.discard_within (failsWith_bind_of_ok rfl (failsWith_bind_of_ok h ?_)) _
    rw [if_pos rfl]
    exact failsWith_bind_of_ok rfl (failsWith_withOwnChain_iff.2 hq)
  | elseIfCond hm =>
    -- nothing has been chosen yet, so the condition is evaluated
    have hq := failsWith_discard_iff.1 hq
    refine FailsWith.discard_within (failsWith_bind_of_ok rfl ?_) _
    rw [if_neg (by simp [hm])]
    exact hq.bind _
  | elseIfBody hm h =>
    have hq := failsWith_discard_iff.1 hq
    refine FailsWith.discard_within (failsWith_bind_of_ok rfl ?_) _
    rw [if_neg (by simp [hm])]
    exact failsWith_bind_of_ok h (failsWith_bind_of_ok rfl (failsWith_withOwnChain_iff.2 hq))
  | elseBody hm =>
    have hq := failsWith_discard_iff.1 hq
    refine FailsWith.discard_within (failsWith_bind_of_ok rfl (failsWith_bind_of_ok rfl ?_)) _
    rw [if_neg (by simp [hm])]
    exact failsWith_withOwnChain_iff.2 hq
  | whileLoop =>
    have hq := failsWith_discard_iff.1 hq
    exact FailsWith.discard_within (failsWith_bind_of_ok rfl hq) _
  | forInit => exact FailsWith.discard_within (hq.bind _) _
  | forLoop h =>
    have hq := failsWith_discard_iff.1 hq
    exact FailsWith.discard_within
      (failsWith_bind_of_ok (discard_of_ok h) (failsWith_bind_of_ok rfl hq)) _
  | twiceFirst =>
    have hq := failsWith_discard_iff.1 hq
    exact FailsWith.discard_within (hq.bind _) _
  | twiceSecond h =>
    have hq := failsWith_discard_iff.1 hq
    exact FailsWith.discard_within (failsWith_bind_of_ok h hq) _
  | treesTail h =>
    exact failsWith_discard_iff.2 (failsWith_bind_of_ok h (failsWith_discard_iff.1 hq))
  | @loopCond _ _ _ _ _ left =>
    have hq := failsWith_discard_iff.1 hq
    cases left with
    | zero => exact failsWith_discard_iff.2 (hq.bind _)
    | succ left => exact failsWith_discard_iff.2 (hq.bind _)
  | loopBody h =>
    have hq := failsWith_withOwnChain_iff.2 (failsWith_discard_iff.1 hq)
    exact failsWith_discard_iff.2 (failsWith_bind_of_ok h (hq.bind _))
  | loopStep h hbody =>
    exact failsWith_discard_iff.2
      (failsWith_bind_of_ok h (failsWith_bind_of_ok hbody (hq.bind _)))
  | loopNext h hbody hstep =>
    have hq := failsWith_discard_iff.1 hq
    exact failsWith_discard_iff.2 (failsWith_bind_of_ok h
      (failsWith_bind_of_ok hbody (failsWith_bind_of_ok hstep hq)))
  | functionBody hf hargs => exact (Moment.fails_call_iff hf hargs).2 hq

/-! ### Faults of statements -/

namespace Statement

/-- Drawing fails at most because a variable is undefined. -/
theorem plain_randomizeOne (name : String) : Plain (randomizeOne name) := by
  refine (Plain.read fun s ↦ s.shallow_get name).bind fun v ↦ ?_
  split
  · exact .of_succeeds (.pure _)
  · exact (Plain.of_succeeds (.random _)).bind fun value ↦
      .change fun s ↦ s.shallow_update name fun _ ↦ shallow_ok value

/-- Input fails because of the variable or because of what was typed. -/
theorem plain_inputTo (name : String) : Plain (inputTo name) := by
  refine (Plain.read fun s ↦ s.shallow_get name).bind fun v ↦
    (Plain.of_succeeds .readLine).bind fun line ↦ ?_
  split
  · exact .change fun s ↦ s.shallow_set name _
  · exact .fail rfl

/-- An increment fails because of its keyword, the variable or an overflow. -/
theorem plain_incrementBy (name keyword : String) : Plain (incrementBy name keyword) :=
  (Plain.read fun s ↦ s.shallow_get name).bind fun v ↦
    (Plain.ofExcept (Increment.shallow_stepOf name keyword v.value)).bind fun step ↦
      .change fun s ↦ s.shallow_update name fun w ↦ Increment.shallow_advance name step w.value

/-- Items are assigned to a list only, and have to be of its kind. -/
theorem plain_assignItems (name : String) (items : List String) :
    Plain (assignItems name items) := by
  refine (Plain.read fun s ↦ s.shallow_get name).bind fun v ↦ ?_
  split
  · split
    · exact .change fun s ↦ s.shallow_set name _
    · exact .fail rfl
  · exact .fail rfl

/-- An item is written of a list only, at a position that there is. -/
theorem plain_outputItem (name : String) (position : Nat) : Plain (outputItem name position) := by
  refine (Plain.read fun s ↦ s.shallow_get name).bind fun v ↦ ?_
  split
  · split
    · exact .of_succeeds (.note _)
    · exact .fail rfl
  · exact .fail rfl

/-- A pause fails because of its amount. -/
theorem plain_pauseFor (v : Value) : Plain (pauseFor v) := by
  unfold pauseFor
  split
  · exact .fail rfl
  · split
    · exact .of_succeeds (.note _)
    · exact .fail rfl

end Statement

/-! ### Whose fault it is -/

namespace Moment

/-- A diagnostic of a moment stems from a plain fault, or from a moment that it leads to. -/
def Stems (p : Moment) (d : Diagnostic) : Prop := d.Plain ∨ ∃ q, Starts p q ∧ q.Fails d

/-- The task is an operator whose operands have values on which it stops the run. -/
inductive Stops : Moment → Prop where
  /-- Both operands have been evaluated. -/
  | binary {n op l r m a m' b m''} (hl : l.eval (callFunction n) m = .ok a m')
    (hr : r.eval (callFunction n) m' = .ok b m'') (h : op.apply a b = .error .noMagnitude) :
    Stops ⟨n, .expr (.binary op l r), m⟩

/-- Where an operator stops the run, the task fails with the fault that says so. -/
theorem Stops.fails {p : Moment} (h : p.Stops) : p.Fails { fault := .noMagnitude } := by
  obtain ⟨hl, hr, h⟩ := h
  exact failsWith_discard_iff.2 (failsWith_bind_of_ok hl (failsWith_bind_of_ok hr
    (failsWith_ofExcept_iff.2 ⟨_, h, rfl⟩)))

variable {n : Nat} {m : Machine} {d : Diagnostic}

/-- An expression fails where one of its parts does or by itself, plainly or with a power that stops
the run. -/
theorem stems_expr {e : Expr} (h : (⟨n, .expr e, m⟩ : Moment).Fails d) :
    (⟨n, .expr e, m⟩ : Moment).Stems d ∨
      (⟨n, .expr e, m⟩ : Moment).Stops ∧ d = { fault := .noMagnitude } := by
  have h := failsWith_discard_iff.1 h
  cases e with
  | negate e =>
    obtain h | ⟨v, _, -, h⟩ := failsWith_bind_iff.1 h
    · exact .inl (.inr ⟨_, .negate, failsWith_discard_iff.2 h⟩)
    · exact .inl (.inl (Plain.ofExcept v.shallow_negate _ _ h))
  | binary op l r =>
    obtain h | ⟨a, _, hl, h⟩ := failsWith_bind_iff.1 h
    · exact .inl (.inr ⟨_, .binaryLeft, failsWith_discard_iff.2 h⟩)
    obtain h | ⟨b, _, hr, h⟩ := failsWith_bind_iff.1 h
    · exact .inl (.inr ⟨_, .binaryRight hl, failsWith_discard_iff.2 h⟩)
    by_cases hstop : op.apply a b = .error .noMagnitude
    · obtain ⟨e, he, rfl⟩ := failsWith_ofExcept_iff.1 h
      obtain rfl := Except.error.inj (hstop.symm.trans he)
      exact .inr ⟨.binary hl hr hstop, rfl⟩
    · exact .inl (.inl (Plain.ofExcept (BinaryOperator.shallow_apply hstop) _ _ h))
  | var name =>
    exact absurd h (Succeeds.not_failsWith (Succeeds.get.bind fun _ ↦ .pure _))
  | int | decimal | text | bool => exact absurd h (Succeeds.not_failsWith (.pure _))
  | call name args =>
    obtain h | ⟨vs, _, hargs, h⟩ := failsWith_bind_iff.1 h
    · exact .inl (.inr ⟨_, .exprArgs, failsWith_discard_iff.2 h⟩)
    obtain h | ⟨v?, _, -, h⟩ := failsWith_bind_iff.1 h
    · exact .inl (.inr ⟨_, .exprCall hargs, failsWith_discard_iff.2 h⟩)
    · cases v? with
      | none => exact .inl (.inl (Plain.fail (e := .noResult name) rfl _ _ h))
      | some v => exact absurd h (Succeeds.not_failsWith (.pure _))
  | unresolved s => exact .inl (.inl (Plain.fail (e := .unresolved s) rfl _ _ h))

/-- Arguments fail where one of them does. -/
theorem stems_exprs {es : List Expr} (h : (⟨n, .exprs es, m⟩ : Moment).Fails d) :
    (⟨n, .exprs es, m⟩ : Moment).Stems d := by
  have h := failsWith_discard_iff.1 h
  cases es with
  | nil => exact absurd h (Succeeds.not_failsWith (.pure _))
  | cons e es =>
    obtain h | ⟨v, _, he, h⟩ := failsWith_bind_iff.1 h
    · exact .inr ⟨_, .exprsHead, failsWith_discard_iff.2 h⟩
    obtain h | ⟨vs, _, -, h⟩ := failsWith_bind_iff.1 h
    · exact .inr ⟨_, .exprsTail he, failsWith_discard_iff.2 h⟩
    · exact absurd h (Succeeds.not_failsWith (.pure _))

/-- A condition fails where one of its operands does, or because they do not compare. -/
theorem stems_cond {c : Cond} (h : (⟨n, .cond c, m⟩ : Moment).Fails d) :
    (⟨n, .cond c, m⟩ : Moment).Stems d := by
  have h := failsWith_discard_iff.1 h
  cases c with
  | literal b => exact absurd h (Succeeds.not_failsWith (.pure _))
  | or l r =>
    obtain h | ⟨a, _, hl, h⟩ := failsWith_bind_iff.1 h
    · exact .inr ⟨_, .orLeft, failsWith_discard_iff.2 h⟩
    obtain h | ⟨b, _, -, h⟩ := failsWith_bind_iff.1 h
    · exact .inr ⟨_, .orRight hl, failsWith_discard_iff.2 h⟩
    · exact absurd h (Succeeds.not_failsWith (.pure _))
  | and l r =>
    obtain h | ⟨a, _, hl, h⟩ := failsWith_bind_iff.1 h
    · exact .inr ⟨_, .andLeft, failsWith_discard_iff.2 h⟩
    obtain h | ⟨b, _, -, h⟩ := failsWith_bind_iff.1 h
    · exact .inr ⟨_, .andRight hl, failsWith_discard_iff.2 h⟩
    · exact absurd h (Succeeds.not_failsWith (.pure _))
  | compare rel l r =>
    obtain h | ⟨a, _, hl, h⟩ := failsWith_bind_iff.1 h
    · exact .inr ⟨_, .compareLeft, failsWith_discard_iff.2 h⟩
    obtain h | ⟨b, _, -, h⟩ := failsWith_bind_iff.1 h
    · exact .inr ⟨_, .compareRight hl, failsWith_discard_iff.2 h⟩
    · exact .inl (Plain.ofExcept (Value.shallow_relate rel a b) _ _ h)
  | holds e =>
    obtain h | ⟨v, _, -, h⟩ := failsWith_bind_iff.1 h
    · exact .inr ⟨_, .holds, failsWith_discard_iff.2 h⟩
    · exact absurd h (Succeeds.not_failsWith (.pure _))

/-- To randomize variables fails where one of them does. -/
theorem stems_randomizing {names : List String}
    (h : (⟨n, .randomizing names, m⟩ : Moment).Fails d) :
    (⟨n, .randomizing names, m⟩ : Moment).Stems d := by
  cases names with
  | nil => exact absurd h (Succeeds.not_failsWith (.pure _))
  | cons name names =>
    obtain h | ⟨_, _, hname, h⟩ := failsWith_bind_iff.1 h
    · exact .inl (Statement.plain_randomizeOne name _ _ h)
    · exact .inr ⟨_, .randomizingTail hname, h⟩

/-- Only statements with expressions and the randomizing of all variables start something. -/
theorem stems_statement {line : SourceLine} {s : Statement}
    (h : (⟨n, .statement line s, m⟩ : Moment).Fails d) :
    (⟨n, .statement line s, m⟩ : Moment).Stems d := by
  have h := failsWith_discard_iff.1 h
  have hnext : ∀ _ : Unit, Succeeds (pure Signal.next : Action Signal) := fun _ ↦ .pure _
  cases s with
  | leave | truth | marker | comment => exact absurd h (Succeeds.not_failsWith (.pure _))
  | unknown text => exact .inl (Plain.fail (e := .unrecognized text) rfl _ _ h)
  | result e? =>
    cases e? with
    | none => exact absurd h (Succeeds.not_failsWith (.pure _))
    | some e =>
      obtain h | ⟨v, _, -, h⟩ := failsWith_bind_iff.1 h
      · exact .inr ⟨_, .result, failsWith_discard_iff.2 h⟩
      · exact absurd h (Succeeds.not_failsWith (.pure _))
  | declare name tag shielded =>
    exact absurd h (Succeeds.not_failsWith ((Succeeds.modify _).bind hnext))
  | increment name keyword =>
    exact .inl ((Statement.plain_incrementBy name keyword).bind_succeeds hnext _ _ h)
  | assignText name s =>
    exact .inl ((Plain.change fun s ↦ s.shallow_assign name _).bind_succeeds hnext _ _ h)
  | assign name e =>
    obtain h | ⟨v, _, -, h⟩ := failsWith_bind_iff.1 h
    · exact .inr ⟨_, .assign, failsWith_discard_iff.2 h⟩
    · exact .inl ((Plain.change fun s ↦ s.shallow_assign name v).bind_succeeds hnext _ _ h)
  | assignList name items =>
    exact .inl ((Statement.plain_assignItems name items).bind_succeeds hnext _ _ h)
  | sort name descending =>
    refine .inl ((Plain.change fun s ↦ s.shallow_update name fun v ↦ ?_).bind_succeeds hnext _ _ h)
    split
    · exact shallow_ok _
    · exact shallow_error rfl
  | output items newline =>
    exact absurd h (Succeeds.not_failsWith
      (Succeeds.get.bind fun m ↦ (Succeeds.note _).bind hnext))
  | input name? newline =>
    have hnewline : Plain (do
        if newline then note (.output "\n")
        return Signal.next) := by
      cases newline with
      | true => exact .of_succeeds ((Succeeds.note _).bind hnext)
      | false => exact .of_succeeds (.pure _)
    cases name? with
    | none =>
      exact .inl ((Plain.of_succeeds Succeeds.readLine.discard).bind (fun _ ↦ hnewline) _ _ h)
    | some name => exact .inl ((Statement.plain_inputTo name).bind (fun _ ↦ hnewline) _ _ h)
  | call name args =>
    -- an argument fails, or the call does; what it returns is dropped
    obtain h | ⟨vs, _, hargs, h⟩ := failsWith_bind_iff.1 h
    · exact .inr ⟨_, .callArgs, failsWith_discard_iff.2 h⟩
    obtain h | ⟨_, _, -, h⟩ := failsWith_bind_iff.1 h
    · exact .inr ⟨_, .call hargs, h⟩
    · exact absurd h (Succeeds.not_failsWith (.pure _))
  | defer name args =>
    obtain h | ⟨vs, _, -, h⟩ := failsWith_bind_iff.1 h
    · exact .inr ⟨_, .deferArgs, failsWith_discard_iff.2 h⟩
    · exact absurd h (Succeeds.not_failsWith ((Succeeds.modify _).bind hnext))
  | reset name =>
    exact .inl ((Plain.change fun s ↦ s.shallow_update name fun _ ↦ shallow_ok _).bind_succeeds
      hnext _ _ h)
  | randomize name =>
    exact .inl ((Statement.plain_randomizeOne name).bind_succeeds hnext _ _ h)
  | randomizeAll =>
    have h : (Statement.randomizeEach m.store.names >>= fun _ ↦ pure Signal.next).FailsWith m d := h
    obtain h | ⟨_, _, -, h⟩ := failsWith_bind_iff.1 h
    · exact .inr ⟨_, .randomizeAll, h⟩
    · exact absurd h (Succeeds.not_failsWith (.pure _))
  | outputElement name position =>
    exact .inl ((Statement.plain_outputItem name position).bind_succeeds hnext _ _ h)
  | push name =>
    exact .inl ((Plain.read fun s ↦ s.shallow_get name).bind_succeeds
      (fun _ ↦ (Succeeds.modify _).bind hnext) _ _ h)
  | pop name =>
    exact .inl ((Plain.change Store.shallow_pop).bind_succeeds
      (fun _ ↦ (Succeeds.modify _).bind hnext) _ _ h)
  | inspect name? =>
    cases name? with
    | none =>
      exact absurd h (Succeeds.not_failsWith
        (Succeeds.get.bind fun m ↦ (Succeeds.note _).bind hnext))
    | some name =>
      exact .inl ((Plain.read fun s ↦ s.shallow_get name).bind_succeeds
        (fun _ ↦ (Succeeds.note _).bind hnext) _ _ h)
  | pause e =>
    obtain h | ⟨v, _, -, h⟩ := failsWith_bind_iff.1 h
    · exact .inr ⟨_, .pause, failsWith_discard_iff.2 h⟩
    · exact .inl ((Statement.plain_pauseFor v).bind_succeeds hnext _ _ h)

/-- Trees fail because one of them does. -/
theorem starts_of_fails_trees {ts : List Tree} (h : (⟨n, .trees ts, m⟩ : Moment).Fails d) :
    ∃ q, Starts ⟨n, .trees ts, m⟩ q ∧ q.Fails d := by
  have h := failsWith_discard_iff.1 h
  cases ts with
  | nil => exact absurd h (Succeeds.not_failsWith (.pure _))
  | cons t ts =>
    obtain h | ⟨signal, _, ht, h⟩ := failsWith_bind_iff.1 h
    · exact ⟨_, .treesHead, failsWith_discard_iff.2 h⟩
    · cases signal with
      | next => exact ⟨_, .treesTail ht, failsWith_discard_iff.2 h⟩
      | left => exact absurd h (Succeeds.not_failsWith (.pure _))
      | returned v? => exact absurd h (Succeeds.not_failsWith (.pure _))

/-- A loop fails where its condition, its body or its step does, or at its limit. -/
theorem stems_loop {limit : Nat} {c : Cond} {body : List Tree}
    {step? : Option (SourceLine × Statement)} {left : Nat}
    (h : (⟨n, .loop limit c body step? left, m⟩ : Moment).Fails d) :
    (⟨n, .loop limit c body step? left, m⟩ : Moment).Stems d ∨
      left = 0 ∧ d = { fault := .runawayLoop limit } := by
  have h := failsWith_discard_iff.1 h
  cases left with
  | zero =>
    obtain h | ⟨b, _, -, h⟩ := failsWith_bind_iff.1 h
    · exact .inl (.inr ⟨_, .loopCond, failsWith_discard_iff.2 h⟩)
    · cases b with
      | true =>
        obtain ⟨_, h⟩ := h
        cases h
        exact .inr ⟨rfl, rfl⟩
      | false => exact absurd h (Succeeds.not_failsWith (.pure _))
  | succ left =>
    refine .inl ?_
    obtain h | ⟨b, _, hcond, h⟩ := failsWith_bind_iff.1 h
    · exact .inr ⟨_, .loopCond, failsWith_discard_iff.2 h⟩
    cases b with
    | false => exact absurd h (Succeeds.not_failsWith (.pure _))
    | true =>
      obtain h | ⟨signal, _, hbody, h⟩ := failsWith_bind_iff.1 h
      · exact .inr ⟨_, .loopBody hcond,
          failsWith_discard_iff.2 (failsWith_withOwnChain_iff.1 h)⟩
      cases signal with
      | left => exact absurd h (Succeeds.not_failsWith (.pure _))
      | returned v? => exact absurd h (Succeeds.not_failsWith (.pure _))
      | next =>
        obtain h | ⟨_, _, hstep, h⟩ := failsWith_bind_iff.1 h
        · rcases step? with - | ⟨line, s⟩
          · exact absurd h (Succeeds.not_failsWith (.pure _))
          · exact .inr ⟨_, .loopStep hcond hbody, h⟩
        · exact .inr ⟨_, .loopNext hcond hbody hstep, failsWith_discard_iff.2 h⟩

/-- A call that enters the body of the function fails because of the body. -/
theorem stems_call {name : String} {args : List Value}
    (h : (⟨n, .call name args, m⟩ : Moment).Fails d) :
    (⟨n, .call name args, m⟩ : Moment).Stems d ∨
      n = 0 ∧ d = { fault := .callDepth name m.limits.callDepth } := by
  have hcall : (callFunction n name args).FailsWith m d := failsWith_discard_iff.1 h
  unfold callFunction at hcall
  obtain hcall | ⟨f, _, hread, hcall⟩ := failsWith_bind_iff.1 hcall
  · exact .inl (.inl (Plain.read (fun s ↦ s.shallow_function name) _ _ hcall))
  obtain ⟨hf, rfl⟩ := read_eq_ok_iff.1 hread
  split at hcall
  · exact .inl (.inl (Plain.fail (e := .argumentCount name _ _) rfl _ _ hcall))
  case isFalse hargs =>
    have hargs := Decidable.not_not.1 hargs
    cases n with
    | zero =>
      obtain ⟨_, hcall⟩ := hcall
      cases hcall
      exact .inr ⟨rfl, rfl⟩
    | succ n => exact .inl (.inr ⟨_, .functionBody hf hargs, (fails_call_iff hf hargs).1 h⟩)

/-- A tree fails because of something inside. -/
theorem starts_of_fails_tree {t : Tree} (ht : (⟨n, .tree t, m⟩ : Moment).Fails d) :
    ∃ q d', Starts ⟨n, .tree t, m⟩ q ∧ q.Fails d' ∧ d = d'.locate t.line := by
  have ht := failsWith_discard_iff.1 ht
  cases t with
  | statement id line s =>
    obtain ⟨d', h, hd⟩ := failsWith_within_iff.1 ht
    exact ⟨_, d', .treeStatement, failsWith_discard_iff.2 h, hd⟩
  | block id line head body =>
    obtain ⟨d', h, hd⟩ := failsWith_within_iff.1 ht
    refine Exists.imp (fun q ⟨hq, hfails⟩ ↦ ⟨d', hq, hfails, hd⟩)
      (?_ : ∃ q, Starts ⟨n, .tree (.block id line head body), m⟩ q ∧ q.Fails d')
    cases head with
    | function name params =>
      exact absurd h (Succeeds.not_failsWith ((Succeeds.modify _).bind fun _ ↦ .pure _))
    | ifBlock c =>
      have h := (failsWith_bind_iff_of_ok rfl).1 h
      obtain h | ⟨b, _, hcond, h⟩ := failsWith_bind_iff.1 h
      · exact ⟨_, .ifCond, failsWith_discard_iff.2 h⟩
      cases b with
      | false => exact absurd h (Succeeds.not_failsWith (.pure _))
      | true =>
        have h := failsWith_withOwnChain_iff.1 ((failsWith_bind_iff_of_ok rfl).1 h)
        exact ⟨_, .ifBody hcond, failsWith_discard_iff.2 h⟩
    | elseIf c =>
      have h := (failsWith_bind_iff_of_ok rfl).1 h
      split at h
      · exact absurd h (Succeeds.not_failsWith (.pure _))
      case isFalse hm =>
        have hm := Bool.eq_false_iff.2 hm
        obtain h | ⟨b, _, hcond, h⟩ := failsWith_bind_iff.1 h
        · exact ⟨_, .elseIfCond hm, failsWith_discard_iff.2 h⟩
        cases b with
        | false => exact absurd h (Succeeds.not_failsWith (.pure _))
        | true =>
          have h := failsWith_withOwnChain_iff.1 ((failsWith_bind_iff_of_ok rfl).1 h)
          exact ⟨_, .elseIfBody hm hcond, failsWith_discard_iff.2 h⟩
    | elseBlock =>
      have h := (failsWith_bind_iff_of_ok rfl).1 ((failsWith_bind_iff_of_ok rfl).1 h)
      split at h
      · exact absurd h (Succeeds.not_failsWith (.pure _))
      case isFalse hm =>
        have h := failsWith_withOwnChain_iff.1 h
        exact ⟨_, .elseBody (Bool.eq_false_iff.2 hm), failsWith_discard_iff.2 h⟩
    | whileLoop c =>
      have h := (failsWith_bind_iff_of_ok rfl).1 h
      exact ⟨_, .whileLoop, failsWith_discard_iff.2 h⟩
    | forLoop init c step =>
      obtain h | ⟨_, _, hinit, h⟩ := failsWith_bind_iff.1 h
      · exact ⟨_, .forInit, h⟩
      obtain ⟨signal, hinit⟩ := discard_eq_ok_iff.1 hinit
      have h := (failsWith_bind_iff_of_ok rfl).1 h
      exact ⟨_, .forLoop hinit, failsWith_discard_iff.2 h⟩
  | twice id line inner =>
    -- the second run is reached behind a first one that has run to its end
    obtain ⟨d', h, hd⟩ := failsWith_within_iff.1 ht
    obtain h | ⟨signal, _, hfirst, h⟩ := failsWith_bind_iff.1 h
    · exact ⟨_, d', .twiceFirst, failsWith_discard_iff.2 h, hd⟩
    · cases signal with
      | next => exact ⟨_, d', .twiceSecond hfirst, failsWith_discard_iff.2 h, hd⟩
      | left => exact absurd h (Succeeds.not_failsWith (.pure _))
      | returned v? => exact absurd h (Succeeds.not_failsWith (.pure _))

/-- The task of the moment finds a fault itself. -/
inductive Finds (p : Moment) (d : Diagnostic) : Prop where
  /-- The fault is plain, and the task is no tree. -/
  | plain (hd : d.Plain) (hp : ∀ t, p.task ≠ .tree t)
  /-- A call is at the limit. -/
  | call {name : String} {args : List Value} (hp : p.task = .call name args) (hdepth : p.depth = 0)
    (hd : d = { fault := .callDepth name p.machine.limits.callDepth })
  /-- A loop is at the limit. -/
  | loop {limit : Nat} {c : Cond} {body : List Tree} {step? : Option (SourceLine × Statement)}
    (hp : p.task = .loop limit c body step? 0) (hd : d = { fault := .runawayLoop limit })
  /-- An operator stops the run. -/
  | stop (hp : p.Stops) (hd : d = { fault := .noMagnitude })

/-- What a failure is owed to: a fault of the task itself, or the failure of a moment that was led
to. -/
theorem Fails.cases {p : Moment} (h : p.Fails d) :
    p.Finds d ∨ ∃ q d', Starts p q ∧ q.Fails d' ∧ d = p.task.report d' := by
  -- what is no tree passes a diagnostic on as it is
  have hstems : (∀ t, p.task ≠ .tree t) → (∀ d, p.task.report d = d) → p.Stems d →
      p.Finds d ∨ ∃ q d', Starts p q ∧ q.Fails d' ∧ d = p.task.report d' := by
    rintro htask hreport (hplain | ⟨q, hq, hfails⟩)
    · exact .inl (.plain hplain htask)
    · exact .inr ⟨q, d, hq, hfails, (hreport d).symm⟩
  obtain ⟨n, task, m⟩ := p
  cases task with
  | expr e =>
    obtain hexpr | ⟨hstops, hd⟩ := stems_expr h
    · exact hstems nofun (fun _ ↦ rfl) hexpr
    · exact .inl (.stop hstops hd)
  | exprs es => exact hstems nofun (fun _ ↦ rfl) (stems_exprs h)
  | cond c => exact hstems nofun (fun _ ↦ rfl) (stems_cond h)
  | statement line s => exact hstems nofun (fun _ ↦ rfl) (stems_statement h)
  | randomizing names => exact hstems nofun (fun _ ↦ rfl) (stems_randomizing h)
  | trees ts => exact hstems nofun (fun _ ↦ rfl) (.inr (starts_of_fails_trees h))
  | loop limit c body step? left =>
    obtain hloop | ⟨rfl, hd⟩ := stems_loop h
    · exact hstems nofun (fun _ ↦ rfl) hloop
    · exact .inl (.loop rfl hd)
  | tree t => exact .inr (starts_of_fails_tree h)
  | call name args =>
    obtain hcall | ⟨hdepth, hd⟩ := stems_call h
    · exact hstems nofun (fun _ ↦ rfl) hcall
    · exact .inl (.call rfl hdepth hd)

end Moment

end Haklang

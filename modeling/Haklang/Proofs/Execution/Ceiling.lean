import Haklang.Proofs.Execution.Innermost
import Haklang.Proofs.Execution.Signals

/-!
# The ceiling of loops

A loop counts its iterations and gives up when its condition still holds after as many as are
allowed. The loop of the language without that ceiling is a relation (`Loop.Runs`): one rule for
each way in which a round can end the loop, and one for a round behind which it goes on. It has no
counter, and a loop that does not end has no run.

`Loop.watch` runs a loop with its ceiling and tells the conditions, bodies and steps that it comes
across. It does what the loop without ceiling does if that gets along with the iterations allowed
(`watchFrom_of_runs`), and otherwise all of them are used up, and one more condition holds
(`runs_or_exceeds`). So what is told consists of complete rounds and a last one
(`Loop.Runs.exists_rounds`), and how often bodies run and conditions are evaluated is read off from
that.

Loops inside of the loop, and loops in functions that it calls, have the same ceiling and fail with
the same fault. What tells them apart is the line: a fault that comes out of a body or out of a call
has passed a tree there, so it has a line (`Moment.Fails.line_ne_none_of_runaway`), while the fault
of the loop itself has none before the tree of the loop reports it.
-/

namespace Haklang

open Haklang.Action

/-! ### Faults of loops inside -/

/-- Only the trees of loops, and loops themselves, lead to loops. -/
theorem Starts.loop_inv {p q : Moment} (h : Starts p q) {limit : Nat} {c : Cond} {body : List Tree}
    {step? : Option (SourceLine × Statement)} {left : Nat}
    (hq : q.task = .loop limit c body step? left) :
    (∃ t, p.task = .tree t) ∨ ∃ left', p.task = .loop limit c body step? left' := by
  cases h with
  | whileLoop | forLoop => exact .inl ⟨_, rfl⟩
  | loopNext =>
    cases hq
    exact .inr ⟨_, rfl⟩
  | _ => cases hq

/-- The fault that a loop has reached its limit has a line wherever it comes from something else
than the loop itself. -/
theorem Moment.Fails.line_ne_none_of_runaway {p : Moment} {d : Diagnostic} (h : p.Fails d)
    (hd : d.fault.category = .runaway)
    (hp : ∀ limit c body step? left, p.task ≠ .loop limit c body step? left) : d.line? ≠ none := by
  induction p using Starts.wellFounded.induction generalizing d with
  | _ p ih =>
    obtain hfinds | ⟨q, d', hq, hfails, rfl⟩ := h.cases
    · cases hfinds with
      | plain hplain => exact absurd hd (hplain.category_ne rfl)
      | call _ _ hcall =>
        subst hcall
        cases hd
      | loop htask => exact absurd htask (hp _ _ _ _ _)
      | stop _ hstop =>
        subst hstop
        cases hd
    · by_cases htree : ∃ t, p.task = .tree t
      · obtain ⟨t, ht⟩ := htree
        rw [ht]
        exact nofun
      · have hline : d'.line? ≠ none := by
          refine ih q hq hfails ((Task.fault_report p.task d').symm ▸ hd) fun _ _ _ _ _ hloop ↦ ?_
          obtain ht | ⟨left, hleft⟩ := hq.loop_inv hloop
          · exact htree ht
          · exact hp _ _ _ _ _ hleft
        rw [Task.line_report hline]
        exact hline

/-! ### Loops -/

/-- A loop, without the initial statement that may stand before it. -/
structure Loop where
  /-- The condition. -/
  cond : Cond
  /-- The body. -/
  body : List Tree
  /-- The statement that follows a body which has run to its end, if there is one, and its line. -/
  step? : Option (SourceLine × Statement)

/-- What a loop comes across. -/
inductive LoopEvent where
  /-- The condition has been evaluated. -/
  | condition (answer : Except Diagnostic Bool)
  /-- The body has run. -/
  | body (answer : Except Diagnostic Signal)
  /-- The step has run. -/
  | step (answer : Except Diagnostic Unit)

namespace LoopEvent

/-- The event is the evaluation of a condition. -/
def isCondition : LoopEvent → Bool
  | condition _ => true
  | _ => false

/-- The event is a run of the body. -/
def isBody : LoopEvent → Bool
  | body _ => true
  | _ => false

end LoopEvent

/-- How often a condition has been evaluated. -/
def conditions (es : List LoopEvent) : Nat := es.countP LoopEvent.isCondition

/-- How often a body has run. -/
def bodies (es : List LoopEvent) : Nat := es.countP LoopEvent.isBody

namespace Loop

variable (l : Loop) (call : Callee)

/-- Evaluates the condition. -/
def test : Action Bool := l.cond.eval call

/-- Runs the body, with a chain of conditions of its own. -/
def perform : Action Signal := withOwnChain (Tree.runAll call l.body)

/-- Runs the step, if there is one. -/
def advance : Action Unit := Task.step call l.step?

/-- Runs the loop, with as many iterations as the machine allows. -/
def run : Action Signal := do
  let limit := (← get).limits.iterations
  loop limit (l.test call) (l.perform call) (l.advance call) limit

end Loop

/-- A block with a condition runs its loop. -/
theorem Tree.run_whileLoop (call : Callee) (id : Nat) (line : SourceLine) (c : Cond)
    (body : List Tree) :
    (Tree.block id line (.whileLoop c) body).run call =
      within line (Loop.run ⟨c, body, none⟩ call) := rfl

/-- A block with a header of three parts runs its initial statement, and then its loop. -/
theorem Tree.run_forLoop (call : Callee) (id : Nat) (line : SourceLine) (init : Statement)
    (c : Cond) (step : Statement) (body : List Tree) :
    (Tree.block id line (.forLoop init c step) body).run call =
      within line (do
        discard (init.run call line)
        Loop.run ⟨c, body, some (line, step)⟩ call) := rfl

namespace Loop

variable (l : Loop) (call : Callee)

/-- Runs the step, if there is one, and tells it. -/
def watchStep : Traced LoopEvent Unit :=
  match l.step? with
  | none => pure ()
  | some _ => Traced.telling .step (l.advance call)

/-- Runs the loop with as many iterations as are left of a limit, and tells what it comes
across. -/
def watchFrom (limit left : Nat) : Traced LoopEvent Signal :=
  Traced.loop limit (Traced.telling .condition (l.test call))
    (Traced.telling .body (l.perform call)) (l.watchStep call) left

/-- Runs the loop, and tells what it comes across. -/
def watch : Traced LoopEvent Signal := do
  let limit := (← Traced.quiet get).limits.iterations
  l.watchFrom call limit limit

/-- Telling the step makes no difference, whether or not there is one. -/
theorem copies_watchStep : (l.watchStep call).Copies (l.advance call) := by
  rw [watchStep, advance]
  cases l.step? with
  | none => exact .pure _
  | some _ => exact .telling _ _

/-- Watching a loop makes no difference. -/
theorem copies_watch : (l.watch call).Copies (l.run call) :=
  .bind (.quiet _) fun _ ↦ .loop _ (.telling _ _) (.telling _ _) (l.copies_watchStep call) _

/-! ### The loop without ceiling -/

/-- What is told of a step that has run, if there is one. -/
def stepped : List LoopEvent :=
  match l.step? with
  | none => []
  | some _ => [.step (.ok ())]

/-- A round behind which the loop goes on: the condition holds, the body runs to its end, and so
does the step. -/
def round : List LoopEvent := .condition (.ok true) :: .body (.ok .next) :: l.stepped

/-- Rounds behind which the loop goes on. -/
def rounds (k : Nat) : List LoopEvent := (List.replicate k l.round).flatten

/-- The runs of the loop without ceiling: what it comes across from a machine on, how it ends, and
the machine that it leaves behind. -/
inductive Runs : Machine → List LoopEvent → Except Diagnostic Signal → Machine → Prop where
  /-- The condition fails. -/
  | conditionFails {m m' d} (h : (l.test call).outcome m = (.error d, m')) :
    Runs m [.condition (.error d)] (.error d) m'
  /-- The condition does not hold any more. -/
  | finished {m m'} (h : (l.test call).outcome m = (.ok false, m')) :
    Runs m [.condition (.ok false)] (.ok .next) m'
  /-- The body is left, or returns, or fails. -/
  | bodyEnds {m m₁ m' answer} (h : (l.test call).outcome m = (.ok true, m₁))
    (hbody : (l.perform call).outcome m₁ = (answer, m')) (hends : answer ≠ .ok .next) :
    Runs m [.condition (.ok true), .body answer] (answer.map Signal.caught) m'
  /-- The step fails. -/
  | stepFails {m m₁ m₂ m' d} (h : (l.test call).outcome m = (.ok true, m₁))
    (hbody : (l.perform call).outcome m₁ = (.ok .next, m₂))
    (hstep : (l.advance call).outcome m₂ = (.error d, m')) :
    Runs m [.condition (.ok true), .body (.ok .next), .step (.error d)] (.error d) m'
  /-- The loop goes on. -/
  | again {m m₁ m₂ m₃ es answer m'} (h : (l.test call).outcome m = (.ok true, m₁))
    (hbody : (l.perform call).outcome m₁ = (.ok .next, m₂))
    (hstep : (l.advance call).outcome m₂ = (.ok (), m₃)) (hrest : Runs m₃ es answer m') :
    Runs m (l.round ++ es) answer m'

/-- The last round of a loop without ceiling, and how the loop ends with it. -/
inductive Closes : List LoopEvent → Except Diagnostic Signal → Prop where
  /-- The condition fails. -/
  | conditionFails (d : Diagnostic) : Closes [.condition (.error d)] (.error d)
  /-- The condition does not hold any more. -/
  | finished : Closes [.condition (.ok false)] (.ok .next)
  /-- The body is left, or returns, or fails. -/
  | bodyEnds {answer : Except Diagnostic Signal} (hends : answer ≠ .ok .next) :
    Closes [.condition (.ok true), .body answer] (answer.map Signal.caught)
  /-- The step fails. -/
  | stepFails (d : Diagnostic) (hstep : l.step?.isSome) :
    Closes [.condition (.ok true), .body (.ok .next), .step (.error d)] (.error d)

variable {l : Loop} {call : Callee} {m m' m₁ m₂ m₃ : Machine} {d : Diagnostic}
  {es : List LoopEvent} {answer : Except Diagnostic Signal}

/-! ### Rounds -/

/-- A step that succeeds is told, if there is one. -/
theorem watchStep_of_ok (h : (l.advance call).outcome m = (.ok (), m')) :
    l.watchStep call m = (l.stepped, .ok (), m') := by
  unfold watchStep stepped
  rcases hstep : l.step? with - | p
  · rw [advance, hstep] at h
    cases h
    rfl
  · exact Traced.telling_of_outcome h _

/-- Only a step that there is can fail. -/
theorem watchStep_of_error (h : (l.advance call).outcome m = (.error d, m')) :
    l.step?.isSome ∧ l.watchStep call m = ([.step (.error d)], .error d, m') := by
  unfold watchStep
  rcases hstep : l.step? with - | p
  · rw [advance, hstep] at h
    cases h
  · exact ⟨rfl, Traced.telling_of_outcome h _⟩

/-- If the condition fails, so does the loop, whatever is left. -/
theorem watchFrom_of_conditionFails (h : (l.test call).outcome m = (.error d, m'))
    (limit left : Nat) :
    l.watchFrom call limit left m = ([.condition (.error d)], .error d, m') := by
  rw [watchFrom]
  cases left <;> exact Traced.bind_of_error (Traced.telling_of_outcome h LoopEvent.condition) _

/-- If the condition does not hold, the loop is over, even with nothing left. -/
theorem watchFrom_of_finished (h : (l.test call).outcome m = (.ok false, m')) (limit left : Nat) :
    l.watchFrom call limit left m = ([.condition (.ok false)], .ok .next, m') := by
  rw [watchFrom]
  cases left <;> exact Traced.bind_of_ok (Traced.telling_of_outcome h LoopEvent.condition) _

/-- The condition holds, and no iteration is left. -/
theorem watchFrom_zero (h : (l.test call).outcome m = (.ok true, m')) (limit : Nat) :
    l.watchFrom call limit 0 m =
      ([.condition (.ok true)], .error { fault := .runawayLoop limit }, m') := by
  rw [watchFrom]
  exact Traced.bind_of_ok (Traced.telling_of_outcome h LoopEvent.condition) _

/-- Runs an iteration, and then the loop with as many iterations as are left behind it. -/
def watchIteration (l : Loop) (call : Callee) (limit left : Nat) : Traced LoopEvent Signal := do
  match ← Traced.telling .body (l.perform call) with
  | .next =>
    l.watchStep call
    l.watchFrom call limit left
  | .left => pure .next
  | .returned v? => pure (.returned v?)

/-- The condition holds, and an iteration is left. -/
theorem watchFrom_succ (h : (l.test call).outcome m = (.ok true, m₁)) (limit left : Nat) :
    l.watchFrom call limit (left + 1) m =
      (.condition (.ok true) :: (l.watchIteration call limit left m₁).1,
        (l.watchIteration call limit left m₁).2) := by
  rw [watchFrom]
  exact Traced.bind_of_ok (Traced.telling_of_outcome h LoopEvent.condition) _

/-- A body that does not run to its end ends the loop, which catches a signal to leave. -/
theorem watchFrom_of_bodyEnds (h : (l.test call).outcome m = (.ok true, m₁))
    (hbody : (l.perform call).outcome m₁ = (answer, m')) (hends : answer ≠ .ok .next)
    (limit left : Nat) :
    l.watchFrom call limit (left + 1) m =
      ([.condition (.ok true), .body answer], answer.map Signal.caught, m') := by
  rw [watchFrom_succ h, watchIteration]
  rcases answer with d | (_ | _ | v?)
  · rw [Traced.bind_of_error (Traced.telling_of_outcome hbody LoopEvent.body)]
    rfl
  · exact absurd rfl hends
  · rw [Traced.bind_of_ok (Traced.telling_of_outcome hbody LoopEvent.body)]
    rfl
  · rw [Traced.bind_of_ok (Traced.telling_of_outcome hbody LoopEvent.body)]
    rfl

/-- A step that fails ends the loop. -/
theorem watchFrom_of_stepFails (h : (l.test call).outcome m = (.ok true, m₁))
    (hbody : (l.perform call).outcome m₁ = (.ok .next, m₂))
    (hstep : (l.advance call).outcome m₂ = (.error d, m')) (limit left : Nat) :
    l.watchFrom call limit (left + 1) m =
      ([.condition (.ok true), .body (.ok .next), .step (.error d)], .error d, m') := by
  rw [watchFrom_succ h, watchIteration,
    Traced.bind_of_ok (Traced.telling_of_outcome hbody LoopEvent.body)]
  dsimp only
  rw [Traced.bind_of_error (watchStep_of_error hstep).2]
  rfl

/-- If the body runs to its end and the step succeeds, a round is told and the loop goes on with one
iteration less. -/
theorem watchFrom_of_again (h : (l.test call).outcome m = (.ok true, m₁))
    (hbody : (l.perform call).outcome m₁ = (.ok .next, m₂))
    (hstep : (l.advance call).outcome m₂ = (.ok (), m₃)) (limit left : Nat) :
    l.watchFrom call limit (left + 1) m =
      (l.round ++ (l.watchFrom call limit left m₃).1, (l.watchFrom call limit left m₃).2) := by
  rw [watchFrom_succ h, watchIteration,
    Traced.bind_of_ok (Traced.telling_of_outcome hbody LoopEvent.body)]
  dsimp only
  rw [Traced.bind_of_ok (watchStep_of_ok hstep)]
  rfl

/-! ### Counting -/

/-- Conditions are counted along the events. -/
theorem conditions_append (es es' : List LoopEvent) :
    conditions (es ++ es') = conditions es + conditions es' := List.countP_append

/-- Bodies are counted along the events. -/
theorem bodies_append (es es' : List LoopEvent) :
    bodies (es ++ es') = bodies es + bodies es' := List.countP_append

/-- A round has one condition. -/
theorem conditions_round (l : Loop) : conditions l.round = 1 := by
  unfold round stepped
  cases l.step? <;> rfl

/-- A round has one body. -/
theorem bodies_round (l : Loop) : bodies l.round = 1 := by
  unfold round stepped
  cases l.step? <;> rfl

theorem rounds_succ (l : Loop) (k : Nat) : l.rounds (k + 1) = l.round ++ l.rounds k := rfl

/-- As many conditions are evaluated as there are rounds. -/
theorem conditions_rounds (l : Loop) (k : Nat) : conditions (l.rounds k) = k := by
  induction k with
  | zero => rfl
  | succ k ih => rw [rounds_succ, conditions_append, conditions_round, ih, Nat.add_comm]

/-- As many bodies run as there are rounds. -/
theorem bodies_rounds (l : Loop) (k : Nat) : bodies (l.rounds k) = k := by
  induction k with
  | zero => rfl
  | succ k ih => rw [rounds_succ, bodies_append, bodies_round, ih, Nat.add_comm]

/-! ### With and without ceiling -/

/-- If the loop without ceiling gets along with the iterations that are left, the ceiling makes no
difference. The induction is on the run without ceiling. -/
theorem watchFrom_of_runs (h : l.Runs call m es answer m') {left : Nat} (hle : bodies es ≤ left)
    (limit : Nat) : l.watchFrom call limit left m = (es, answer, m') := by
  induction h generalizing left with
  | conditionFails h => exact watchFrom_of_conditionFails h limit left
  | finished h => exact watchFrom_of_finished h limit left
  | bodyEnds h hbody hends =>
    obtain ⟨left, rfl⟩ := Nat.exists_eq_add_of_le' hle
    exact watchFrom_of_bodyEnds h hbody hends limit left
  | stepFails h hbody hstep =>
    obtain ⟨left, rfl⟩ := Nat.exists_eq_add_of_le' hle
    exact watchFrom_of_stepFails h hbody hstep limit left
  | again h hbody hstep _ ih =>
    rw [bodies_append, bodies_round, Nat.add_comm] at hle
    obtain ⟨left, rfl⟩ := Nat.exists_eq_add_of_le' (Nat.le_trans (Nat.le_add_left 1 _) hle)
    rw [watchFrom_of_again h hbody hstep, ih (Nat.le_of_succ_le_succ hle)]

/-- Either the ceiling makes no difference, or all iterations that are left are used up and the
condition holds once more. The induction is on the iterations that are left. -/
theorem runs_or_exceeds (l : Loop) (call : Callee) (limit left : Nat) (m : Machine) :
    ∃ es answer m', l.watchFrom call limit left m = (es, answer, m') ∧
      (l.Runs call m es answer m' ∧ bodies es ≤ left ∨
        es = l.rounds left ++ [.condition (.ok true)] ∧
          answer = .error { fault := .runawayLoop limit }) := by
  induction left generalizing m with
  | zero =>
    rcases h : (l.test call).outcome m with ⟨d | (_ | _), m₁⟩
    · exact ⟨_, _, _, watchFrom_of_conditionFails h limit 0,
        .inl ⟨.conditionFails h, Nat.le_refl 0⟩⟩
    · exact ⟨_, _, _, watchFrom_of_finished h limit 0, .inl ⟨.finished h, Nat.le_refl 0⟩⟩
    · exact ⟨_, _, _, watchFrom_zero h limit, .inr ⟨rfl, rfl⟩⟩
  | succ left ih =>
    rcases h : (l.test call).outcome m with ⟨d | (_ | _), m₁⟩
    · exact ⟨_, _, _, watchFrom_of_conditionFails h limit _,
        .inl ⟨.conditionFails h, Nat.zero_le _⟩⟩
    · exact ⟨_, _, _, watchFrom_of_finished h limit _, .inl ⟨.finished h, Nat.zero_le _⟩⟩
    obtain ⟨answer, m₂, hbody⟩ : ∃ answer m₂, (l.perform call).outcome m₁ = (answer, m₂) :=
      ⟨_, _, rfl⟩
    by_cases hends : answer = .ok .next
    · subst hends
      rcases hstep : (l.advance call).outcome m₂ with ⟨d | ⟨⟩, m₃⟩
      · exact ⟨_, _, _, watchFrom_of_stepFails h hbody hstep limit left,
          .inl ⟨.stepFails h hbody hstep, Nat.succ_le_succ (Nat.zero_le _)⟩⟩
      · -- the loop goes on with one iteration less
        obtain ⟨es, answer, m', hwatch, hrest⟩ := ih m₃
        have hagain := watchFrom_of_again h hbody hstep limit left
        rw [hwatch] at hagain
        refine ⟨l.round ++ es, answer, m', hagain, ?_⟩
        rcases hrest with ⟨hruns, hle⟩ | ⟨rfl, rfl⟩
        · refine .inl ⟨.again h hbody hstep hruns, ?_⟩
          rw [bodies_append, bodies_round]
          omega
        · exact .inr ⟨by rw [rounds_succ, List.append_assoc], rfl⟩
    · exact ⟨_, _, _, watchFrom_of_bodyEnds h hbody hends limit left,
        .inl ⟨.bodyEnds h hbody hends, Nat.succ_le_succ (Nat.zero_le _)⟩⟩

/-- What the loop without ceiling comes across consists of rounds behind which it goes on, and a
last one. -/
theorem Runs.exists_rounds (h : l.Runs call m es answer m') :
    ∃ k last, es = l.rounds k ++ last ∧ l.Closes last answer := by
  induction h with
  | conditionFails => exact ⟨0, _, rfl, .conditionFails _⟩
  | finished => exact ⟨0, _, rfl, .finished⟩
  | bodyEnds _ _ hends => exact ⟨0, _, rfl, .bodyEnds hends⟩
  | stepFails _ _ hstep => exact ⟨0, _, rfl, .stepFails _ (watchStep_of_error hstep).1⟩
  | again _ _ _ _ ih =>
    obtain ⟨k, last, rfl, hcloses⟩ := ih
    exact ⟨k + 1, last, by rw [rounds_succ, List.append_assoc], hcloses⟩

/-! ### Whose fault it is -/

/-- The last event of the last round is no condition that holds, and it says how the loop ends. -/
theorem Closes.exists_getLast? (h : l.Closes es answer) :
    ∃ e, es.getLast? = some e ∧ e ≠ .condition (.ok true) ∧
      (e = .condition (.ok false) → answer = .ok .next) ∧
      ∀ signal, e = .body (.ok signal) → answer = .ok signal.caught := by
  cases h with
  | conditionFails d => exact ⟨_, rfl, by simp, by simp, by simp⟩
  | finished => exact ⟨_, rfl, by simp, fun _ ↦ rfl, by simp⟩
  | bodyEnds =>
    refine ⟨_, rfl, by simp, by simp, fun signal heq ↦ ?_⟩
    rw [LoopEvent.body.inj heq]
    rfl
  | stepFails d => exact ⟨_, rfl, by simp, by simp, by simp⟩

/-- The last thing that the loop without ceiling comes across says how it ends. -/
theorem Runs.exists_getLast? (h : l.Runs call m es answer m') :
    ∃ e, es.getLast? = some e ∧ e ≠ .condition (.ok true) ∧
      (e = .condition (.ok false) → answer = .ok .next) ∧
      ∀ signal, e = .body (.ok signal) → answer = .ok signal.caught := by
  obtain ⟨k, last, rfl, hcloses⟩ := h.exists_rounds
  obtain ⟨e, he, hends⟩ := hcloses.exists_getLast?
  exact ⟨e, by rw [List.getLast?_append, he, Option.some_or], hends⟩

/-- A condition is evaluated at most once more than the body runs. -/
theorem Runs.conditions_le (h : l.Runs call m es answer m') : conditions es ≤ bodies es + 1 := by
  obtain ⟨k, last, rfl, hcloses⟩ := h.exists_rounds
  have hlast : conditions last ≤ bodies last + 1 := by
    cases hcloses <;>
      simp [conditions, bodies, List.countP_cons, LoopEvent.isCondition, LoopEvent.isBody]
  rw [conditions_append, bodies_append, conditions_rounds, bodies_rounds]
  omega

/-- Without ceiling no loop fails with the fault that it has itself at the ceiling: in the
condition, in the body and in the step there are only loops that have reported a line. -/
theorem Runs.answer_ne {depth : Nat} (h : l.Runs (callFunction depth) m es answer m')
    (limit : Nat) : answer ≠ .error { fault := .runawayLoop limit } := by
  induction h with
  | @conditionFails m m' d h =>
    rintro ⟨⟩
    have hfails : (⟨depth, .cond l.cond, m⟩ : Moment).Fails { fault := .runawayLoop limit } :=
      failsWith_discard_iff.2 (failsWith_of_outcome h)
    exact hfails.line_ne_none_of_runaway rfl nofun rfl
  | finished => nofun
  | @bodyEnds m m₁ m' answer h hbody hends =>
    rcases answer with d | signal
    · rintro ⟨⟩
      have hfails : (⟨depth, .trees l.body, { m₁ with chosen := false }⟩ : Moment).Fails
          { fault := .runawayLoop limit } :=
        failsWith_discard_iff.2 (failsWith_withOwnChain_iff.1 (failsWith_of_outcome hbody))
      exact Moment.line_ne_none_of_trees hfails rfl
    · nofun
  | @stepFails m m₁ m₂ m' d h hbody hstep =>
    rintro ⟨⟩
    obtain ⟨⟨line, s⟩, hs⟩ := Option.isSome_iff_exists.1 (watchStep_of_error hstep).1
    rw [advance, hs] at hstep
    have hfails : (⟨depth, .statement line s, m₂⟩ : Moment).Fails
        { fault := .runawayLoop limit } := failsWith_of_outcome hstep
    exact hfails.line_ne_none_of_runaway rfl nofun rfl
  | again _ _ _ _ ih => exact ih

/-- The ceiling of loops is exact, for every loop, in every state and with every ceiling. What a
loop comes across, how it ends and what it leaves behind is told by watching it, which makes no
difference.

The body runs at most as often as the ceiling says, and the condition is evaluated at most once
more. The loop fails with its own fault, which has no line yet, exactly if the condition has held
each time and once more, and every body has run to its end and every step has succeeded. Otherwise
there are only rounds of this kind, each with its step right behind the body, and a last one, which
is closed by what the condition, the body or the step came to; the step does not run behind a body
that is left, returns or fails. What comes last says how the loop ends, also if no iteration is left
by then.

And the loop does what it does without ceiling whenever that takes no more iterations than the
ceiling says; unless it fails with its own fault, it does so in any case. -/
theorem watch_ceiling (depth : Nat) (l : Loop) (m : Machine) :
    let call := callFunction depth
    let limit := m.limits.iterations
    let own : Except Diagnostic Signal := .error { fault := .runawayLoop limit }
    ∃ es answer m', l.watch call m = (es, answer, m') ∧ (l.run call).outcome m = (answer, m') ∧
      bodies es ≤ limit ∧ conditions es ≤ limit + 1 ∧
      (answer = own ↔ es = l.rounds limit ++ [.condition (.ok true)]) ∧
      (answer ≠ own → ∃ k last, es = l.rounds k ++ last ∧ l.Closes last answer) ∧
      (es.getLast? = some (.condition (.ok false)) → answer = .ok .next) ∧
      (∀ signal, es.getLast? = some (.body (.ok signal)) → answer = .ok signal.caught) ∧
      (∀ es' answer' m'', l.Runs call m es' answer' m'' → bodies es' ≤ limit →
        es' = es ∧ answer' = answer ∧ m'' = m') ∧
      (answer ≠ own → l.Runs call m es answer m') := by
  intro call limit own
  obtain ⟨es, answer, m', hwatch, hends⟩ := runs_or_exceeds l call limit limit m
  have hrun : (l.run call).outcome m = (answer, m') := by
    have hcopy := l.copies_watch call m
    rw [show l.watch call m = (es, answer, m') from hwatch] at hcopy
    exact hcopy.symm
  have hunique (es' answer' m'') (h : l.Runs call m es' answer' m'') (hle : bodies es' ≤ limit) :
      es' = es ∧ answer' = answer ∧ m'' = m' := by
    rw [watchFrom_of_runs h hle] at hwatch
    obtain ⟨rfl, hrest⟩ := Prod.mk.inj hwatch
    obtain ⟨rfl, rfl⟩ := Prod.mk.inj hrest
    exact ⟨rfl, rfl, rfl⟩
  refine ⟨es, answer, m', hwatch, hrun, ?_⟩
  rcases hends with ⟨hruns, hle⟩ | ⟨rfl, rfl⟩
  · -- the ceiling makes no difference
    obtain ⟨e, he, hne, hfinished, hbody⟩ := hruns.exists_getLast?
    have hown : answer ≠ own := hruns.answer_ne limit
    refine ⟨hle, Nat.le_trans hruns.conditions_le (Nat.succ_le_succ hle), ⟨fun h ↦ absurd h hown,
      fun h ↦ ?_⟩, fun _ ↦ hruns.exists_rounds, fun h ↦ ?_, fun signal h ↦ ?_, hunique,
      fun _ ↦ hruns⟩
    · rw [h, List.getLast?_concat] at he
      exact absurd (Option.some.inj he).symm hne
    · exact hfinished (Option.some.inj (he.symm.trans h))
    · exact hbody signal (Option.some.inj (he.symm.trans h))
  · -- the iterations are used up
    refine ⟨?_, ?_, iff_of_true rfl rfl, fun h ↦ absurd rfl h, fun h ↦ ?_, fun signal h ↦ ?_,
      hunique, fun h ↦ absurd rfl h⟩
    · rw [bodies_append, bodies_rounds]
      rfl
    · rw [conditions_append, conditions_rounds]
      rfl
    · rw [List.getLast?_concat] at h
      cases h
    · rw [List.getLast?_concat] at h
      cases h

end Loop

end Haklang

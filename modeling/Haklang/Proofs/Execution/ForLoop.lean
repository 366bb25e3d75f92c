import Haklang.Proofs.Action.Parallel
import Haklang.Proofs.Execution.Ceiling
import Haklang.Proofs.Execution.Chain

/-!
# Steps inside of bodies

A header of three parts is a short form: its initial statement might as well stand before the loop,
and its step at the end of the body, as one more statement at the line of the header
(`Loop.inlined`). Two things are different where the step stands outside. There a failure of the
step is reported by the block and not by a tree of its own, which comes to the same as the line is
the same. And there the step does not belong to the chain of conditions of the body; but a statement
neither looks at that chain nor changes it (`Statement.chainless_run`), since a function that it
calls has a chain of its own.

Steps that leave or return are left out. Outside of the body their signals are dropped, and inside
they would end the loop.
-/

namespace Haklang

open Haklang.Action

/-! ### Actions that have nothing to do with the chain -/

/-- The second machine is the first one with that flag of its chain. -/
def Machine.OtherChain (chosen : Bool) (m m' : Machine) : Prop := m' = { m with chosen }

/-- A statement cannot tell machines apart that differ in the flag of the chain only. -/
theorem Machine.mirrors_otherChain (chosen : Bool) :
    Machine.Mirrors (Machine.OtherChain chosen) Eq where
  lookup? := by rintro m _ rfl name; rfl
  stack := by rintro m _ rfl; rfl
  input := by rintro m _ rfl; rfl
  generator := by rintro m _ rfl; rfl
  fault f := rfl
  put := by rintro m _ rfl name v; rfl
  setStack := by rintro m _ rfl stack; rfl
  note := by rintro m _ rfl e he; rfl
  setInput := by rintro m _ rfl input; rfl
  setGenerator := by rintro m _ rfl generator; rfl

namespace Action

variable {α : Type} {x : Action α}

/-- The action neither looks at the flag of the chain nor changes it. -/
def Chainless (x : Action α) : Prop :=
  ∀ m chosen, x.outcome { m with chosen } = ((x.outcome m).1, { (x.outcome m).2 with chosen })

/-- What runs side by side with itself whatever the flag is does not look at the flag. -/
theorem Chainless.of_parallel (h : ∀ chosen, Parallel (Machine.OtherChain chosen) Eq x x) :
    Chainless x := by
  intro m chosen
  have hm := h chosen (rfl : m.OtherChain chosen { m with chosen })
  unfold outcome
  generalize x m = r at hm ⊢
  generalize x { m with chosen } = r' at hm ⊢
  cases hm with
  | ok hm => rw [hm]
  | error hd hm => rw [hd, hm]

/-- The line of a failure does not depend on the flag. -/
theorem Chainless.within (hx : Chainless x) (line : SourceLine) :
    Chainless (Action.within line x) := by
  intro m chosen
  rw [outcome_within, outcome_within, hx m chosen]

/-- A call starts with a new frame, whatever the flag is. -/
theorem parallel_inCall {chosen : Bool} (hx : Parallel (Machine.OtherChain chosen) Eq x x) :
    Parallel (Machine.OtherChain chosen) Eq (inCall x) (inCall x) := by
  rintro m _ rfl
  have hm := hx (rfl : ({ m with store := m.store.enter } : Machine).OtherChain chosen _)
  rw [inCall, inCall]
  generalize x { m with store := m.store.enter } = r at hm ⊢
  generalize x { { m with store := m.store.enter } with chosen } = r' at hm ⊢
  cases hm with
  | ok hm =>
    cases hm
    exact .ok rfl
  | error hd hm =>
    cases hm
    exact .error hd rfl

/-- What has a chain of its own has nothing to do with the one outside. -/
theorem parallel_withOwnChain (x : Action α) (chosen : Bool) :
    Parallel (Machine.OtherChain chosen) Eq (withOwnChain x) (withOwnChain x) := by
  rintro m _ rfl
  rw [withOwnChain, withOwnChain]
  cases x { m with chosen := false } with
  | ok a m' => exact .ok rfl
  | error d m' => exact .error rfl rfl

end Action

/-- A call has a chain of its own, so it does not depend on the flag around it. -/
theorem parallel_otherChain_callFunction (depth : Nat) (chosen : Bool) :
    (callFunction depth).Parallel (Machine.OtherChain chosen) Eq (callFunction depth) := by
  have hR := Machine.mirrors_otherChain chosen
  intro name args
  have hread : Parallel (Machine.OtherChain chosen) Eq (read (·.function name))
      (read (·.function name)) := by
    rintro m _ rfl
    exact Parallel.ofExcept hR (m.store.function name) rfl
  cases depth with
  | zero =>
    refine hread.bind fun f ↦ ?_
    split
    · exact .fail hR _
    · refine .getBind fun {m m'} h ↦ ?_
      cases h
      exact .fail hR _
  | succ depth =>
    refine hread.bind fun f ↦ ?_
    split
    · exact .fail hR _
    · refine (parallel_inCall ?_).bind fun _ ↦ .pure _
      refine (Parallel.modify fun {m m'} h ↦ ?_).bind fun _ ↦ parallel_withOwnChain _ chosen
      cases h
      rfl

/-- A statement has nothing to do with the chain that it stands in. -/
theorem Statement.chainless_run (depth : Nat) (line : SourceLine) (s : Statement) :
    Chainless (s.run (callFunction depth) line) := by
  refine .of_parallel fun chosen ↦ s.parallel_run (Machine.mirrors_otherChain chosen)
    (parallel_otherChain_callFunction depth chosen) ?_
  rintro m _ rfl name args
  rfl

/-! ### Statements that end with the next tree -/

namespace Action

/-- Wherever the action does not fail, the next tree is to run. -/
def EndsNext (x : Action Signal) : Prop := ∀ m signal m', x m = .ok signal m' → signal = .next

namespace EndsNext

theorem pure : EndsNext (Pure.pure .next) := fun _ _ _ h ↦ by
  cases h
  rfl

theorem fail (e : Fault) : EndsNext (Action.fail e) := fun _ _ _ ↦ nofun

/-- How a sequence ends is up to its last part. -/
theorem bind {α : Type} (x : Action α) {f : α → Action Signal} (hf : ∀ a, EndsNext (f a)) :
    EndsNext (x >>= f) := by
  intro m signal m' h
  cases hx : x m with
  | ok a m₁ =>
    rw [bind_of_ok hx] at h
    exact hf a m₁ signal m' h
  | error d m₁ =>
    rw [bind_of_error hx] at h
    cases h

end EndsNext

end Action

/-- Only statements that leave or return end with another signal. -/
theorem Statement.endsNext_run {call : Callee} {line : SourceLine} {s : Statement}
    (hleave : s ≠ .leave) (hresult : ∀ e?, s ≠ .result e?) : EndsNext (s.run call line) := by
  cases s with
  | leave => exact absurd rfl hleave
  | result e? => exact absurd rfl (hresult e?)
  | truth | marker | comment => exact .pure
  | unknown text => exact .fail _
  | declare | increment | assignText | assignList | sort | reset | randomize | outputElement =>
    exact .bind _ fun _ ↦ .pure
  | assign | call | defer | randomizeAll | push | pop | pause | output =>
    exact .bind _ fun _ ↦ .bind _ fun _ ↦ .pure
  | input name? newline =>
    cases name? <;> refine .bind _ fun _ ↦ ?_ <;> cases newline
    · exact .pure
    · exact .bind _ fun _ ↦ .pure
    · exact .pure
    · exact .bind _ fun _ ↦ .pure
  | inspect name? =>
    cases name? with
    | none => exact .bind _ fun _ ↦ .bind _ fun _ ↦ .pure
    | some name => exact .bind _ fun _ ↦ .bind _ fun _ ↦ .pure

/-! ### Trees behind other trees -/

namespace Tree

variable {call : Callee} {ts : List Tree} {m m' : Machine} {answer : Except Diagnostic Signal}

/-- Trees that run to their end are followed by the others. -/
theorem outcome_runAll_append_of_next (h : (runAll call ts).outcome m = (.ok .next, m'))
    (us : List Tree) : (runAll call (ts ++ us)).outcome m = (runAll call us).outcome m' := by
  induction ts generalizing m with
  | nil =>
    obtain ⟨-, rfl⟩ := Prod.mk.inj h
    rfl
  | cons t ts ih =>
    obtain ⟨first, m₁, ht⟩ : ∃ first m₁, (t.run call).outcome m = (first, m₁) := ⟨_, _, rfl⟩
    by_cases hfirst : first = .ok .next
    · subst hfirst
      rw [outcome_runAll_of_next ht] at h
      rw [List.cons_append, outcome_runAll_of_next ht, ih h]
    · rw [outcome_runAll_of_ne ht hfirst] at h
      exact absurd (Prod.mk.inj h).1 hfirst

/-- Trees that end in another way are followed by nothing. -/
theorem outcome_runAll_append_of_ne (h : (runAll call ts).outcome m = (answer, m'))
    (hne : answer ≠ .ok .next) (us : List Tree) :
    (runAll call (ts ++ us)).outcome m = (answer, m') := by
  induction ts generalizing m with
  | nil => exact absurd (Prod.mk.inj h).1.symm hne
  | cons t ts ih =>
    obtain ⟨first, m₁, ht⟩ : ∃ first m₁, (t.run call).outcome m = (first, m₁) := ⟨_, _, rfl⟩
    by_cases hfirst : first = .ok .next
    · subst hfirst
      rw [outcome_runAll_of_next ht] at h
      rw [List.cons_append, outcome_runAll_of_next ht, ih h]
    · rw [outcome_runAll_of_ne ht hfirst] at h
      rw [List.cons_append, outcome_runAll_of_ne ht hfirst, h]

/-- A tree alone in a body. -/
theorem outcome_runAll_singleton (t : Tree) (m : Machine) :
    (runAll call [t]).outcome m = (t.run call).outcome m := by
  obtain ⟨answer, m', h⟩ : ∃ answer m', (t.run call).outcome m = (answer, m') := ⟨_, _, rfl⟩
  by_cases hanswer : answer = .ok .next
  · subst hanswer
    rw [outcome_runAll_of_next h, h]
    rfl
  · rw [outcome_runAll_of_ne h hanswer, h]

end Tree

/-! ### Steps -/

namespace Loop

/-- The loop with its step as the last tree of its body. -/
def inlined (l : Loop) (id : Nat) : Loop where
  cond := l.cond
  body := l.body ++ (l.step?.map fun p ↦ .statement id p.1 p.2).toList
  step? := none

/-- Two runs of loops that come across as many conditions and as many bodies, leave the same machine
behind and end in the same way, if their failures are reported at the line. -/
structure Alike (line : SourceLine)
    (r r' : List LoopEvent × Except Diagnostic Signal × Machine) : Prop where
  /-- As many conditions are evaluated. -/
  conditions_eq : conditions r.1 = conditions r'.1
  /-- As many bodies run. -/
  bodies_eq : bodies r.1 = bodies r'.1
  /-- They end in the same way. -/
  answer_eq : r.2.1.mapError (·.locate line) = r'.2.1.mapError (·.locate line)
  /-- They leave the same machine behind. -/
  machine_eq : r.2.2 = r'.2.2

/-- Equal runs are alike, in particular. -/
theorem Alike.of_eq {line : SourceLine}
    {r r' r'' : List LoopEvent × Except Diagnostic Signal × Machine} (h : r = r'') (h' : r' = r'') :
    Alike line r r' := by
  rw [h, h']
  exact ⟨rfl, rfl, rfl, rfl⟩

section

variable {c : Cond} {body : List Tree} {line : SourceLine} {s : Statement} {depth : Nat}
  {m m₁ : Machine} {answer : Except Diagnostic Signal}

/-- Where the body runs to its end, the step follows, inside of the body as outside of it. -/
theorem outcome_perform_inlined_of_next (id : Nat)
    (h : (perform ⟨c, body, some (line, s)⟩ (callFunction depth)).outcome m = (.ok .next, m₁)) :
    (perform (inlined ⟨c, body, some (line, s)⟩ id) (callFunction depth)).outcome m =
      (within line (s.run (callFunction depth) line)).outcome m₁ := by
  rw [perform, outcome_withOwnChain] at h ⊢
  obtain ⟨hbody, rfl⟩ := Prod.mk.inj h
  rw [(s.chainless_run depth line).within line,
    show (inlined ⟨c, body, some (line, s)⟩ id).body = body ++ [.statement id line s] from rfl,
    Tree.outcome_runAll_append_of_next (Prod.ext hbody rfl), Tree.outcome_runAll_singleton]
  rfl

/-- Where the body does not run to its end, the step does not run. -/
theorem outcome_perform_inlined_of_ne (id : Nat)
    (h : (perform ⟨c, body, some (line, s)⟩ (callFunction depth)).outcome m = (answer, m₁))
    (hne : answer ≠ .ok .next) :
    (perform (inlined ⟨c, body, some (line, s)⟩ id) (callFunction depth)).outcome m =
      (answer, m₁) := by
  rw [perform, outcome_withOwnChain] at h ⊢
  obtain ⟨hbody, rfl⟩ := Prod.mk.inj h
  rw [show (inlined ⟨c, body, some (line, s)⟩ id).body = body ++ [.statement id line s] from rfl,
    Tree.outcome_runAll_append_of_ne (Prod.ext hbody rfl) hne]

/-- The induction is on the iterations that are left, with one case for each way in which a round
can go. -/
theorem alike_watchFrom_inlined (depth id : Nat) (c : Cond) (body : List Tree) (line : SourceLine)
    {s : Statement} (hs : EndsNext (s.run (callFunction depth) line)) (limit left : Nat)
    (m : Machine) :
    Alike line (watchFrom ⟨c, body, some (line, s)⟩ (callFunction depth) limit left m)
      (watchFrom (inlined ⟨c, body, some (line, s)⟩ id) (callFunction depth) limit left m) := by
  have test_inlined (m : Machine) :
      ((inlined ⟨c, body, some (line, s)⟩ id).test (callFunction depth)).outcome m =
        (test ⟨c, body, some (line, s)⟩ (callFunction depth)).outcome m := rfl
  induction left generalizing m with
  | zero =>
    rcases h : (test ⟨c, body, some (line, s)⟩ (callFunction depth)).outcome m with
      ⟨d | (_ | _), m₁⟩ <;> have h' := (test_inlined m).trans h
    · exact .of_eq (watchFrom_of_conditionFails h limit 0) (watchFrom_of_conditionFails h' limit 0)
    · exact .of_eq (watchFrom_of_finished h limit 0) (watchFrom_of_finished h' limit 0)
    · exact .of_eq (watchFrom_zero h limit) (watchFrom_zero h' limit)
  | succ left ih =>
    rcases h : (test ⟨c, body, some (line, s)⟩ (callFunction depth)).outcome m with
      ⟨d | (_ | _), m₁⟩ <;> have h' := (test_inlined m).trans h
    · exact .of_eq (watchFrom_of_conditionFails h limit _) (watchFrom_of_conditionFails h' limit _)
    · exact .of_eq (watchFrom_of_finished h limit _) (watchFrom_of_finished h' limit _)
    obtain ⟨answer, m₂, hbody⟩ : ∃ answer m₂,
        (perform ⟨c, body, some (line, s)⟩ (callFunction depth)).outcome m₁ = (answer, m₂) :=
      ⟨_, _, rfl⟩
    by_cases hends : answer = .ok .next
    case neg =>
      exact .of_eq (watchFrom_of_bodyEnds h hbody hends limit left)
        (watchFrom_of_bodyEnds h' (outcome_perform_inlined_of_ne id hbody hends) hends limit left)
    subst hends
    have hbody' := outcome_perform_inlined_of_next id hbody
    have hstep : (advance ⟨c, body, some (line, s)⟩ (callFunction depth)).outcome m₂ =
      (((s.run (callFunction depth) line).outcome m₂).1.map fun _ ↦ (),
        ((s.run (callFunction depth) line).outcome m₂).2) := outcome_discard _ _
    rw [outcome_within] at hbody'
    rcases hrun : (s.run (callFunction depth) line).outcome m₂ with ⟨d | signal, m₃⟩ <;>
      rw [hrun] at hbody' hstep
    · -- inside of the body the failure already has the line that the block reports it at
      rw [watchFrom_of_stepFails h hbody hstep, watchFrom_of_bodyEnds h' hbody' nofun]
      exact ⟨rfl, rfl, rfl, rfl⟩
    · obtain rfl : signal = .next := hs m₂ signal m₃ (outcome_eq_ok_iff.1 hrun)
      rw [watchFrom_of_again h hbody hstep, watchFrom_of_again h' hbody' rfl]
      have hrest := ih m₃
      exact {
        conditions_eq := by
          rw [conditions_append, conditions_append, conditions_round, conditions_round,
            hrest.conditions_eq]
        bodies_eq := by
          rw [bodies_append, bodies_append, bodies_round, bodies_round, hrest.bodies_eq]
        answer_eq := hrest.answer_eq
        machine_eq := hrest.machine_eq }

/-- Reported at the line, the loop with the step in its body is the loop with the step outside. -/
theorem within_run_inlined (depth id : Nat) (c : Cond) (body : List Tree) (line : SourceLine)
    {s : Statement} (hs : EndsNext (s.run (callFunction depth) line)) :
    within line (run (inlined ⟨c, body, some (line, s)⟩ id) (callFunction depth)) =
      within line (run ⟨c, body, some (line, s)⟩ (callFunction depth)) := by
  refine ext_outcome fun m ↦ ?_
  have halike := alike_watchFrom_inlined depth id c body line hs m.limits.iterations
    m.limits.iterations m
  rw [outcome_within, outcome_within, ← copies_watch, ← copies_watch]
  exact Prod.ext halike.answer_eq.symm halike.machine_eq.symm

end

end Loop

/-- A block with a header of three parts does what its initial statement does and then, if that does
not fail, a block with the condition alone, whose body has the step as one more statement at its
end; all of them stand at the line of the header. This holds in every state and for every step that
neither leaves nor returns, however the parts end.

The loops evaluate the condition and run the body equally often, so they reach the ceiling at the
same point. Where the body is left, returns or fails, the step at its end does not run. And it has
nothing to do with the chain of conditions in the body. -/
theorem Tree.run_forLoop_eq (depth id idInit idLoop idStep : Nat) (line : SourceLine)
    (init : Statement) (c : Cond) (step : Statement) (body : List Tree) (hleave : step ≠ .leave)
    (hresult : ∀ e?, step ≠ .result e?) :
    let call := callFunction depth
    let last : Tree := .statement idStep line step
    (Tree.block id line (.forLoop init c step) body).run call = (do
      discard ((Tree.statement idInit line init).run call)
      (Tree.block idLoop line (.whileLoop c) (body ++ [last])).run call) ∧
    (∀ m,
      let outside := (Loop.watch ⟨c, body, some (line, step)⟩ call m).1
      let inside := (Loop.watch ⟨c, body ++ [last], none⟩ call m).1
      conditions outside = conditions inside ∧ bodies outside = bodies inside) ∧
    (∀ m answer m', (runAll call body).outcome m = (answer, m') → answer ≠ .ok .next →
      (runAll call (body ++ [last])).outcome m = (answer, m')) ∧
    (last.run call).Chainless := by
  intro call last
  have hs : EndsNext (step.run call line) := Statement.endsNext_run hleave hresult
  refine ⟨?_, fun m ↦ ?_, fun m answer m' h hne ↦ outcome_runAll_append_of_ne h hne _,
    (step.chainless_run depth line).within line⟩
  · have hloop := Loop.within_run_inlined depth idStep c body line hs
    rw [run_forLoop, within_bind, within_discard, ← hloop]
    rfl
  · have halike := Loop.alike_watchFrom_inlined depth idStep c body line hs m.limits.iterations
      m.limits.iterations m
    exact ⟨halike.conditions_eq, halike.bodies_eq⟩

/-- Counting to three. -/
theorem Tree.run_forLoop_eq_count :
    let line : SourceLine := ⟨1, "for"⟩
    let step : Statement := .increment "i" "밥"
    let output : Tree := .statement 0 ⟨2, "out"⟩ (.output [.var "i"] true)
    let c : Cond := .compare .lt (.var "i") (.int { val := 3 })
    step ≠ .leave ∧ (∀ e?, step ≠ .result e?) ∧
      (Tree.block 1 line (.forLoop (.assign "i" (.int 0)) c step) [output]).run
          (callFunction 5) = (do
        discard ((Tree.statement 1 line (.assign "i" (.int 0))).run (callFunction 5))
        (Tree.block 3 line (.whileLoop c) [output, .statement 2 line step]).run
          (callFunction 5)) := by
  intro line step output c
  have hleave : step ≠ .leave := (nofun : Statement.increment "i" "밥" ≠ .leave)
  have hresult (e? : Option Expr) : step ≠ .result e? :=
    (nofun : Statement.increment "i" "밥" ≠ .result e?)
  exact ⟨hleave, hresult, (Tree.run_forLoop_eq 5 1 1 3 2 line _ c step _ hleave hresult).1⟩

end Haklang

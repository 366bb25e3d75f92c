import Haklang.Proofs.Execution.Renumbered
import Haklang.Proofs.Session.Batch

/-!
# Sessions at lines with other numbers

Two sessions that are the same but for the numbers of lines (`Session.Renumbered`) stay so when they
take the same lines under other numbers, and when they come to the end of the source
(`Session.Renumbered.feedEach`, `Session.Renumbered.finish`). They end in the same way, or fail with
the same diagnostic but for the number of its line.
-/

namespace Haklang

open Haklang.Action

variable {f : Nat → Nat}

namespace Session

/-- The sessions are the same, but for the numbers of lines. -/
structure Renumbered (f : Nat → Nat) (s s' : Session) : Prop where
  /-- The machines are the same, but for the numbers of lines. -/
  machine : s.machine.Renumbered f s'.machine
  /-- The same lines are held back, under other numbers. -/
  collector : s'.collector = s.collector.renumber f
  /-- A marker stands before the next item, or none. -/
  twice? : s.twice? = s'.twice?
  /-- The next tree has the same serial number. -/
  nextId : s.nextId = s'.nextId

/-- The answers and the sessions behind them are the same, but for the numbers of lines. -/
inductive RenumberedAnswer {α : Type} (f : Nat → Nat) :
    Except Diagnostic α × Session → Except Diagnostic α × Session → Prop where
  /-- Both succeed. -/
  | ok {a : α} {s s' : Session} (h : s.Renumbered f s') : RenumberedAnswer f (.ok a, s) (.ok a, s')
  /-- Both fail. -/
  | error {d : Diagnostic} {s s' : Session} (h : s.Renumbered f s') :
    RenumberedAnswer f (.error d, s) (.error (d.renumber f), s')

namespace Renumbered

variable {s s' : Session}

/-- Actions that run side by side do so in sessions. -/
theorem perform {α : Type} (h : s.Renumbered f s') {x y : Action α}
    (hx : ParallelRenumbered f x y) : RenumberedAnswer f (s.perform x) (s'.perform y) := by
  have hm := hx h.machine
  rw [Session.perform, Session.perform]
  generalize x s.machine = r at hm
  generalize y s'.machine = r' at hm
  cases hm with
  | ok h' => exact .ok { h with machine := h' }
  | error hd h' =>
    rw [hd]
    exact .error { h with machine := h' }

/-- A diagnostic is written at both consoles. -/
theorem report (h : s.Renumbered f s') (d : Diagnostic) :
    (s.report (d.render ++ "\n")).Renumbered f (s'.report ((d.renumber f).render ++ "\n")) :=
  { h with machine := { h.machine with console := h.machine.console.note (.message d) } }

/-- Passages that differ in numbers make trees that differ in numbers, and these run side by side.
-/
theorem runPassage (h : s.Renumbered f s') (p : Passage) :
    RenumberedAnswer f (s.runPassage p) (s'.runPassage (p.renumber f)) := by
  unfold Session.runPassage
  rw [← h.nextId, ← h.twice?, Tree.ofPassage?_renumber]
  rcases Tree.ofPassage? p s.nextId with - | ⟨t, next⟩
  · exact .ok ⟨h.machine, h.collector, rfl, rfl⟩
  · simp only [Option.map_some, Tree.repeated_renumber]
    refine perform ?_ (parallel_runTree _).discard
    exact ⟨h.machine, h.collector, rfl, rfl⟩

/-- A line is fed under its new number. -/
theorem feed (h : s.Renumbered f s') (text : String) (number : Nat) :
    RenumberedAnswer f (s.feed text number) (s'.feed text (f number)) := by
  unfold Session.feed
  dsimp only
  split
  · exact .ok h
  · have hpush := Collector.push_renumber f s.collector { number, text := Text.trimmed text }
    rw [← h.collector] at hpush
    rw [show s'.collector.push { number := f number, text := Text.trimmed text } = _ from hpush]
    rcases s.collector.push { number, text := Text.trimmed text } with ⟨c, - | p⟩
    · exact .ok ⟨h.machine, rfl, h.twice?, h.nextId⟩
    · refine runPassage ?_ p
      exact ⟨h.machine, rfl, h.twice?, h.nextId⟩

/-- Lines are fed one after the other, as long as none fails. -/
theorem feedEach (h : s.Renumbered f s') (lines : List SourceLine) :
    RenumberedAnswer f (s.feedEach lines) (s'.feedEach (lines.map (·.renumber f))) := by
  induction lines generalizing s s' with
  | nil => exact .ok h
  | cons line rest ih =>
    have hline : RenumberedAnswer f (s.feed line.text line.number)
        (s'.feed (line.renumber f).text (line.renumber f).number) :=
      h.feed line.text line.number
    rw [List.map_cons, Session.feedEach, Session.feedEach]
    generalize s.feed line.text line.number = r at hline
    generalize s'.feed (line.renumber f).text (line.renumber f).number = r' at hline
    cases hline with
    | ok h' => exact ih h'
    | error h' => exact .error h'

/-- The same calls are left. -/
theorem setDeferred (h : s.Renumbered f s') (rest : List DeferredCall) :
    Renumbered f { s with machine.deferred := rest }
      { s' with machine.deferred := rest.map (·.renumber f) } :=
  ⟨{ h.machine with deferred := rfl }, h.collector, h.twice?, h.nextId⟩

/-- The induction is on the calls that may still run. -/
theorem runDeferred (h : s.Renumbered f s') (left : Nat) :
    (s.runDeferred left).Renumbered f (s'.runDeferred left) := by
  induction left generalizing s s' with
  | zero =>
    have hdeferred := h.machine.deferred
    rcases hd : s.machine.deferred with - | ⟨call, rest⟩ <;> rw [hd] at hdeferred <;>
      simp only [Session.runDeferred, hd, hdeferred, List.map_nil, List.map_cons]
    · exact h
    · -- both drop the calls that wait, with a message at the line of the first
      have hlocate : ({ fault := .runawayDeferred s'.machine.limits.iterations } :
          Diagnostic).locate (call.renumber f).line =
          (({ fault := .runawayDeferred s.machine.limits.iterations } :
            Diagnostic).locate call.line).renumber f := by
        rw [h.machine.limits]
        rfl
      rw [hlocate]
      exact (h.setDeferred []).report _
  | succ left ih =>
    have hdeferred := h.machine.deferred
    rcases hd : s.machine.deferred with - | ⟨call, rest⟩ <;> rw [hd] at hdeferred <;>
      simp only [Session.runDeferred, hd, hdeferred, List.map_nil, List.map_cons]
    · exact h
    · have hcall : RenumberedAnswer f
          (Session.perform { s with machine.deferred := rest }
            (Action.callee call.name call.args))
          (Session.perform { s' with machine.deferred := rest.map (·.renumber f) }
            (Action.callee call.name call.args)) :=
        (h.setDeferred rest).perform (parallel_callee call.name call.args)
      generalize Session.perform { s with machine.deferred := rest } _ = r at hcall
      change RenumberedAnswer f r (Session.perform { s' with
        machine.deferred := rest.map (·.renumber f) } (Action.callee (call.renumber f).name
          (call.renumber f).args)) at hcall
      generalize Session.perform { s' with machine.deferred := rest.map (·.renumber f) } _ = r'
        at hcall
      cases hcall with
      | ok h' => exact ih h'
      | error h' =>
        have hlocate (d : Diagnostic) : (d.renumber f).locate (call.renumber f).line =
            (d.locate call.line).renumber f := d.locate_renumber call.line
        simp only [hlocate]
        exact ih (h'.report _)

/-- The end makes the same calls in the same order. -/
theorem finish (h : s.Renumbered f s') : s.finish.Renumbered f s'.finish := by
  unfold Session.finish
  rw [h.machine.limits]
  refine runDeferred ?_ _
  exact ⟨h.machine, rfl, rfl, h.nextId⟩

end Renumbered

/-! ### What is the same -/

/-- What two runs have in common that are the same but for the numbers of lines. -/
structure SameRun {α : Type} (f : Nat → Nat) (r r' : Except Diagnostic α × Session) : Prop where
  /-- They end in the same way, or fail with the same fault at a line of the same text. -/
  answer : r'.1 = r.1.mapError (·.renumber f)
  /-- The same text is written. -/
  output : r.2.machine.console.output = r'.2.machine.console.output
  /-- The same pauses are made. -/
  pauses : r.2.machine.console.pauses = r'.2.machine.console.pauses
  /-- What is done at the console is the same and in the same order, but for the numbers of lines in
  messages. -/
  console : r.2.machine.console.Renumbered f r'.2.machine.console
  /-- The program has the same variables. -/
  globals : r.2.machine.store.globals = r'.2.machine.store.globals
  /-- So have the calls in progress. -/
  calls : r.2.machine.store.calls = r'.2.machine.store.calls
  /-- The stack is the same. -/
  stack : r.2.machine.store.stack = r'.2.machine.store.stack
  /-- The same random values are to come. -/
  generator : r.2.machine.generator = r'.2.machine.generator
  /-- Functions, deferred calls and lines that are held back are the same, but for the numbers of
  lines. -/
  rest : r.2.Renumbered f r'.2

/-- Answers that differ in numbers only are the same run. -/
theorem RenumberedAnswer.sameRun {α : Type} {r r' : Except Diagnostic α × Session}
    (h : RenumberedAnswer f r r') : SameRun f r r' := by
  have hrest : r.2.Renumbered f r'.2 := by cases h <;> assumption
  have hstore := hrest.machine.store
  refine ⟨by cases h <;> rfl, hrest.machine.console.output, hrest.machine.console.pauses,
    hrest.machine.console, ?_, ?_, ?_, hrest.machine.generator, hrest⟩
  all_goals
    rw [hstore]
    rfl

end Session

end Haklang

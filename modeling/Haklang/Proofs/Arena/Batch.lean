import Haklang.Proofs.Session.Termination

/-!
# Line by line, or from one arena

The batch of `Session.feedEach_start_eq_runEach`, by number. Line by line, each tree is laid down
and runs while the arena ends with it, and functions are called later, when the arena has grown. In
the batch, all trees are laid down first and their numbers run in order, so every one of them runs
in an arena that has what comes after it. Both come to the same outcome and the same runner, with
the same numbers in the bodies of all functions (`Arena.Interpreter.feedEach_start_eq_perform`).

Neither arena is compared with the other. Each run is the run of the trees, and the trees are known
to be stored on both sides.
-/

namespace Haklang

namespace Arena

open Haklang.Action Attempt

/-- Runs nodes in order, up to the first that fails. A signal that no loop and no call takes notice
of has no effect. -/
def runEach (arena : Arena) (n : Nat) : List Nat → Attempt Unit
  | [] => pure ()
  | id :: rest => do
    discard (node arena n id)
    runEach arena n rest

/-- The induction is on the trees, all of which are stored from the start. -/
theorem computes_runEach {arena : Arena} {depth : Nat} {ts : List Tree}
    (h : Tree.StoredAll arena ts) :
    Computes arena depth (fun n ↦ runEach arena n (ts.map Tree.id)) (Action.runEach ts) := by
  induction ts with
  | nil => exact .pure _
  | cons t rest ih => exact (computes_runTree h.1).discard.bind fun _ ↦ ih h.2

namespace Interpreter

theorem Represents.runner_eq {a : Interpreter} {s : Session} (h : Represents a s) :
    a.runner = .ofMachine s.machine := by
  obtain ⟨arena, -, rfl⟩ := h
  rfl

/-- An interpreter at its start that takes lines one by one comes to the same as one that has all
trees in its arena at the start and runs their numbers in order: the same outcome, and the same
runner. -/
theorem feedEach_start_eq_perform (generator : Generator) (limits : Limits) (input : List String)
    (lines : List SourceLine) (hlines : ∀ line ∈ lines, line.Counts) :
    ∃ N r a b, a.runner = b.runner ∧ ∀ n, N ≤ n →
      (start generator limits input).feedEach n lines = some (r, a) ∧
      perform { start generator limits input with
          arena := Tree.flattenAll (Tree.ofLines lines 0).1 }
        (runEach (Tree.flattenAll (Tree.ofLines lines 0).1) n
          ((Tree.ofLines lines 0).1.map Tree.id)) = some (r, b) := by
  obtain ⟨a, ha, hone⟩ := follows_feedEach (represents_start generator limits input) lines
  have hstored :
      Tree.StoredAll (Tree.flattenAll (Tree.ofLines lines 0).1) (Tree.ofLines lines 0).1 :=
    Tree.storedAll_append_flattenAll [] (Tree.numberedAllFrom_ofLines lines 0)
  have hbatch := Session.outcome_feedEach (.start generator limits input) lines hlines
  rw [Session.batch_start] at hbatch
  generalize (Tree.ofLines lines 0).1 = trees at hstored hbatch ⊢
  -- the session at its start, where the next tree would be numbered behind all those of the batch
  obtain ⟨s, hs⟩ : ∃ s : Session, s = { Session.start generator limits input with
    nextId := (Tree.flattenAll trees).length } := ⟨_, rfl⟩
  have hfits : Fits (Tree.flattenAll trees) s := by
    subst hs
    exact ⟨rfl, fun _ _ hf ↦ nomatch hf⟩
  have hsession : ofSession (Tree.flattenAll trees) s =
      { start generator limits input with arena := Tree.flattenAll trees } := by
    subst hs
    rfl
  obtain ⟨b, hb, hall⟩ := follows_perform hfits (computes_runEach hstored)
  rw [hsession] at hall
  have hsame : Session.outcome ((Session.start generator limits input).feedEach lines) =
      Session.outcome (s.perform (Action.runEach trees)) := by
    rw [hbatch, Session.outcome_perform, hs]
  obtain ⟨hanswer, hmachine⟩ := Prod.ext_iff.mp hsame
  obtain ⟨N, hN⟩ := hone.eventually
  obtain ⟨M, hM⟩ := hall.eventually
  refine ⟨max N M, _, a, b, ?_, fun n hn ↦ ⟨hN n (by omega), ?_⟩⟩
  · rw [ha.runner_eq, hb.runner_eq]
    exact congrArg Runner.ofMachine hmachine
  · exact (hM n (by omega)).trans (congrArg (fun r ↦ some (r, b)) hanswer.symm)

end Interpreter

end Arena

end Haklang

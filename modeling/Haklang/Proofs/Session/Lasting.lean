import Haklang.Proofs.Execution.Calls
import Haklang.Proofs.Session.Termination

/-!
# What lasts through sessions

From line to line a session runs trees, runs deferred calls, writes messages and changes the queue
of deferred calls. A relation between machines that holds across these four (`Machine.Lasts`) holds
from a session to the session behind any line, any source and any end, failing or not, and so from a
start to every session that comes about (`Session.Reachable.exists_start`).

A relation that spans calls lasts if it does not mind messages and the queue
(`Machine.Spans.lasts`). That the frames below the innermost one stay as they are lasts too, and a
session starts without calls, so between two lines there is no call in progress
(`Session.Reachable.calls_eq_nil`).
-/

namespace Haklang

open Haklang.Action

namespace Machine

/-- What sessions ask of a relation. -/
structure Lasts (R : Machine → Machine → Prop) : Prop where
  /-- A tree runs. -/
  tree : ∀ t, Respects R (Action.runTree t)
  /-- A call runs. -/
  call : ∀ name args, Respects R (Action.callee name args)
  /-- A message is written. -/
  message : ∀ m s, R m { m with console := m.console.note (.message s) }
  /-- The queue of deferred calls changes. -/
  queue : ∀ m deferred, R m { m with deferred }

/-- A relation that spans what programs do lasts if it spans messages and the queue, too. -/
theorem Spans.lasts {R : Machine → Machine → Prop} [IsPreorder Machine R] (hR : Spans R)
    (hmessage : ∀ m s, R m { m with console := m.console.note (.message s) })
    (hqueue : ∀ m deferred, R m { m with deferred }) : Lasts R where
  tree := hR.respects_runTree
  call := hR.respects_callee
  message := hmessage
  queue := hqueue

/-- Frames behind the innermost one last. -/
theorem lasts_sameOuter : Lasts SameOuter where
  tree t := Respects.get.bind fun m ↦ t.respects_run runs_sameOuter fun name args ↦
    (respects_callFunction m.depthLeft name args).mono SameFrames.sameOuter
  call name args := Respects.get.bind fun m ↦
    (respects_callFunction m.depthLeft name args).mono SameFrames.sameOuter
  message _ _ := ⟨rfl, rfl⟩
  queue _ _ := ⟨rfl, rfl⟩

end Machine

namespace Session

variable {R : Machine → Machine → Prop}

/-- What an action respects, a session respects that performs it. -/
theorem rel_perform {α : Type} {x : Action α} (hx : Respects R x) (s : Session) :
    R s.machine (s.perform x).2.machine := by
  rw [machine_perform]
  exact hx s.machine

variable [IsPreorder Machine R] (hR : Machine.Lasts R)
include hR

/-- A passage is one tree, or none. -/
theorem rel_runPassage (s : Session) (p : Passage) : R s.machine (s.runPassage p).2.machine := by
  unfold runPassage
  rcases Tree.ofPassage? p s.nextId with - | ⟨t, next⟩
  · exact refl_of R _
  · exact rel_perform (hR.tree _).discard { s with twice? := false, nextId := _ }

/-- A line completes a passage or changes nothing in the machine. -/
theorem rel_feed (s : Session) (text : String) (number : Nat) :
    R s.machine (s.feed text number).2.machine := by
  unfold feed
  dsimp only
  split
  · exact refl_of R _
  · rcases s.collector.push { number, text := Text.trimmed text } with ⟨collector, - | p⟩
    · exact refl_of R _
    · exact rel_runPassage hR { s with collector } p

/-- Lines in a row do what each of them does, up to the first that fails. -/
theorem rel_feedAll (s : Session) (number : Nat) (lines : List String) :
    R s.machine (s.feedAll number lines).2.machine := by
  induction lines generalizing s number with
  | nil => exact refl_of R _
  | cons text rest ih =>
    have hfeed := rel_feed hR s text number
    rw [feedAll]
    rcases h : s.feed text number with ⟨_ | _, s'⟩ <;> rw [h] at hfeed
    · exact hfeed
    · exact trans_of R hfeed (ih s' (number + 1))

/-- The induction is on the calls that may still run. -/
theorem rel_runDeferred (s : Session) (left : Nat) : R s.machine (s.runDeferred left).machine := by
  induction left generalizing s with
  | zero =>
    unfold runDeferred
    split
    · exact refl_of R _
    · exact trans_of R (hR.queue s.machine []) (hR.message _ _)
  | succ left ih =>
    unfold runDeferred
    split
    · exact refl_of R _
    case h_2 call rest _ =>
      have hcall := rel_perform (hR.call call.name call.args) { s with machine.deferred := rest }
      rcases h : perform { s with machine.deferred := rest } (callee call.name call.args) with
        ⟨d | _, s'⟩ <;> rw [h] at hcall
      · have hreport := hR.message s'.machine ((d.locate call.line).render ++ "\n")
        have hrest := ih (s'.report ((d.locate call.line).render ++ "\n"))
        exact trans_of R (hR.queue s.machine rest) (trans_of R hcall (trans_of R hreport hrest))
      · exact trans_of R (hR.queue s.machine rest) (trans_of R hcall (ih s'))

/-- The end is calls and messages. -/
theorem rel_finish (s : Session) : R s.machine s.finish.machine :=
  rel_runDeferred hR { s with collector := .idle, twice? := false } _

/-- A source is lines and an end. -/
theorem rel_runSource (s : Session) (source : String) :
    R s.machine (s.runSource source).2.machine := by
  unfold runSource
  dsimp only
  split
  · have hfeed := rel_feedAll hR s 1 (Text.lines source)
    rcases h : s.feedAll 1 (Text.lines source) with ⟨_ | _, s'⟩ <;> rw [h] at hfeed
    · exact hfeed
    · exact trans_of R hfeed (rel_finish hR s')
  · exact hR.message s.machine _

/-- What lasts holds from a start to every session that comes about. -/
theorem Reachable.exists_start {s : Session} (hs : s.Reachable) :
    ∃ generator limits input, R (Session.start generator limits input).machine s.machine := by
  induction hs with
  | start generator limits input => exact ⟨generator, limits, input, refl_of R _⟩
  | feed _ text number ih =>
    obtain ⟨generator, limits, input, h⟩ := ih
    exact ⟨generator, limits, input, trans_of R h (rel_feed hR _ text number)⟩
  | runSource _ source ih =>
    obtain ⟨generator, limits, input, h⟩ := ih
    exact ⟨generator, limits, input, trans_of R h (rel_runSource hR _ source)⟩
  | finish _ ih =>
    obtain ⟨generator, limits, input, h⟩ := ih
    exact ⟨generator, limits, input, trans_of R h (rel_finish hR _)⟩

omit hR in
/-- Between two lines no call is in progress. -/
theorem Reachable.calls_eq_nil {s : Session} (hs : s.Reachable) : s.machine.store.calls = [] := by
  obtain ⟨generator, limits, input, h⟩ := hs.exists_start Machine.lasts_sameOuter
  exact List.eq_nil_of_length_eq_zero h.depth_eq

end Session

end Haklang

import Haklang.Proofs.Execution.Innermost
import Haklang.Proofs.Passage.Conservation
import Haklang.Proofs.Session.Deferred
import Haklang.Proofs.Session.WellTyped

/-!
# Sessions after failures

A session goes on after failures, wherever in blocks, loops and calls they were found. What it can
rely on then is collected in `Session.Intact`, and every session that comes about is intact
(`Session.Reachable.intact`).

Calls in progress are counted twice: the machine has a frame for each, and the evaluators are handed
what is left of the limit. The two add up to the limit at every moment on the way
(`Moment.During.depth_add_eq`), so there are never more frames than may be, and what is left is
nothing exactly where as many frames are open as may be. A line that fails has completed a passage,
so the collector is idle behind it, and the marker has been used up.
-/

open Relation (ReflTransGen)

namespace Haklang

open Haklang.Action

/-! ### Moments on the way -/

/-- Moments on the way while a session takes its next line, whatever line that may be, or reaches
the end of the source. -/
inductive Moment.During (s : Session) : Moment → Prop where
  /-- A line is about to run its tree. -/
  | line {text : String} {number : Nat} {p : Moment} (h : s.opening? text number = some p) :
    During s p
  /-- At the end of the source, some deferred calls have been attempted and the next one is about
  to be. -/
  | deferred {s' : Session} {log : List Session.Attempt}
    (hdrains : Session.Drains { s with collector := .idle, twice? := false } log s')
    (hlength : log.length < s.machine.limits.iterations) {call : DeferredCall}
    {rest : List DeferredCall} (hqueue : s'.machine.deferred = call :: rest) :
    During s ⟨s'.machine.depthLeft, .call call.name call.args,
      { s'.machine with deferred := rest }⟩
  /-- A moment on the way leads to another. -/
  | starts {p q : Moment} (hp : p.During s) (h : Starts p q) : During s q

namespace Moment

/-- The moments that occur are those on the way of the sessions that come about. -/
theorem occurs_iff {p : Moment} : p.Occurs ↔ ∃ s : Session, s.Reachable ∧ p.During s := by
  constructor
  · intro hp
    induction hp with
    | line hs h => exact ⟨_, hs, .line h⟩
    | deferred hs hdrains hlength hqueue => exact ⟨_, hs, .deferred hdrains hlength hqueue⟩
    | starts _ h ih =>
      obtain ⟨s, hs, hp⟩ := ih
      exact ⟨s, hs, hp.starts h⟩
  · rintro ⟨s, hs, hp⟩
    induction hp with
    | line h => exact .line hs h
    | deferred hdrains hlength hqueue => exact .deferred hs hdrains hlength hqueue
    | starts _ h ih => exact ih.starts h

variable {s : Session} {p q : Moment}

/-- What a moment of a line leads to is a moment of that line. -/
theorem During.reaches (hp : p.During s) (h : ReflTransGen Starts p q) : q.During s := by
  induction h with
  | refl => exact hp
  | tail _ h ih => exact ih.starts h

end Moment

/-! ### How deep calls are nested -/

/-- A moment leaves the frames below the innermost one alone, and the moments that it leads to are
in the same call or in one more. -/
theorem Starts.sameOuter_or_enters {p q : Moment} (h : Starts p q) :
    p.Enters q ∨ q.depth = p.depth ∧ Machine.SameOuter p.machine q.machine := by
  have hR := Machine.runs_sameOuter
  have hcall : ∀ depth name args, Respects Machine.SameOuter (callFunction depth name args) :=
    fun depth name args ↦ (respects_callFunction depth name args).mono Machine.SameFrames.sameOuter
  refine (h.rel_of hR.revises (Tree.kind_of_runs hR) hcall (p.task.kind_of_runs hR)).imp_right ?_
  exact fun ⟨hdepth, _, hrel⟩ ↦ ⟨hdepth, hrel⟩

/-- Whatever the task is, frames behind the innermost one stay as they are. -/
theorem Moment.sameOuter_after (p : Moment) : Machine.SameOuter p.machine p.after := by
  have hR := Machine.runs_sameOuter
  exact p.task.respects_run_of hR.revises (Tree.kind_of_runs hR)
    (fun name args ↦ (respects_callFunction p.depth name args).mono Machine.SameFrames.sameOuter)
    (p.task.kind_of_runs hR) p.machine

namespace Session

/-- A line that is about to run its tree has completed a passage that is no marker. -/
theorem exists_of_opening? {s : Session} {text : String} {number : Nat} {p : Moment}
    (h : s.opening? text number = some p) :
    ∃ c passage t next,
      s.collector.push { number, text := Text.trimmed text } = (c, some passage) ∧
        Tree.ofPassage? passage s.nextId = some (t, next) ∧
        p = ⟨s.machine.depthLeft, .tree (t.repeated s.twice? next).1, s.machine⟩ := by
  unfold opening? at h
  dsimp only at h
  split at h
  · cases h
  · obtain ⟨passage, hpush, h⟩ := Option.bind_eq_some_iff.mp h
    obtain ⟨⟨t, next⟩, htree, rfl⟩ := Option.map_eq_some_iff.mp h
    exact ⟨_, passage, t, next, Prod.ext rfl hpush, htree, rfl⟩

end Session

namespace Moment.During

variable {s : Session} {p : Moment}

/-- Frames of calls, and what is left to calls, add up to the limit. -/
theorem depth_add_eq (hs : s.machine.store.depth = 0) (hp : p.During s) :
    p.machine.store.depth + p.depth = s.machine.limits.callDepth ∧
      p.machine.limits = s.machine.limits := by
  induction hp with
  | line h =>
    obtain ⟨_, _, t, next, -, -, rfl⟩ := Session.exists_of_opening? h
    refine ⟨?_, rfl⟩
    show s.machine.store.depth + (s.machine.limits.callDepth - s.machine.store.depth) = _
    omega
  | @deferred s' _ hdrains =>
    have hkept : Machine.SameFrames s.machine s'.machine := hdrains.keeps.1
    have hdepth := hkept.sameOuter.depth_eq
    refine ⟨?_, hkept.limits⟩
    show s'.machine.store.depth + (s'.machine.limits.callDepth - s'.machine.store.depth) = _
    rw [hkept.limits]
    omega
  | @starts p q _ h ih =>
    obtain ⟨_, _, f, -, hdepth, -, -, -, hmachine⟩ | ⟨hdepth, hrel⟩ := h.sameOuter_or_enters
    · -- the body of the function runs in one more frame, with one less left
      have hframes : q.machine.store.depth = p.machine.store.depth + 1 := by
        rw [hmachine]
        exact Store.depth_eq_of_tail_frames_eq (Store.tail_frames_defineAll _ _)
      refine ⟨by omega, ?_⟩
      rw [hmachine]
      exact ih.2
    · rw [hrel.depth_eq, hdepth, hrel.limits]
      exact ih

end Moment.During

/-! ### What a failure leaves behind -/

/-- A line that completes a passage leaves no block open. -/
theorem Collector.eq_idle_of_push {c c' : Collector} {line : SourceLine} {p : Passage}
    (h : c.push line = (c', some p)) : c' = .idle := by
  have htakes := c.takes_push line
  rw [h] at htakes
  cases htakes <;> rfl

namespace Session

variable {s s' : Session} {text : String} {number : Nat} {d : Diagnostic}

/-- A line that fails has run its tree, and leaves no block open and no marker behind. -/
theorem feed_eq_error (h : s.feed text number = (.error d, s')) :
    s'.collector = .idle ∧ s'.twice? = false ∧
      ∃ p, s.opening? text number = some p ∧ p.Fails d := by
  unfold feed at h
  unfold opening?
  dsimp only at h ⊢
  split at h
  · cases h
  · rw [if_neg ‹_›]
    rcases hpush : s.collector.push { number, text := Text.trimmed text } with ⟨c, - | passage⟩
    · rw [hpush] at h
      cases h
    · rw [hpush] at h
      unfold runPassage at h
      rcases htree : Tree.ofPassage? passage s.nextId with - | ⟨t, next⟩
      · simp only [htree] at h
        cases h
      · simp only [htree] at h
        unfold perform at h
        cases hrun : discard (runTree (t.repeated s.twice? next).1) s.machine with
        | ok _ m' =>
          simp only [hrun] at h
          cases h
        | error d' m' =>
          simp only [hrun] at h
          cases h
          have hfails : Moment.Fails
            ⟨s.machine.depthLeft, .tree (t.repeated s.twice? next).1, s.machine⟩ d := ⟨m', hrun⟩
          refine ⟨Collector.eq_idle_of_push hpush, rfl, _, ?_, hfails⟩
          simp only [Option.bind_some, htree, Option.map_some]

/-- Lines fail at one of them, behind others that did not. -/
theorem feedAll_eq_error {texts : List String} (h : s.feedAll number texts = (.error d, s')) :
    ∃ before text after s₁, texts = before ++ text :: after ∧
      s.feedAll number before = (.ok (), s₁) ∧
      s₁.feed text (number + before.length) = (.error d, s') := by
  induction texts generalizing s number with
  | nil => cases h
  | cons text rest ih =>
    rw [feedAll] at h
    rcases hfeed : s.feed text number with ⟨d' | ⟨⟩, s₁⟩
    · rw [hfeed] at h
      cases h
      exact ⟨[], text, rest, s, rfl, rfl, hfeed⟩
    · rw [hfeed] at h
      obtain ⟨before, text', after, s₂, rfl, hbefore, hlast⟩ := ih h
      refine ⟨text :: before, text', after, s₂, rfl, ?_, ?_⟩
      · rw [feedAll, hfeed]
        exact hbefore
      · rwa [List.length_cons, Nat.add_comm before.length 1, ← Nat.add_assoc]

/-- Lines in a row lead from a reachable session to a reachable one. -/
theorem Reachable.feedAll (hs : s.Reachable) (number : Nat) (texts : List String) :
    (s.feedAll number texts).2.Reachable := by
  induction texts generalizing s number with
  | nil => exact hs
  | cons text rest ih =>
    have hfeed := hs.feed text number
    rw [Session.feedAll]
    rcases h : s.feed text number with ⟨d' | ⟨⟩, s₁⟩ <;> rw [h] at hfeed
    · exact hfeed
    · exact ih hfeed (number + 1)

/-- A source that fails does so at one of its lines. -/
theorem runSource_eq_error {source : String} (h : s.runSource source = (.error d, s')) :
    hasSentinel (Text.lines source) = true ∧
      s.feedAll 1 (Text.lines source) = (.error d, s') := by
  unfold runSource at h
  dsimp only at h
  split at h
  case isTrue hsentinel =>
    refine ⟨hsentinel, ?_⟩
    rcases hall : s.feedAll 1 (Text.lines source) with ⟨d' | _, s₁⟩ <;> rw [hall] at h <;> cases h
    rfl
  case isFalse => cases h

/-- A source that runs to its end takes all of its lines and ends. -/
theorem runSource_eq_completed {source : String}
    (h : s.runSource source = (.ok .completed, s')) :
    hasSentinel (Text.lines source) = true ∧
      ∃ s₁, s.feedAll 1 (Text.lines source) = (.ok (), s₁) ∧ s' = s₁.finish := by
  unfold runSource at h
  dsimp only at h
  split at h
  case isTrue hsentinel =>
    refine ⟨hsentinel, ?_⟩
    rcases hall : s.feedAll 1 (Text.lines source) with ⟨d' | ⟨⟩, s₁⟩ <;> rw [hall] at h <;> cases h
    exact ⟨s₁, rfl, rfl⟩
  case isFalse => cases h

/-- The end of a session leaves no block open, no marker behind and no call to run. -/
theorem finish_idle (s : Session) :
    s.finish.collector = .idle ∧ s.finish.twice? = false ∧ s.finish.machine.deferred = [] := by
  obtain ⟨log, s', hdrains, -, -, hrun⟩ :=
    exists_drains { s with collector := .idle, twice? := false } s.machine.limits.iterations
  have hfinish : s.finish = s'.cutOff := hrun
  obtain ⟨-, hcollector, htwice⟩ := hdrains.keeps
  obtain ⟨-, hcollector', htwice', hdeferred⟩ := s'.frames_cutOff
  rw [hfinish]
  exact ⟨hcollector'.trans hcollector, htwice'.trans htwice, hdeferred⟩

/-! ### Sessions that come about -/

/-- What can be relied on in a session, whatever has failed in it before. -/
structure Intact (s : Session) : Prop where
  /-- No call is in progress. -/
  depth : s.machine.store.depth = 0
  /-- The limits stay the same. -/
  limits : (∀ text number, (s.feed text number).2.machine.limits = s.machine.limits) ∧
    (∀ source, (s.runSource source).2.machine.limits = s.machine.limits) ∧
    s.finish.machine.limits = s.machine.limits
  /-- At every moment on the way, before the task and behind it, no more calls are in progress than
  may be. -/
  bounded : ∀ p : Moment, p.During s →
    p.machine.store.depth ≤ s.machine.limits.callDepth ∧
      p.after.store.depth ≤ s.machine.limits.callDepth
  /-- A failure that calls are nested too deeply is that of a call which finds as many in progress
  as may be. -/
  atLimit : ∀ p : Moment, p.During s → ∀ d, p.Fails d → d.fault.category = .callDepth →
    ∃ q name args, ReflTransGen Starts p q ∧ q.task = .call name args ∧
      q.machine.store.depth = s.machine.limits.callDepth ∧
      d.fault = .callDepth name s.machine.limits.callDepth ∧ q.Fails { fault := d.fault }
  /-- A line that fails does so at the moment at which it runs its tree. No block is open behind it,
  and no marker is remembered. -/
  feed : ∀ text number d s', s.feed text number = (.error d, s') →
    s'.collector = .idle ∧ s'.twice? = false ∧ ∃ p, s.opening? text number = some p ∧ p.Fails d
  /-- The same goes for a source that fails at one of its lines. -/
  runSource : ∀ source d s', s.runSource source = (.error d, s') →
    s'.collector = .idle ∧ s'.twice? = false ∧
      ∃ (s₁ : Session) (text : String) (number : Nat) (p : Moment),
        s₁.Reachable ∧ s₁.opening? text number = some p ∧ p.Fails d
  /-- At its end, no block is open, no marker is remembered and no call is left to run. -/
  finish : s.finish.collector = .idle ∧ s.finish.twice? = false ∧ s.finish.machine.deferred = []
  /-- The same goes for a source that has run to its end. -/
  completed : ∀ source s', s.runSource source = (.ok .completed, s') →
    s'.collector = .idle ∧ s'.twice? = false ∧ s'.machine.deferred = []

/-- Every session that comes about is intact, whatever lines were fed, sources run and ends reached
before, and whatever failed in them. -/
theorem Reachable.intact (hs : s.Reachable) : s.Intact := by
  have hdepth : s.machine.store.depth = 0 := congrArg List.length hs.calls_eq_nil
  refine ⟨hdepth, ⟨?_, ?_, ?_⟩, fun p hp ↦ ?_, fun p hp d hd hcategory ↦ ?_,
    fun _ _ _ _ ↦ feed_eq_error, fun source d s' h ↦ ?_, s.finish_idle, fun source s' h ↦ ?_⟩
  · exact fun text number ↦ (rel_feed Machine.lasts_sameOuter s text number).limits
  · exact fun source ↦ (rel_runSource Machine.lasts_sameOuter s source).limits
  · exact (rel_finish Machine.lasts_sameOuter s).limits
  · obtain ⟨hadd, -⟩ := hp.depth_add_eq hdepth
    have hafter := p.sameOuter_after.depth_eq
    omega
  · obtain ⟨q, name, args, hq, htask, hleft, hfault, hfails⟩ := hd.exists_call hcategory
    obtain ⟨hadd, hlimits⟩ := (hp.reaches hq).depth_add_eq hdepth
    rw [hlimits] at hfault hfails
    rw [← hfault] at hfails
    exact ⟨q, name, args, hq, htask, by omega, hfault, hfails⟩
  · obtain ⟨before, text, _, s₁, -, hbefore, hfeed⟩ := feedAll_eq_error (runSource_eq_error h).2
    obtain ⟨hcollector, htwice, p, hp, hfails⟩ := feed_eq_error hfeed
    have hs₁ := hs.feedAll 1 before
    rw [hbefore] at hs₁
    exact ⟨hcollector, htwice, s₁, text, _, p, hs₁, hp, hfails⟩
  · obtain ⟨-, s₁, -, rfl⟩ := runSource_eq_completed h
    exact s₁.finish_idle

/-- A session goes on behind a line that it did not recognize. -/
theorem Reachable.intact_unrecognized :
    ∃ s : Session, (Session.start (.ofSeed 0) {} []).feed "?" 1 =
      (.error { fault := .unrecognized "?", line? := some ⟨1, "?"⟩ }, s) ∧ s.Intact := by
  have hline : Line.ofString "?" = .statement (.unknown "?") := rfl
  have htree : Tree.ofPassage? { head := ⟨1, "?"⟩ } 0 =
      some (.statement 0 ⟨1, "?"⟩ (.unknown "?"), 1) := by
    rw [Tree.ofPassage?, hline]
  have hfeed := @feed_of_tree (Session.start (.ofSeed 0) {} []) ⟨1, "?"⟩
    ⟨rfl, by decide, by decide⟩ _ _ _ _ rfl htree
  refine ⟨_, hfeed, ?_⟩
  have hs := (Reachable.start (.ofSeed 0) {} []).feed "?" 1
  rw [hfeed] at hs
  exact hs.intact

end Session

end Haklang

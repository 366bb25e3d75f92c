import Haklang.Proofs.Execution.Moments
import Haklang.Proofs.Session.Batch
import Haklang.Proofs.Session.Deferred

/-!
# Variables are well-typed throughout sessions

Every variable of every frame holds a value of its type and no truth value, and no truth value is on
the stack. This holds between the lines of a session, and at every moment while a line or a deferred
call runs.

A moment occurs in a session (`Moment.Occurs`) if it is that of a tree which a line is about to run
(`Session.opening?`), or that of a deferred call which is about to be attempted, or if another
moment that occurs leads to it. No failure hinders that: a line may be fed to whatever session the
lines before it have left behind. Running a source feeds its lines one by one and so adds no
moments.

The argument has one step. To keep stores well-typed is a relation between machines that spans calls
(`Machine.spans_keepsTypes`), since the store admits everything that is written. So it lasts through
sessions, and it holds from every moment to those that it leads to.
-/

namespace Haklang

open Haklang.Action

namespace Machine

/-- The store is well-typed if it was. -/
def KeepsTypes (m m' : Machine) : Prop := m.store.WellTyped → m'.store.WellTyped

instance : IsPreorder Machine KeepsTypes where
  refl _ h := h
  trans _ _ _ h h' := fun hm ↦ h' (h hm)

/-- To keep types spans whatever statements do. -/
theorem spans_keepsTypes : Spans KeepsTypes where
  put _ _ _ hv h := h.put hv
  push _ _ _ hv h := h.push (h.of_lookup? hv).plain
  pop _ h := h.tail_stack
  note _ _ _ h := h
  readLine _ h := h
  generator _ _ h := h
  defer _ _ h := h
  function _ _ _ h := ⟨h.frames, h.stack⟩
  chosen _ _ h := h
  enter _ h := h.enter
  exit _ h := h.exit

/-- So it lasts through lines and calls. -/
theorem lasts_keepsTypes : Lasts KeepsTypes :=
  spans_keepsTypes.lasts (fun _ _ h ↦ h) fun _ _ h ↦ h

end Machine

/-! ### Between lines -/

namespace Session

/-- Between two lines, the store is well-typed. -/
theorem Reachable.store_wellTyped {s : Session} (hs : s.Reachable) : s.machine.store.WellTyped := by
  obtain ⟨_, _, _, h⟩ := hs.exists_start Machine.lasts_keepsTypes
  exact h Store.wellTyped_empty

/-! ### Where moments start -/

/-- The moment at which a line is about to run, if it completes a passage that is no marker: that of
the tree of the passage. -/
def opening? (s : Session) (text : String) (number : Nat) : Option Moment :=
  let text := Text.trimmed text
  if text = "" ∨ text = Line.sentinel then none
  else
    (s.collector.push { number, text }).2.bind fun p ↦
      (Tree.ofPassage? p s.nextId).map fun (t, nextId) ↦
        ⟨s.machine.depthLeft, .tree (t.repeated s.twice? nextId).1, s.machine⟩

/-- A line does to the machine what its tree does, and nothing if it has none. -/
theorem machine_feed (s : Session) (text : String) (number : Nat) :
    (s.feed text number).2.machine =
      ((s.opening? text number).map Moment.after).getD s.machine := by
  unfold feed opening?
  dsimp only
  split
  · rfl
  · rcases s.collector.push { number, text := Text.trimmed text } with ⟨collector, - | p⟩
    · rfl
    · show (runPassage { s with collector } p).2.machine = _
      unfold runPassage
      dsimp only [Option.bind_some]
      rcases Tree.ofPassage? p s.nextId with - | ⟨t, next⟩
      · rfl
      · exact machine_perform _ _

/-- The tree of a passage that a line completes is about to run. -/
theorem opening?_of_tree {s : Session} {line : SourceLine} (hline : line.Counts) {c : Collector}
    {p : Passage} {t : Tree} {next : Nat} (h : s.collector.push line = (c, some p))
    (hp : Tree.ofPassage? p s.nextId = some (t, next)) :
    s.opening? line.text line.number =
      some ⟨s.machine.depthLeft, .tree (t.repeated s.twice? next).1, s.machine⟩ := by
  unfold opening?
  simp only [hline.trimmed, hline.ne_empty, hline.ne_sentinel, or_self, if_false, h,
    Option.bind_some, hp, Option.map_some]

/-- A line that runs starts on the machine as it is. -/
theorem machine_of_opening? {s : Session} {text : String} {number : Nat} {p : Moment}
    (h : s.opening? text number = some p) : p.machine = s.machine := by
  unfold opening? at h
  dsimp only at h
  split at h
  · cases h
  · obtain ⟨_, -, h⟩ := Option.bind_eq_some_iff.mp h
    obtain ⟨_, -, rfl⟩ := Option.map_eq_some_iff.mp h
    rfl

end Session

/-! ### Moments -/

/-- Moments that occur in a session. -/
inductive Moment.Occurs : Moment → Prop where
  /-- A line is about to run its tree. -/
  | line {s : Session} (hs : s.Reachable) {text : String} {number : Nat} {p : Moment}
    (h : s.opening? text number = some p) : Occurs p
  /-- At the end of the source, some deferred calls have been attempted and the next one is about
  to be. -/
  | deferred {s s' : Session} (hs : s.Reachable) {log : List Session.Attempt}
    (hdrains : Session.Drains { s with collector := .idle, twice? := false } log s')
    (hlength : log.length < s.machine.limits.iterations) {call : DeferredCall}
    {rest : List DeferredCall} (hqueue : s'.machine.deferred = call :: rest) :
    Occurs ⟨s'.machine.depthLeft, .call call.name call.args,
      { s'.machine with deferred := rest }⟩
  /-- A moment that occurs leads to another. -/
  | starts {p q : Moment} (hp : p.Occurs) (h : Starts p q) : Occurs q

/-- At every moment that occurs, the store is well-typed. -/
theorem Moment.Occurs.store_wellTyped {p : Moment} (hp : p.Occurs) :
    p.machine.store.WellTyped := by
  induction hp with
  | line hs h =>
    rw [Session.machine_of_opening? h]
    exact hs.store_wellTyped
  | deferred hs hdrains => exact hdrains.rel Machine.lasts_keepsTypes hs.store_wellTyped
  | starts _ h ih => exact h.rel Machine.spans_keepsTypes ih

/-- Machines that occur in a session: between its lines, and before and behind whatever is carried
out while a line or a deferred call runs, at any depth of blocks, loops and calls. -/
inductive Machine.Occurs : Machine → Prop where
  /-- Between two lines. -/
  | between {s : Session} (hs : s.Reachable) : Occurs s.machine
  /-- Before a task. -/
  | before {p : Moment} (hp : p.Occurs) : Occurs p.machine
  /-- Behind a task, which may have failed. -/
  | behind {p : Moment} (hp : p.Occurs) : Occurs p.after

/-- A session in which a function `f` with a parameter and an empty body has been defined. -/
theorem Session.reachable_defined :
    Reachable { start (.ofSeed 0) {} [] with
      machine.store := Store.defineFunction {} "f" { params := ["x"], body := [] }
      nextId := 1 } := by
  have hheader : Line.ofString "[f]미쉥물 연료[x]전줴" = .header (.function "f" ["x"]) := rfl
  have htree : Tree.ofPassage? { head := ⟨1, "[f]미쉥물 연료[x]전줴"⟩ } 0 =
      some (.block 0 ⟨1, "[f]미쉥물 연료[x]전줴"⟩ (.function "f" ["x"]) [], 1) := by
    simp [Tree.ofPassage?, Tree.ofLines, Passage.ofLines, Collector.gather, Tree.ofPassages,
      hheader, BlockHead.ofHeader]
  let opened : Session :=
    { start (.ofSeed 0) {} [] with collector := .inside ⟨1, "[f]미쉥물 연료[x]전줴"⟩ #[] 0 true }
  have hopen : (start (.ofSeed 0) {} []).feed "[f]미쉥물 연료[x]전줴" 1 = (.ok (), opened) :=
    @feed_of_none _ ⟨1, "[f]미쉥물 연료[x]전줴"⟩ ⟨rfl, by decide, by decide⟩ _ rfl
  have hopened : opened.Reachable := by
    have h := (Reachable.start (.ofSeed 0) {} []).feed "[f]미쉥물 연료[x]전줴" 1
    rwa [hopen] at h
  have hclose := @feed_of_tree opened ⟨2, "\x7d그챼"⟩ ⟨rfl, by decide, by decide⟩ _ _ _ _ rfl htree
  have hclosed := hopened.feed "\x7d그챼" 2
  rw [hclose] at hclosed
  exact hclosed

/-- Variables are well-typed throughout sessions. Whatever lines are fed, sources run and ends
reached, in any order and also after failures, and wherever the session stands, between two lines or
in the middle of a call: every variable of every frame holds a value of its type that is no truth
value, and no truth value is on the stack. -/
theorem Machine.Occurs.wellTyped {m : Machine} (hm : m.Occurs) :
    (∀ f ∈ m.store.frames, ∀ name v, f.find? name = some v →
      (∀ b, v.value ≠ .bool b) ∧ v.value.typeTag = v.tag) ∧
    ∀ v ∈ m.store.stack, ∀ b, v ≠ .bool b := by
  have hstore : m.store.WellTyped := by
    cases hm with
    | between hs => exact hs.store_wellTyped
    | before hp => exact hp.store_wellTyped
    | behind hp => exact Moment.rel_after spans_keepsTypes _ hp.store_wellTyped
  refine ⟨fun f hf name v hv ↦ ?_, hstore.stack⟩
  have hv := hstore.frames f hf name v hv
  exact ⟨hv.plain, hv.typeTag⟩

/-- A function with a parameter is defined and called with a truth value, and the call has just
begun. The parameter holds an integer. -/
theorem Machine.Occurs.wellTyped_parameter :
    ∃ m : Machine, m.Occurs ∧ m.store.depth = 1 ∧
      ((m.store.lookup? "x").map fun v ↦ (v.value, v.tag)) = some (.int 1, .item .int) ∧
      (∀ f ∈ m.store.frames, ∀ name v, f.find? name = some v →
        (∀ b, v.value ≠ .bool b) ∧ v.value.typeTag = v.tag) ∧
      ∀ v ∈ m.store.stack, ∀ b, v ≠ .bool b := by
  have hline : Line.ofString "[f](야오루폐)" = .statement (.call "f" [.bool true]) := by
    have harg : Expr.ofChars "야오루폐".toList = .bool true := by
      rw [Expr.ofChars_eq]
      rfl
    show Line.statement (.call "f" [Expr.ofChars "야오루폐".toList]) = _
    rw [harg]
  have htree : Tree.ofPassage? { head := ⟨3, "[f](야오루폐)"⟩ } 1 =
      some (.statement 1 ⟨3, "[f](야오루폐)"⟩ (.call "f" [.bool true]), 2) := by
    rw [Tree.ofPassage?, hline]
  let s : Session :=
    { Session.start (.ofSeed 0) {} [] with
      machine.store := Store.defineFunction {} "f" { params := ["x"], body := [] }
      nextId := 1 }
  have hopening := @Session.opening?_of_tree s ⟨3, "[f](야오루폐)"⟩ ⟨rfl, by decide, by decide⟩
    _ _ _ _ rfl htree
  have hmoment := (Moment.Occurs.line Session.reachable_defined hopening).starts .treeStatement
  have hcall := hmoment.starts (@Starts.call _ _ _ _ _ [.bool true] _ rfl)
  have hoccurs := Machine.Occurs.before (hcall.starts (.functionBody rfl rfl))
  exact ⟨_, hoccurs, rfl, rfl, hoccurs.wellTyped⟩

end Haklang

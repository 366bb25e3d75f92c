import Haklang.Proofs.Action.Respects
import Haklang.Session

/-!
# Line by line, or all at once

A session runs a passage as soon as its last line has been taken. The same comes out when all lines
are built into trees first and the trees are run in order after that: the same outcome, and the same
machine, with all that it holds.

Between two lines a session has done a part of the batch, and what is left of it is known from three
fields: the collector says how the lines to come will be gathered, `twice?` whether the first of
their trees runs twice, and `nextId` how the trees are numbered (`outcome_feedEach`). So the trees
that a session builds one by one are those of the batch, with the same numbers, and a function
defined on the way has the same body.
-/

namespace Haklang

/-- Runs trees in order, up to the first that fails. A signal that no loop and no call takes notice
of has no effect. -/
def Action.runEach : List Tree → Action Unit
  | [] => pure ()
  | t :: rest => do
    discard (Action.runTree t)
    runEach rest

/-- The first of the trees runs, and the others run after it if it does not fail. -/
theorem Action.outcome_runEach_cons (t : Tree) (rest : List Tree) (m : Machine) :
    (runEach (t :: rest)).outcome m =
      match (discard (runTree t)).outcome m with
      | (.ok _, m) => (runEach rest).outcome m
      | (.error d, m) => (.error d, m) := by
  simp only [runEach, outcome]
  cases h : discard (runTree t) m with
  | ok _ m => rw [bind_of_ok h]
  | error d m => rw [bind_of_error h]

/-- A line that a session does not skip: its text has no blanks at the ends, and it is neither
empty nor the word that programs start with. -/
structure SourceLine.Counts (line : SourceLine) : Prop where
  /-- There are no blanks at the ends. -/
  trimmed : Text.trimmed line.text = line.text
  /-- The line is not empty. -/
  ne_empty : line.text ≠ ""
  /-- The line is not the word that programs start with. -/
  ne_sentinel : line.text ≠ Line.sentinel

namespace Session

/-- Takes lines, each with a number of its own, up to the first that fails. -/
def feedEach (s : Session) : List SourceLine → Except Diagnostic Unit × Session
  | [] => (.ok (), s)
  | line :: rest =>
    match s.feed line.text line.number with
    | (.ok _, s) => s.feedEach rest
    | (.error d, s) => (.error d, s)

/-- Lines that are numbered in order. -/
theorem feedAll_eq_feedEach (s : Session) (number : Nat) (texts : List String) :
    s.feedAll number texts =
      s.feedEach (texts.zipIdx number |>.map fun p ↦ { number := p.2, text := p.1 }) := by
  induction texts generalizing s number with
  | nil => rfl
  | cons text rest ih =>
    rw [List.zipIdx_cons, List.map_cons, feedAll, feedEach]
    rcases s.feed text number with ⟨_ | _, s'⟩
    · rfl
    · exact ih s' (number + 1)

/-! ### One line -/

variable {s : Session} {line : SourceLine}

/-- A line that completes no passage only moves the collector. -/
theorem feed_of_none (hline : line.Counts) {c : Collector}
    (h : s.collector.push line = (c, none)) :
    s.feed line.text line.number = (.ok (), { s with collector := c }) := by
  unfold feed
  simp only [hline.trimmed, hline.ne_empty, hline.ne_sentinel, or_self, if_false, h]

/-- A line that completes a passage runs it. -/
theorem feed_of_some (hline : line.Counts) {c : Collector} {p : Passage}
    (h : s.collector.push line = (c, some p)) :
    s.feed line.text line.number = { s with collector := c }.runPassage p := by
  unfold feed
  simp only [hline.trimmed, hline.ne_empty, hline.ne_sentinel, or_self, if_false, h]

/-- The marker is remembered for the passage after it. -/
theorem feed_of_marker (hline : line.Counts) {c : Collector} {p : Passage}
    (h : s.collector.push line = (c, some p)) (hp : Tree.ofPassage? p s.nextId = none) :
    s.feed line.text line.number = (.ok (), { s with collector := c, twice? := true }) := by
  rw [feed_of_some hline h]
  simp only [runPassage, hp]

/-- A passage that is built into a tree runs, twice behind a marker. -/
theorem feed_of_tree (hline : line.Counts) {c : Collector} {p : Passage} {t : Tree} {next : Nat}
    (h : s.collector.push line = (c, some p))
    (hp : Tree.ofPassage? p s.nextId = some (t, next)) :
    s.feed line.text line.number =
      { s with
        collector := c, twice? := false, nextId := (t.repeated s.twice? next).2 }.perform
        (discard (Action.runTree (t.repeated s.twice? next).1)) := by
  rw [feed_of_some hline h]
  simp only [runPassage, hp]

/-! ### All lines -/

/-- What is left of the batch when a session stands between two lines: the trees of the passages to
come. -/
def batch (s : Session) (lines : List SourceLine) : List Tree :=
  (Tree.ofPassages (s.collector.gather lines).1 s.twice? s.nextId).1

/-- A line that completes no passage leaves the batch as it is. -/
theorem batch_cons_of_none {c : Collector} {lines : List SourceLine}
    (h : s.collector.push line = (c, none)) :
    s.batch (line :: lines) = batch { s with collector := c } lines := by
  simp [batch, Collector.gather, h]

/-- A passage that is the marker leaves the batch as it is. -/
theorem batch_cons_of_marker {c : Collector} {p : Passage} {lines : List SourceLine}
    (h : s.collector.push line = (c, some p)) (hp : Tree.ofPassage? p s.nextId = none) :
    s.batch (line :: lines) = batch { s with collector := c, twice? := true } lines := by
  simp [batch, Collector.gather, h, Tree.ofPassages, hp]

/-- A passage that is built into a tree puts the tree at the head of the batch. -/
theorem batch_cons_of_tree {c : Collector} {p : Passage} {lines : List SourceLine} {t : Tree}
    {next : Nat} (h : s.collector.push line = (c, some p))
    (hp : Tree.ofPassage? p s.nextId = some (t, next)) :
    s.batch (line :: lines) = (t.repeated s.twice? next).1 ::
      batch { s with collector := c, twice? := false, nextId := (t.repeated s.twice? next).2 }
        lines := by
  simp [batch, Collector.gather, h, Tree.ofPassages, hp]

/-- The answer of a step and the machine behind it, without the rest of the session. -/
def outcome (r : Except Diagnostic Unit × Session) : Except Diagnostic Unit × Machine :=
  (r.1, r.2.machine)

theorem outcome_perform (s : Session) (x : Action Unit) :
    outcome (s.perform x) = x.outcome s.machine := by
  rw [perform, Action.outcome]
  cases x s.machine <;> rfl

/-- Line by line comes to the same as the rest of the batch, from wherever a session stands. The
induction is on the lines; what the lines before left behind is in the fields of the session. -/
theorem outcome_feedEach (s : Session) (lines : List SourceLine)
    (hlines : ∀ line ∈ lines, line.Counts) :
    outcome (s.feedEach lines) = (Action.runEach (s.batch lines)).outcome s.machine := by
  induction lines generalizing s with
  | nil =>
    have hbatch : s.batch [] = [] := by simp [batch, Collector.gather, Tree.ofPassages]
    rw [hbatch]
    rfl
  | cons line rest ih =>
    have hline : line.Counts := hlines line (by simp)
    replace ih := fun s : Session ↦ ih s fun l hl ↦ hlines l (by simp [hl])
    rw [feedEach]
    obtain ⟨c, p?, hpush⟩ : ∃ c p?, s.collector.push line = (c, p?) := ⟨_, _, rfl⟩
    rcases p? with _ | p
    · -- the line is only gathered
      rw [feed_of_none hline hpush, batch_cons_of_none hpush]
      exact ih _
    · rcases hp : Tree.ofPassage? p s.nextId with _ | ⟨t, next⟩
      · -- the marker is remembered
        rw [feed_of_marker hline hpush hp, batch_cons_of_marker hpush hp]
        exact ih _
      · -- a tree runs, and the numbers go on behind it
        rw [feed_of_tree hline hpush hp, batch_cons_of_tree hpush hp, Action.outcome_runEach_cons,
          perform, Action.outcome]
        cases discard (Action.runTree (t.repeated s.twice? next).1) s.machine with
        | ok _ m => exact ih _
        | error d m => rfl

/-- At the start all of the batch is left. -/
theorem batch_start (generator : Generator) (limits : Limits) (input : List String)
    (lines : List SourceLine) :
    (start generator limits input).batch lines = (Tree.ofLines lines 0).1 := by
  rw [Tree.ofLines]
  rfl

/-- A session at its start that takes lines one by one, up to the first that fails, comes to the
same as the batch: all lines are built into trees, and the trees are run in order, up to the first
that fails. The outcome and the whole machine are the same. A block that is still open and a marker
before nothing are no trees, and so they have no effect on either side. -/
theorem feedEach_start_eq_runEach (generator : Generator) (limits : Limits) (input : List String)
    (lines : List SourceLine) (hlines : ∀ line ∈ lines, line.Counts) :
    ((start generator limits input).feedEach lines).1 =
      ((start generator limits input).perform (Action.runEach (Tree.ofLines lines 0).1)).1 ∧
    ((start generator limits input).feedEach lines).2.machine =
      ((start generator limits input).perform
        (Action.runEach (Tree.ofLines lines 0).1)).2.machine := by
  rw [← batch_start generator limits input lines]
  refine Prod.ext_iff.mp (?_ : outcome _ = outcome _)
  rw [outcome_feedEach _ lines hlines, outcome_perform]

/-- A marked declaration, and a block behind it that stays open. -/
theorem feedEach_start_eq_runEach_open :
    (∀ line ∈ ([⟨1, "두그릇"⟩, ⟨2, "\x7bBMI30\x7d[a]"⟩, ⟨3, "학범이는비만이아님"⟩] : List SourceLine),
      line.Counts) ∧
    ((start (.ofSeed 0) {} []).feedEach
        [⟨1, "두그릇"⟩, ⟨2, "\x7bBMI30\x7d[a]"⟩, ⟨3, "학범이는비만이아님"⟩]).1 =
      ((start (.ofSeed 0) {} []).perform (Action.runEach (Tree.ofLines
        [⟨1, "두그릇"⟩, ⟨2, "\x7bBMI30\x7d[a]"⟩, ⟨3, "학범이는비만이아님"⟩] 0).1)).1 ∧
    ((start (.ofSeed 0) {} []).feedEach
        [⟨1, "두그릇"⟩, ⟨2, "\x7bBMI30\x7d[a]"⟩, ⟨3, "학범이는비만이아님"⟩]).2.machine =
      ((start (.ofSeed 0) {} []).perform (Action.runEach (Tree.ofLines
        [⟨1, "두그릇"⟩, ⟨2, "\x7bBMI30\x7d[a]"⟩, ⟨3, "학범이는비만이아님"⟩] 0).1)).2.machine := by
  have hlines : ∀ line ∈
      ([⟨1, "두그릇"⟩, ⟨2, "\x7bBMI30\x7d[a]"⟩, ⟨3, "학범이는비만이아님"⟩] : List SourceLine),
      line.Counts := by
    simp only [List.forall_mem_cons]
    exact ⟨⟨rfl, by decide, by decide⟩, ⟨rfl, by decide, by decide⟩, ⟨rfl, by decide, by decide⟩,
      by simp⟩
  exact ⟨hlines, feedEach_start_eq_runEach (.ofSeed 0) {} [] _ hlines⟩

end Session

end Haklang

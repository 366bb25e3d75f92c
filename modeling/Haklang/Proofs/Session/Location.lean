import Haklang.Proofs.Execution.Known
import Haklang.Proofs.Session.Integrity

/-!
# Where failures are reported

The lines that a session has been fed are all the source that it has: trees are built from them, and
functions and deferred calls remember them (`Session.Fed.knowsOnly`). So what fails is reported at
one of them, and it is the line of the innermost tree that failed, whatever the trees, loops and
calls around it (`Moment.Blames`). A call that fails in the body of its function is reported there,
and not where it was made.

The same goes for deferred calls, except for those that fail before the body of the function is
entered. No tree has failed then, and the line is that of the statement that put the call off.
-/

open Relation (ReflTransGen)

namespace Haklang

open Haklang.Action

/-! ### Entering functions -/

/-- A line that was given stays. -/
theorem Diagnostic.locate_of_ne_none {d : Diagnostic} (h : d.line? ≠ none) (line : SourceLine) :
    d.locate line = d := by
  obtain ⟨l, hl⟩ := Option.ne_none_iff_exists'.1 h
  rw [locate, hl, Option.getD_some, ← hl]

namespace Moment

variable {p q c b : Moment} {d : Diagnostic} {lines : List SourceLine}

/-- A body that is entered is started. -/
theorem Enters.starts (h : c.Enters b) : Starts c b := by
  obtain ⟨n, task, m⟩ := c
  obtain ⟨k, task', m'⟩ := b
  obtain ⟨name, args, f, htask, hdepth, hf, hargs, htask', hmachine⟩ := h
  dsimp only at htask hdepth hf htask' hmachine
  subst htask hdepth htask' hmachine
  exact .functionBody hf hargs

/-- A call leads to nothing but the body of its function. -/
theorem enters_of_starts {name : String} {args : List Value} (hc : c.task = .call name args)
    (h : Starts c b) : c.Enters b := by
  obtain ⟨n, task, m⟩ := c
  cases hc
  cases h with
  | functionBody hf hargs => exact ⟨_, _, _, rfl, rfl, hf, hargs, rfl, rfl⟩

/-- A call that has entered the body fails as the body does, at a line of its own. -/
theorem Enters.fails (h : c.Enters b) (hc : c.Fails d) : b.Fails d ∧ d.line? ≠ none := by
  obtain ⟨n, task, m⟩ := c
  obtain ⟨k, task', m'⟩ := b
  obtain ⟨name, args, f, htask, hdepth, hf, hargs, htask', hmachine⟩ := h
  dsimp only at htask hdepth hf htask' hmachine
  subst htask hdepth htask' hmachine
  have hbody := (fails_call_iff hf hargs).1 hc
  exact ⟨hbody, line_ne_none_of_trees hbody⟩

/-! ### The line of a failure -/

/-- The moment fails, and what is reported is the line of the innermost tree that failed, which is
written in the given lines. -/
structure Blames (lines : List SourceLine) (p : Moment) (d : Diagnostic) : Prop where
  /-- The moment fails with the diagnostic. -/
  fails : p.Fails d
  /-- There is an innermost tree that failed. -/
  exists_innermost : ∃ q t, p.Innermost q t
  /-- Its line is reported, which is one of the given lines and reads as the tree. -/
  line : ∀ q t, p.Innermost q t → d.line? = some t.line ∧ t.line ∈ lines ∧ t.WrittenIn lines
  /-- If a call on the way fails in the body of its function, the innermost tree that failed is
  reached from the body. -/
  call : ∀ c b, ReflTransGen Starts p c → c.Enters b → (∃ d', c.Fails d') →
    ∃ q t, b.Innermost q t ∧ p.Innermost q t ∧ d.line? = some t.line

/-- What is reported with a line is reported at the innermost tree that failed. -/
theorem Within.blames (hp : p.Within lines) (h : p.Fails d) (hd : d.line? ≠ none) :
    p.Blames lines d := by
  refine ⟨h, h.exists_innermost hd, fun q t hq ↦ ?_, fun c b hc hb ⟨d', hd'⟩ ↦ ?_⟩
  · have hwritten := (hp.reaches hq.reached).task
    rw [hq.task] at hwritten
    have hwritten : t.WrittenIn lines := hwritten
    exact ⟨hq.line_eq h, hwritten.line_mem, hwritten⟩
  · obtain ⟨hbody, hline⟩ := hb.fails hd'
    obtain ⟨q, t, hq⟩ := hbody.exists_innermost hline
    have hinner : p.Innermost q t := hq.of_reaches (hc.tail hb.starts)
    exact ⟨q, t, hq, hinner, hinner.line_eq h⟩

/-- A call that fails once it has entered the body of its function is reported there, whatever line
it is to be reported at otherwise. -/
theorem Enters.blames (h : c.Enters b) (hc : c.Within lines) (hd : c.Fails d) (line : SourceLine) :
    b.Blames lines (d.locate line) := by
  obtain ⟨hfails, hline⟩ := h.fails hd
  rw [Diagnostic.locate_of_ne_none hline]
  exact (hc.starts h.starts).blames hfails hline

/-- A call that fails before that has no line yet. -/
theorem line_eq_none_of_not_enters {name : String} {args : List Value}
    (hc : c.task = .call name args) (h : ∀ b, ¬ c.Enters b) (hd : c.Fails d) : d.line? = none := by
  obtain hfinds | ⟨b, _, hb, -⟩ := hd.cases
  · exact hfinds.line
  · exact absurd (enters_of_starts hc hb) (h b)

end Moment

/-! ### The lines that a session is fed -/

/-- Lines with the numbers that they have from a given one on, without the blanks at their ends. -/
def Text.numbered (number : Nat) (texts : List String) : List SourceLine :=
  (texts.zipIdx number).map fun p ↦ { number := p.2, text := Text.trimmed p.1 }

namespace Session

/-- A session that has been fed the lines, in order, since its start. A source feeds its lines
(`Fed.runSource`), unless it does not start with the word that every program starts with. -/
inductive Fed : List SourceLine → Session → Prop where
  /-- A session at its start. -/
  | start (generator : Generator) (limits : Limits) (input : List String) :
    Fed [] (.start generator limits input)
  /-- A line has been taken. -/
  | feed {lines : List SourceLine} {s : Session} (h : Fed lines s) (text : String) (number : Nat) :
    Fed (lines ++ [{ number, text := Text.trimmed text }]) (s.feed text number).2
  /-- A source has been refused. -/
  | refuse {lines : List SourceLine} {s : Session} (h : Fed lines s) {source : String}
    (hsource : hasSentinel (Text.lines source) = false) : Fed lines (s.runSource source).2
  /-- The source has ended. -/
  | finish {lines : List SourceLine} {s : Session} (h : Fed lines s) : Fed lines s.finish

variable {lines : List SourceLine} {s s' : Session} {d : Diagnostic}

/-- Lines that have been fed one after the other are all among those fed. -/
theorem Fed.feedAll {number : Nat} {texts : List String} (hs : s.Fed lines)
    (h : s.feedAll number texts = (.ok (), s')) : s'.Fed (lines ++ Text.numbered number texts) := by
  induction texts generalizing s lines number with
  | nil =>
    cases h
    rw [Text.numbered, List.zipIdx_nil, List.map_nil, List.append_nil]
    exact hs
  | cons text rest ih =>
    rw [Session.feedAll] at h
    have hfeed := hs.feed text number
    rcases hline : s.feed text number with ⟨d | ⟨⟩, s₁⟩ <;> rw [hline] at h hfeed
    · cases h
    · have hrest := ih hfeed h
      rwa [List.append_assoc] at hrest

/-- A source feeds its lines, up to the first that fails. -/
theorem Fed.runSource (hs : s.Fed lines) (source : String) :
    ∃ texts, texts <+: Text.lines source ∧
      (s.runSource source).2.Fed (lines ++ Text.numbered 1 texts) := by
  rcases hsource : hasSentinel (Text.lines source) with - | -
  · refine ⟨[], List.nil_prefix, ?_⟩
    rw [Text.numbered, List.zipIdx_nil, List.map_nil, List.append_nil]
    exact hs.refuse hsource
  · unfold Session.runSource
    rw [if_pos hsource]
    rcases hall : s.feedAll 1 (Text.lines source) with ⟨d | ⟨⟩, s'⟩
    · obtain ⟨before, text, after, s₁, hlines, hbefore, hfeed⟩ := feedAll_eq_error hall
      refine ⟨before ++ [text], ⟨after, by rw [hlines, List.append_assoc]; rfl⟩, ?_⟩
      have hlast := (hs.feedAll hbefore).feed text (1 + before.length)
      rw [hfeed, List.append_assoc] at hlast
      rwa [Text.numbered, List.zipIdx_append, List.map_append]
    · exact ⟨Text.lines source, List.prefix_refl _, (hs.feedAll hall).finish⟩

/-- Every session that comes about has been fed some lines. -/
theorem Reachable.exists_fed (hs : s.Reachable) : ∃ lines, s.Fed lines := by
  induction hs with
  | start generator limits input => exact ⟨[], .start generator limits input⟩
  | feed _ text number ih =>
    obtain ⟨lines, h⟩ := ih
    exact ⟨_, h.feed text number⟩
  | runSource _ source ih =>
    obtain ⟨lines, h⟩ := ih
    obtain ⟨texts, -, h⟩ := h.runSource source
    exact ⟨_, h⟩
  | finish _ ih =>
    obtain ⟨lines, h⟩ := ih
    exact ⟨lines, h.finish⟩

/-! ### What sessions know -/

/-- What is held is still among the lines when one more has come. -/
theorem held_append_subset (hheld : s.collector.held ⊆ lines) (line : SourceLine) :
    s.collector.held ++ [line] ⊆ lines ++ [line] :=
  List.append_subset.2
    ⟨List.Subset.trans hheld (List.subset_append_left _ _), List.subset_append_right _ _⟩

/-- Behind a line, nothing is held but that line and what was held before. -/
theorem held_feed_subset (s : Session) (text : String) (number : Nat) :
    (s.feed text number).2.collector.held ⊆
      s.collector.held ++ [{ number, text := Text.trimmed text }] := by
  have hpush : ∀ c passage?,
      s.collector.push { number, text := Text.trimmed text } = (c, passage?) →
        c.held ⊆ s.collector.held ++ [{ number, text := Text.trimmed text }] := fun _ _ h ↦
    List.Subset.trans (List.subset_append_right _ _) (Collector.lines_subset_of_push h)
  unfold feed
  dsimp only
  split
  · exact List.subset_append_left _ _
  · rcases h : s.collector.push { number, text := Text.trimmed text } with ⟨c, - | passage⟩
    · exact hpush c _ h
    · have hrun : (runPassage { s with collector := c } passage).2.collector = c := by
        unfold runPassage
        rcases Tree.ofPassage? passage s.nextId with - | ⟨t, next⟩
        · rfl
        · dsimp only
          unfold perform
          split <;> rfl
      show (runPassage { s with collector := c } passage).2.collector.held ⊆ _
      rw [hrun]
      exact hpush c _ h

/-- The tree that a line is about to run is written in what the session was fed, and the line. -/
theorem within_of_opening? {text : String} {number : Nat} {p : Moment}
    (hmachine : s.machine.KnowsOnly lines) (hheld : s.collector.held ⊆ lines)
    (h : s.opening? text number = some p) :
    p.Within (lines ++ [{ number, text := Text.trimmed text }]) := by
  obtain ⟨c, passage, t, next, hpush, htree, rfl⟩ := exists_of_opening? h
  have hlines : passage.lines ⊆ lines ++ [{ number, text := Text.trimmed text }] :=
    fun line hline ↦ by
      have hpushed := Collector.lines_subset_of_push hpush
        (List.mem_append_left _ (List.mem_flatMap.2 ⟨passage, List.mem_singleton_self _, hline⟩))
      exact held_append_subset hheld _ hpushed
  have hwritten := (Tree.writtenIn_build.1 passage s.nextId t next htree).mono hlines
  exact ⟨hwritten.repeated s.twice? next, hmachine.mono (List.subset_append_left _ _)⟩

/-- Attempts at calls bring no new lines. -/
theorem Drains.knowsOnly {log : List Attempt} (h : Drains s log s')
    (hs : s.machine.KnowsOnly lines) : s'.machine.KnowsOnly lines :=
  h.rel_of Tree.upholds_knowsOnly.respects_callee (fun _ _ ↦ Machine.learnsOnly_of_eq rfl rfl)
    (fun _ _ _ hqueue hm ↦ hm.dequeue hqueue) hs

/-- To drop calls brings no new lines. -/
theorem knowsOnly_cutOff (h : s.machine.KnowsOnly lines) : s.cutOff.machine.KnowsOnly lines := by
  unfold cutOff
  split
  · exact h
  · exact ⟨h.functions, nofun⟩

/-- A session knows only the lines that it was fed. -/
theorem Fed.knowsOnly (hs : s.Fed lines) :
    s.machine.KnowsOnly lines ∧ s.collector.held ⊆ lines := by
  induction hs with
  | start => exact ⟨⟨nofun, nofun⟩, List.nil_subset _⟩
  | @feed lines s _ text number ih =>
    refine ⟨?_, List.Subset.trans (s.held_feed_subset text number) (held_append_subset ih.2 _)⟩
    rw [machine_feed]
    cases h : s.opening? text number with
    | none => exact ih.1.mono (List.subset_append_left _ _)
    | some p => exact (within_of_opening? ih.1 ih.2 h).after
  | @refuse lines s _ source hsource ih =>
    unfold Session.runSource
    rw [if_neg (by rw [hsource]; exact Bool.false_ne_true)]
    exact ⟨Machine.learnsOnly_of_eq (m := s.machine) rfl rfl ih.1, ih.2⟩
  | @finish lines s _ ih =>
    obtain ⟨log, s', hdrains, -, -, hrun⟩ :=
      exists_drains { s with collector := .idle, twice? := false } s.machine.limits.iterations
    have hfinish : s.finish = s'.cutOff := hrun
    refine ⟨?_, ?_⟩
    · rw [hfinish]
      exact knowsOnly_cutOff (hdrains.knowsOnly ih.1)
    · rw [s.finish_idle.1]
      exact List.nil_subset _

/-! ### Deferred calls -/

/-- What is reported of an attempt is the failure of the call, at the line that put the call off
unless it has a line already. -/
theorem attempt_eq_some {call : DeferredCall} (h : s.attempt call = (some d, s')) :
    ∃ d', (⟨s.machine.depthLeft, .call call.name call.args, s.machine⟩ : Moment).Fails d' ∧
      d = d'.locate call.line := by
  unfold attempt perform at h
  cases hcall : callee call.name call.args s.machine with
  | ok _ m =>
    rw [hcall] at h
    cases h
  | error d' m =>
    rw [hcall] at h
    cases h
    exact ⟨d', failsWith_discard_iff.2 ⟨m, hcall⟩, rfl⟩

/-- A draining can be stopped at any of its calls and taken up again. -/
theorem Drains.exists_of_append {log log' : List Attempt} (h : Drains s (log ++ log') s') :
    ∃ s₁, Drains s log s₁ ∧ Drains s₁ log' s' := by
  induction log generalizing s with
  | nil => exact ⟨s, .done s, h⟩
  | cons a log ih =>
    cases h with
    | attempt hqueue hattempt hadded h =>
      obtain ⟨s₁, hlog, hlog'⟩ := ih h
      exact ⟨s₁, .attempt hqueue hattempt hadded hlog, hlog'⟩

/-- Where the failure of a deferred call is reported that is about to be attempted. -/
structure Located (lines : List SourceLine) (call : DeferredCall) (c : Moment) (d : Diagnostic) :
    Prop where
  /-- The call was put off at one of the lines, by a statement there. -/
  deferred : call.line ∈ lines ∧ call.line.PutsOff call.name
  /-- The call fails. -/
  fails : ∃ d', c.Fails d' ∧ d = d'.locate call.line
  /-- If it enters the body of its function, the line is that of the innermost tree that failed
  there. -/
  entered : ∀ b : Moment, c.Enters b → b.Blames lines d
  /-- If it does not, the line is that of the statement that put it off. -/
  refused : (∀ b, ¬ c.Enters b) → d.line? = some call.line

/-- A session that knows only those lines reports a failed attempt at one of them. -/
theorem located_of_attempt {call : DeferredCall} {rest : List DeferredCall}
    (hs : s.machine.KnowsOnly lines) (hqueue : s.machine.deferred = call :: rest)
    (h : attempt { s with machine.deferred := rest } call = (some d, s')) :
    Located lines call
      ⟨s.machine.depthLeft, .call call.name call.args, { s.machine with deferred := rest }⟩ d := by
  obtain ⟨d', hfails, rfl⟩ := attempt_eq_some h
  have hwithin : Moment.Within lines
      ⟨s.machine.depthLeft, .call call.name call.args, { s.machine with deferred := rest }⟩ :=
    ⟨trivial, hs.dequeue hqueue⟩
  refine ⟨hs.deferred call (by rw [hqueue]; exact List.mem_cons_self), ⟨d', hfails, rfl⟩,
    fun b hb ↦ hb.blames hwithin hfails call.line, fun hrefused ↦ ?_⟩
  rw [Diagnostic.locate, Moment.line_eq_none_of_not_enters rfl hrefused hfails, Option.getD_none]

/-- What the end of a session writes: the calls that were attempted, and the session when they had
been. -/
structure Ending (lines : List SourceLine) (s : Session) (log : List Attempt) (s' : Session) :
    Prop where
  /-- Calls are attempted in order. -/
  drains : Drains { s with collector := .idle, twice? := false } log s'
  /-- Then the calls that are left are dropped, and that is the end. -/
  finish_eq : s.finish = s'.cutOff
  /-- There is one message for each call that failed, and one more if calls are left. -/
  messages : s.finish.machine.console.messageList = s.machine.console.messageList ++
    (log.filterMap fun a ↦ a.failure?.map Diagnostic.message) ++
    (s'.machine.deferred.head?.map fun call ↦
      (Diagnostic.locate { fault := .runawayDeferred s.machine.limits.iterations }
        call.line).message).toList
  /-- Each failure is reported at one of the lines. The call that failed was the first one that
  waited when those before it had been attempted. -/
  located : ∀ before a after, log = before ++ a :: after → ∀ d, a.failure? = some d →
    ∃ s₁ rest, Drains { s with collector := .idle, twice? := false } before s₁ ∧
      s₁.machine.deferred = a.call :: rest ∧
      Located lines a.call ⟨s₁.machine.depthLeft, .call a.call.name a.call.args,
        { s₁.machine with deferred := rest }⟩ d
  /-- The calls that are left were put off at one of the lines. -/
  left : ∀ call ∈ s'.machine.deferred, call.line ∈ lines ∧ call.line.PutsOff call.name

/-- The end of what has been fed attempts calls, and its messages say where they failed. -/
theorem Fed.exists_ending (hs : s.Fed lines) : ∃ log s', s.Ending lines log s' := by
  obtain ⟨log, s', hdrains, -, -, hrun⟩ :=
    exists_drains { s with collector := .idle, twice? := false } s.machine.limits.iterations
  have hfinish : s.finish = s'.cutOff := hrun
  have hknown := hs.knowsOnly.1
  refine ⟨log, s', hdrains, hfinish, ?_, fun before a after hlog d hd ↦ ?_,
    (hdrains.knowsOnly hknown).deferred⟩
  · rw [hfinish, messageList_cutOff, hdrains.messageList_eq, hdrains.keeps.1.limits]
  · subst hlog
    obtain ⟨s₁, hbefore, hrest⟩ := hdrains.exists_of_append
    cases hrest with
    | @attempt _ _ _ call rest _ failure? _ hqueue hattempt =>
      obtain rfl : failure? = some d := hd
      exact ⟨s₁, rest, hbefore, hqueue,
        located_of_attempt (hbefore.knowsOnly hknown) hqueue hattempt⟩

/-! ### Sessions -/

/-- Where a session that has been fed the lines reports what fails next. -/
structure Locates (lines : List SourceLine) (s : Session) : Prop where
  /-- A line that fails does so with the tree that it runs. -/
  feed : ∀ text number d s', s.feed text number = (.error d, s') →
    ∃ p, s.opening? text number = some p ∧
      p.Blames (lines ++ [{ number, text := Text.trimmed text }]) d
  /-- A source that fails does so with the tree of the line at which it stops. -/
  runSource : ∀ source d s', s.runSource source = (.error d, s') →
    ∃ before text after s₁ p, Text.lines source = before ++ text :: after ∧
      s.feedAll 1 before = (.ok (), s₁) ∧
      s₁.feed text (1 + before.length) = (.error d, s') ∧
      s₁.opening? text (1 + before.length) = some p ∧
      p.Blames (lines ++ Text.numbered 1 (before ++ [text])) d
  /-- At the end, what fails are deferred calls. -/
  finish : ∃ log s', s.Ending lines log s'
  /-- The same goes for the end of a source. -/
  completed : ∀ source s', s.runSource source = (.ok .completed, s') →
    ∃ s₁, s.feedAll 1 (Text.lines source) = (.ok (), s₁) ∧ s' = s₁.finish ∧
      ∃ log s₂, s₁.Ending (lines ++ Text.numbered 1 (Text.lines source)) log s₂

/-- A line that fails is blamed on the innermost tree that failed. -/
theorem Fed.blames (hs : s.Fed lines) {text : String} {number : Nat}
    (h : s.feed text number = (.error d, s')) :
    ∃ p, s.opening? text number = some p ∧
      p.Blames (lines ++ [{ number, text := Text.trimmed text }]) d := by
  obtain ⟨-, -, p, hp, hfails⟩ := feed_eq_error h
  have hline : d.line? ≠ none := by
    obtain ⟨_, _, _, _, -, -, rfl⟩ := exists_of_opening? hp
    obtain ⟨_, d', -, -, rfl⟩ := Moment.starts_of_fails_tree hfails
    exact nofun
  exact ⟨p, hp, (within_of_opening? hs.knowsOnly.1 hs.knowsOnly.2 hp).blames hfails hline⟩

/-- Whatever lines a session was fed, sources it ran and ends it reached, and whatever failed
before, it reports a failure at one of these lines or of the next ones: at that of the innermost
tree that failed, or, for a deferred call that has not entered the body of its function, at that of
the statement that put it off. -/
theorem Fed.locates (hs : s.Fed lines) : s.Locates lines := by
  refine ⟨fun text number d s' h ↦ hs.blames h, fun source d s' h ↦ ?_, hs.exists_ending,
    fun source s' h ↦ ?_⟩
  · obtain ⟨before, text, after, s₁, hlines, hbefore, hfeed⟩ :=
      feedAll_eq_error (runSource_eq_error h).2
    obtain ⟨p, hp, hblames⟩ := (hs.feedAll hbefore).blames hfeed
    refine ⟨before, text, after, s₁, p, hlines, hbefore, hfeed, hp, ?_⟩
    rw [List.append_assoc] at hblames
    rwa [Text.numbered, List.zipIdx_append, List.map_append]
  · obtain ⟨-, s₁, hall, rfl⟩ := runSource_eq_completed h
    exact ⟨s₁, hall, rfl, (hs.feedAll hall).exists_ending⟩

/-- A function with a line that is not recognized is defined, and the call of it fails at this line
and not at its own. -/
theorem locates_in_body :
    ∃ s : Session, s.Fed [⟨1, "[f]미쉥물 연료[]전줴"⟩, ⟨2, "?"⟩, ⟨3, "\x7d그챼"⟩] ∧
      (s.feed "[f]()" 4).1 = .error { fault := .unrecognized "?", line? := some ⟨2, "?"⟩ } ∧
      s.Locates [⟨1, "[f]미쉥물 연료[]전줴"⟩, ⟨2, "?"⟩, ⟨3, "\x7d그챼"⟩] := by
  have hheader : Line.ofString "[f]미쉥물 연료[]전줴" = .header (.function "f" []) := rfl
  have hunknown : Line.ofString "?" = .statement (.unknown "?") := rfl
  have hgather : Passage.ofLines [⟨2, "?"⟩] = [{ head := ⟨2, "?"⟩ }] := rfl
  have hfunction : Tree.ofPassage? { head := ⟨1, "[f]미쉥물 연료[]전줴"⟩, body := [⟨2, "?"⟩] } 0 =
      some (.block 1 ⟨1, "[f]미쉥물 연료[]전줴"⟩ (.function "f" [])
        [.statement 0 ⟨2, "?"⟩ (.unknown "?")], 2) := by
    simp [Tree.ofPassage?, Tree.ofLines, hgather, Tree.ofPassages, hheader, hunknown,
      BlockHead.ofHeader, Tree.repeated]
  let opened : Session :=
    { start (.ofSeed 0) {} [] with collector := .inside ⟨1, "[f]미쉥물 연료[]전줴"⟩ #[] 0 true }
  have hopen : (start (.ofSeed 0) {} []).feed "[f]미쉥물 연료[]전줴" 1 = (.ok (), opened) :=
    @feed_of_none _ ⟨1, "[f]미쉥물 연료[]전줴"⟩ ⟨rfl, by decide, by decide⟩ _ rfl
  let filled : Session :=
    { start (.ofSeed 0) {} [] with
      collector := .inside ⟨1, "[f]미쉥물 연료[]전줴"⟩ #[⟨2, "?"⟩] 0 false }
  have hfill : opened.feed "?" 2 = (.ok (), filled) :=
    @feed_of_none _ ⟨2, "?"⟩ ⟨rfl, by decide, by decide⟩ _ rfl
  have hclose := @feed_of_tree filled ⟨3, "\x7d그챼"⟩ ⟨rfl, by decide, by decide⟩ _ _ _ _ rfl
    hfunction
  have hopened := (Fed.start (.ofSeed 0) {} []).feed "[f]미쉥물 연료[]전줴" 1
  rw [hopen] at hopened
  have hfilled := hopened.feed "?" 2
  rw [hfill] at hfilled
  have hclosed := hfilled.feed "\x7d그챼" 3
  rw [hclose] at hclosed
  have hcall : Line.ofString "[f]()" = .statement (.call "f" []) := rfl
  have htree : Tree.ofPassage? { head := ⟨4, "[f]()"⟩ } 2 =
      some (.statement 2 ⟨4, "[f]()"⟩ (.call "f" []), 3) := by
    rw [Tree.ofPassage?, hcall]
  let defined : Session :=
    { start (.ofSeed 0) {} [] with
      machine.store := Store.defineFunction {} "f"
        { params := [], body := [.statement 0 ⟨2, "?"⟩ (.unknown "?")] }
      nextId := 2 }
  have hdefined : defined.Fed [⟨1, "[f]미쉥물 연료[]전줴"⟩, ⟨2, "?"⟩, ⟨3, "\x7d그챼"⟩] := hclosed
  have hfeed := @feed_of_tree defined ⟨4, "[f]()"⟩ ⟨rfl, by decide, by decide⟩ _ _ _ _ rfl htree
  exact ⟨defined, hdefined, congrArg Prod.fst hfeed, hdefined.locates⟩

end Session

end Haklang

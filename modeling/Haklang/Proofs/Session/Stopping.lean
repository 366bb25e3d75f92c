import Haklang.Proofs.Session.Location
import Haklang.Proofs.Value.Power

/-!
# Runs that are stopped

Whatever a session is given next, it has an answer. One of the answers is none that the program
gives: that the run was stopped, because the magnitude of the least integer was asked for. All
others are *returned* (`Returned`): the program has succeeded, or it has failed and says how. This
module says which answers are returned (`Arena.Interpreter.Reachable.ends`).

One thing stops a run: a power, with a decimal among its two operands, to the least integer
(`Moment.RaisesToLeast`). It does so wherever it is evaluated, at any depth of blocks, loops and
calls, since all that is around it passes a fault on (`Moment.stopped_iff`). So the answer to a line
is returned exactly if there is no such power on the way from the tree that the line runs
(`Session.returned_feed_iff`), the answer to a source exactly if that holds of all lines up to the
one at which it stops (`Session.returned_runSource_iff`), and a deferred call stops the run exactly
if there is such a power on its way (`Session.failure?_iff_stopped`).

Limits on iterations and on the depth of calls do not enter into it. They are what makes the answers
come about at all.
-/

open Relation (ReflTransGen)

namespace Haklang

open Haklang.Action

/-- The answer is one that the program gives: it has succeeded, or it reports a failure. -/
def Returned {α : Type} (r : Except Diagnostic α) : Prop :=
  ∀ d, r = .error d → d.fault ≠ .noMagnitude

/-! ### Moments -/

namespace Moment

/-- The task is a power with a decimal among its two operands, and the exponent has turned out to be
the least integer. -/
inductive RaisesToLeast : Moment → Prop where
  /-- Both operands have been evaluated. -/
  | power {n l r m a m' b m''} (hl : l.eval (callFunction n) m = .ok a m')
    (hr : r.eval (callFunction n) m' = .ok b m'') (ha : a.rat?.isSome = true)
    (hb : b.rat? = some (-9223372036854775808)) (htags : ¬ (a.typeTag = .int ∧ b.typeTag = .int)) :
    RaisesToLeast ⟨n, .expr (.binary .power l r), m⟩

/-- Such a power is on the way from the moment. -/
def Stopped (p : Moment) : Prop := ∃ q, ReflTransGen Starts p q ∧ q.RaisesToLeast

variable {p : Moment}

/-- Nothing but such a power stops a run by itself. -/
theorem stops_iff : p.Stops ↔ p.RaisesToLeast := by
  constructor
  · rintro ⟨hl, hr, h⟩
    obtain ⟨rfl, ha, hb, htags⟩ := BinaryOperator.apply_eq_noMagnitude_iff.1 h
    exact .power hl hr ha hb htags
  · rintro ⟨hl, hr, ha, hb, htags⟩
    exact .binary hl hr (BinaryOperator.apply_eq_noMagnitude_iff.2 ⟨rfl, ha, hb, htags⟩)

/-- A run is stopped exactly if such a power is on its way. -/
theorem stopped_iff : p.Stopped ↔ ∃ d, p.Fails d ∧ d.fault = .noMagnitude := by
  rw [← exists_stops_iff]
  simp only [Stopped, stops_iff]

end Moment

/-! ### Lines, sources and deferred calls -/

namespace Session

variable {s s' : Session} {text : String} {number : Nat} {p : Moment} {d : Diagnostic}

/-- A line fails if the tree that it runs does. -/
theorem feed_of_fails (h : s.opening? text number = some p) (hp : p.Fails d) :
    ∃ s', s.feed text number = (.error d, s') := by
  obtain ⟨c, passage, t, next, hpush, htree, rfl⟩ := exists_of_opening? h
  have hruns : ¬ (Text.trimmed text = "" ∨ Text.trimmed text = Line.sentinel) := by
    intro hskip
    rw [opening?, if_pos hskip] at h
    cases h
  obtain ⟨m', hrun⟩ := hp
  have hrun : discard (runTree (t.repeated s.twice? next).1) s.machine = .error d m' := hrun
  unfold feed
  simp only [if_neg hruns, hpush, runPassage, htree, perform, hrun]
  exact ⟨_, rfl⟩

/-- Lines fail if, behind those that did not, one does. -/
theorem feedAll_of_feed {before after : List String} {s₁ : Session}
    (hbefore : s.feedAll number before = (.ok (), s₁))
    (h : s₁.feed text (number + before.length) = (.error d, s')) :
    s.feedAll number (before ++ text :: after) = (.error d, s') := by
  induction before generalizing s number with
  | nil =>
    obtain rfl : s = s₁ := congrArg Prod.snd hbefore
    rw [List.nil_append, feedAll]
    rw [List.length_nil, Nat.add_zero] at h
    rw [h]
  | cons first rest ih =>
    rw [feedAll] at hbefore
    rw [List.cons_append, feedAll]
    rcases hfirst : s.feed first number with ⟨d' | ⟨⟩, s₂⟩ <;> rw [hfirst] at hbefore
    · cases hbefore
    · rw [List.length_cons, Nat.add_comm rest.length 1, ← Nat.add_assoc] at h
      exact ih hbefore h

/-- The answer to a line is returned unless the run of its tree is stopped. -/
theorem returned_feed_iff (s : Session) (text : String) (number : Nat) :
    Returned (s.feed text number).1 ↔ ∀ p, s.opening? text number = some p → ¬ p.Stopped := by
  constructor
  · intro h p hp hstopped
    obtain ⟨d, hfails, hfault⟩ := Moment.stopped_iff.1 hstopped
    obtain ⟨s', hfeed⟩ := feed_of_fails hp hfails
    exact h d (congrArg Prod.fst hfeed) hfault
  · intro h d hd hfault
    have hfeed : s.feed text number = (.error d, (s.feed text number).2) := Prod.ext hd rfl
    obtain ⟨-, -, p, hp, hfails⟩ := feed_eq_error hfeed
    exact h p hp (Moment.stopped_iff.2 ⟨d, hfails, hfault⟩)

/-- The answer to a source is returned unless the run of one of its lines is stopped, behind others
that did not fail. -/
theorem returned_runSource_iff (s : Session) (source : String) :
    Returned (s.runSource source).1 ↔
      (hasSentinel (Text.lines source) = true → ∀ before text after s₁ p,
        Text.lines source = before ++ text :: after → s.feedAll 1 before = (.ok (), s₁) →
        s₁.opening? text (1 + before.length) = some p → ¬ p.Stopped) := by
  constructor
  · intro h hsentinel before text after s₁ p hlines hbefore hp hstopped
    obtain ⟨d, hfails, hfault⟩ := Moment.stopped_iff.1 hstopped
    obtain ⟨s', hfeed⟩ := feed_of_fails hp hfails
    have hall : s.feedAll 1 (Text.lines source) = (.error d, s') := by
      rw [hlines]
      exact feedAll_of_feed hbefore hfeed
    refine h d ?_ hfault
    unfold runSource
    simp only [if_pos hsentinel, hall]
  · intro h d hd hfault
    have hrun : s.runSource source = (.error d, (s.runSource source).2) := Prod.ext hd rfl
    obtain ⟨hsentinel, hall⟩ := runSource_eq_error hrun
    obtain ⟨before, text, after, s₁, hlines, hbefore, hfeed⟩ := feedAll_eq_error hall
    obtain ⟨-, -, p, hp, hfails⟩ := feed_eq_error hfeed
    exact h hsentinel before text after s₁ p hlines hbefore hp
      (Moment.stopped_iff.2 ⟨d, hfails, hfault⟩)

/-- The moment at which a session, as it is, would make a deferred call. -/
def calling (s : Session) (call : DeferredCall) : Moment :=
  ⟨s.machine.depthLeft, .call call.name call.args, s.machine⟩

/-- An attempt at a deferred call stops the run exactly if its call is stopped. -/
theorem failure?_iff_stopped (s : Session) (call : DeferredCall) :
    (∃ d, (s.attempt call).1 = some d ∧ d.fault = .noMagnitude) ↔ (s.calling call).Stopped := by
  rw [Moment.stopped_iff]
  constructor
  · rintro ⟨d, hd, hfault⟩
    obtain ⟨d', hfails, rfl⟩ := attempt_eq_some (Prod.ext hd rfl)
    exact ⟨d', hfails, hfault⟩
  · rintro ⟨d, hfails, hfault⟩
    obtain ⟨m', hrun⟩ := failsWith_discard_iff.1 hfails
    have hrun : callee call.name call.args s.machine = .error d m' := hrun
    refine ⟨d.locate call.line, ?_, hfault⟩
    simp only [attempt, perform, hrun]

/-- What the end of a session attempts: the calls, and the session when they had been attempted.
Each was the first one that waited when those before it had been attempted, and it stopped the run
exactly if its call is stopped. -/
structure Attempts (s : Session) (log : List Attempt) (s' : Session) : Prop where
  /-- Calls are attempted in order. -/
  drains : Drains { s with collector := .idle, twice? := false } log s'
  /-- Then the calls that are left are dropped, and that is the end. -/
  finish_eq : s.finish = s'.cutOff
  /-- Which of the calls stop the run. -/
  stopped : ∀ before x after, log = before ++ x :: after →
    ∃ s₁ rest, Drains { s with collector := .idle, twice? := false } before s₁ ∧
      s₁.machine.deferred = x.call :: rest ∧
      ((∃ d, x.failure? = some d ∧ d.fault = .noMagnitude) ↔
        (calling { s₁ with machine.deferred := rest } x.call).Stopped)

/-- The end attempts calls in every session, since there are at most as many as the limit says. -/
theorem exists_attempts (s : Session) : ∃ log s', s.Attempts log s' := by
  obtain ⟨log, s', hdrains, -, -, hrun⟩ :=
    exists_drains { s with collector := .idle, twice? := false } s.machine.limits.iterations
  refine ⟨log, s', hdrains, hrun, fun before x after hlog ↦ ?_⟩
  subst hlog
  obtain ⟨s₁, hbefore, hrest⟩ := hdrains.exists_of_append
  cases hrest with
  | @attempt _ _ _ call rest _ failure? _ hqueue hattempt =>
    have hstopped := failure?_iff_stopped { s₁ with machine.deferred := rest } call
    rw [hattempt] at hstopped
    exact ⟨s₁, rest, hbefore, hqueue, hstopped⟩

/-! ### A line that is stopped -/

/-- A line that assigns a power to the least integer. -/
theorem ofString_least :
    Line.ofString "[x]꿀떡<2.0 비이만하악범 -9223372036854775808.0" = .statement (.assign "x"
      (.binary .power (.decimal ⟨20, 1⟩) (.decimal ⟨-92233720368547758080, 1⟩))) := by
  have hrules : Line.rules = Line.rules.take 11 ++ Line.assignRule :: Line.rules.drop 12 := rfl
  have hbefore : (Line.rules.take 11).findSome?
      (· "[x]꿀떡<2.0 비이만하악범 -9223372036854775808.0".toList) = none := by
    rw [List.findSome?_eq_none_iff]
    decide +kernel
  have hname : Text.variableName (fun r ↦ Text.after? "꿀떡<".toList r >>= Text.restOfLine)
      "[x]꿀떡<2.0 비이만하악범 -9223372036854775808.0".toList =
        some ("x", "2.0 비이만하악범 -9223372036854775808.0".toList) := by decide +kernel
  -- the expression is divided at its operator, and neither side at another one
  have hnegate : Text.after? Expr.negateWord.toList
      (Text.trim "2.0 비이만하악범 -9223372036854775808.0".toList) = none := by decide +kernel
  have hdivide : Expr.divide? (Text.trim "2.0 비이만하악범 -9223372036854775808.0".toList) =
      some (.power, "2.0 ".toList, " -9223372036854775808.0".toList) := by decide +kernel
  have hbase : Expr.ofChars "2.0 ".toList = .decimal ⟨20, 1⟩ := by
    rw [Expr.ofChars_eq]
    rfl
  have hexponent : Expr.ofChars " -9223372036854775808.0".toList =
      .decimal ⟨-92233720368547758080, 1⟩ := by
    rw [Expr.ofChars_eq]
    rfl
  rw [Line.ofString, Line.ofChars, hrules, List.findSome?_append, hbefore, Option.none_or,
    List.findSome?_cons, Line.assignRule, hname]
  show Line.statement (.assign "x" (Expr.ofChars _)) = _
  rw [Expr.ofChars_eq]
  simp only [hnegate, hdivide, hbase, hexponent]

/-- The first line of a session is not returned if it is this one. -/
theorem not_returned_feed_least :
    ¬ Returned ((start (.ofSeed 0) {} []).feed
      "[x]꿀떡<2.0 비이만하악범 -9223372036854775808.0" 1).1 := by
  let line : SourceLine := ⟨1, "[x]꿀떡<2.0 비이만하악범 -9223372036854775808.0"⟩
  have htree : Tree.ofPassage? { head := line } 0 = some (.statement 0 line (.assign "x"
      (.binary .power (.decimal ⟨20, 1⟩) (.decimal ⟨-92233720368547758080, 1⟩))), 1) := by
    rw [Tree.ofPassage?, show Line.ofString line.text = _ from ofString_least]
  have hopening := @opening?_of_tree (start (.ofSeed 0) {} []) line
    ⟨by decide +kernel, by decide, by decide⟩ _ _ _ _
    (show Collector.idle.push line = (.idle, some { head := line }) by
      rw [Collector.push, show Line.ofString line.text = _ from ofString_least]
      rfl) htree
  rw [returned_feed_iff]
  intro h
  refine h _ hopening ⟨_, .tail (.single .treeStatement) .assign, .power rfl rfl rfl ?_ ?_⟩
  · norm_num [Value.rat?, Value.number?, Decimal.toRat]
  · rintro ⟨htag, -⟩
    cases htag

end Session

/-! ### Sessions that run from their arena -/

namespace Arena.Interpreter

/-- What comes of an interpreter that stands for a session, whatever it is given next. -/
structure Ends (a : Interpreter) (s : Session) : Prop where
  /-- It stands for the session. -/
  represents : a.Represents s
  /-- For every line there is an amount of fuel from which on there is an answer. -/
  feed : ∀ text number, Follows (fun n ↦ a.feed n text number) (s.feed text number)
  /-- The answer is returned exactly if no power that stops the run is on the way of the line. -/
  returned_feed : ∀ text number, Returned (s.feed text number).1 ↔
    ∀ p, s.opening? text number = some p → ¬ p.Stopped
  /-- For every source there is such an amount, too. -/
  runSource : ∀ source, Follows (fun n ↦ a.runSource n source) (s.runSource source)
  /-- The answer is returned exactly if no such power is on the way of one of its lines. -/
  returned_runSource : ∀ source, Returned (s.runSource source).1 ↔
    (Session.hasSentinel (Text.lines source) = true → ∀ before text after s₁ p,
      Text.lines source = before ++ text :: after → s.feedAll 1 before = (.ok (), s₁) →
      s₁.opening? text (1 + before.length) = some p → ¬ p.Stopped)
  /-- There is such an amount for the end of the source. -/
  finish : ∃ a', Represents a' s.finish ∧ Settles (fun n ↦ a.finish n) a'
  /-- The end attempts calls, and each of them is stopped exactly if such a power is on its way. -/
  attempts : ∃ log s', s.Attempts log s'
  /-- The same goes for the end of a source that runs to it. -/
  completed : ∀ source s', s.runSource source = (.ok .completed, s') →
    ∃ s₁, s.feedAll 1 (Text.lines source) = (.ok (), s₁) ∧ s' = s₁.finish ∧
      ∃ log s₂, s₁.Attempts log s₂

/-- Every program ends, and it is known how. Whatever lines, sources and ends an interpreter has
been through, with whatever limits, there is for each line, for each source and for the end of the
source an amount of fuel from which on there is an answer, and never another one. The answer is
returned, as a success or as a failure that is reported, unless a power of decimals to the least
integer is evaluated on the way. Then the run is stopped. -/
theorem Reachable.ends {a : Interpreter} (h : a.Reachable) :
    ∃ s : Session, s.Reachable ∧ a.Ends s := by
  obtain ⟨s, hs, hrepresents⟩ := h.represents
  refine ⟨s, hs, hrepresents, follows_feed hrepresents, s.returned_feed_iff,
    follows_runSource hrepresents, s.returned_runSource_iff, settles_finish hrepresents,
    s.exists_attempts, fun source s' hsource ↦ ?_⟩
  obtain ⟨-, s₁, hall, rfl⟩ := Session.runSource_eq_completed hsource
  exact ⟨s₁, hall, rfl, s₁.exists_attempts⟩

/-- No amount of fuel gives a line with such a power an answer that is returned, from the start. -/
theorem not_returned_of_feed_least {n : Nat} {r : Except Diagnostic Unit} {a : Interpreter}
    (h : (start (.ofSeed 0) {} []).feed n "[x]꿀떡<2.0 비이만하악범 -9223372036854775808.0" 1 =
      some (r, a)) : ¬ Returned r := by
  have hfollows := follows_feed (represents_start (.ofSeed 0) {} [])
    "[x]꿀떡<2.0 비이만하악범 -9223372036854775808.0" 1
  rw [hfollows.eq_of_some h]
  exact Session.not_returned_feed_least

/-- With enough fuel there is an answer to such a line, and it is not returned. -/
theorem ends_least :
    (start (.ofSeed 0) {} []).Reachable ∧
      ∃ N r a, (∀ n, N ≤ n → (start (.ofSeed 0) {} []).feed n
        "[x]꿀떡<2.0 비이만하악범 -9223372036854775808.0" 1 = some (r, a)) ∧ ¬ Returned r := by
  have hstart : (start (.ofSeed 0) {} []).Reachable := .start (.ofSeed 0) {} []
  obtain ⟨s, -, hends⟩ := Reachable.ends hstart
  obtain ⟨N, a, hN⟩ :=
    (hends.feed "[x]꿀떡<2.0 비이만하악범 -9223372036854775808.0" 1).exists_forall
  exact ⟨hstart, N, _, a, hN, not_returned_of_feed_least (hN N (Nat.le_refl N))⟩

/-- So it is not the case that every line has an answer which is returned. -/
theorem not_forall_returned :
    ¬ ∀ a : Interpreter, a.Reachable → ∀ text number,
      ∃ N r a', Returned r ∧ ∀ n, N ≤ n → a.feed n text number = some (r, a') := by
  intro h
  obtain ⟨N, r, a', hreturned, hN⟩ := h _ (.start (.ofSeed 0) {} [])
    "[x]꿀떡<2.0 비이만하악범 -9223372036854775808.0" 1
  exact not_returned_of_feed_least (hN N (Nat.le_refl N)) hreturned

end Arena.Interpreter

end Haklang

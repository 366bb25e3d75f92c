import Haklang.Proofs.Arena.Fuel
import Haklang.Proofs.Session.Batch

/-!
# There is always an answer

A session that runs its trees by number, from the arena that it lays them down in, has an answer to
every line, to every source and to the end of the source, whatever it has been through before
(`Arena.Interpreter.Reachable.represents`): there is an amount of fuel from which on the answer is
there, and it is the answer of the session that recurs on trees (`Arena.Interpreter.follows_feed`,
`Arena.Interpreter.follows_runSource`, `Arena.Interpreter.settles_finish`). So fuel runs out for no
program, and no node is looked for where there is none.

The two sessions go side by side (`Arena.Interpreter.Represents`): the arena ends where the next
tree is numbered, and it has the bodies of all functions. A line that completes a passage lays its
tree down before it runs, so what was stored stays stored. In the draining of deferred calls, which
may put off further calls, the number of calls that may still run goes down.
-/

namespace Haklang

/-- Sessions that come about from a start by feeding lines, running sources and ending, in any order
and also after failures. -/
inductive Session.Reachable : Session → Prop where
  /-- A session at its start. -/
  | start (generator : Generator) (limits : Limits) (input : List String) :
    Reachable (.start generator limits input)
  /-- A line has been taken. -/
  | feed {s : Session} (h : Reachable s) (text : String) (number : Nat) :
    Reachable (s.feed text number).2
  /-- A source has been run. -/
  | runSource {s : Session} (h : Reachable s) (source : String) : Reachable (s.runSource source).2
  /-- The source has ended. -/
  | finish {s : Session} (h : Reachable s) : Reachable s.finish

/-- What is performed leaves the machine behind that the action does. -/
theorem Session.machine_perform {α : Type} (s : Session) (x : Action α) :
    (s.perform x).2.machine = x.after s.machine := by
  rw [perform, Action.after]
  cases x s.machine <;> rfl

namespace Arena.Interpreter

open Haklang.Action

/-- The same with any amount of fuel that gives an answer. -/
inductive Reachable : Interpreter → Prop where
  /-- A session at its start. -/
  | start (generator : Generator) (limits : Limits) (input : List String) :
    Reachable (.start generator limits input)
  /-- A line has been taken. -/
  | feed {a a' : Interpreter} {n number : Nat} {text : String} {r : Except Diagnostic Unit}
    (h : Reachable a) (hfeed : a.feed n text number = some (r, a')) : Reachable a'
  /-- A source has been run. -/
  | runSource {a a' : Interpreter} {n : Nat} {source : String}
    {r : Except Diagnostic Session.Outcome} (h : Reachable a)
    (hrun : a.runSource n source = some (r, a')) : Reachable a'
  /-- The source has ended. -/
  | finish {a a' : Interpreter} {n : Nat} (h : Reachable a) (hfinish : a.finish n = some a') :
    Reachable a'

/-- The session with its trees laid down in an arena. -/
def ofSession (arena : Arena) (s : Session) : Interpreter :=
  { arena, runner := .ofMachine s.machine, collector := s.collector, twice? := s.twice? }

/-- The arena ends where the next tree of the session is numbered, and it has the bodies of all
functions. -/
structure Fits (arena : Arena) (s : Session) : Prop where
  /-- The next tree is numbered from the end of the arena. -/
  length : arena.length = s.nextId
  /-- The bodies of all functions are stored. -/
  holds : arena.Holds s.machine.store.functions

/-- An interpreter stands for a session if it is the session with its trees laid down. -/
def Represents (a : Interpreter) (s : Session) : Prop :=
  ∃ arena, Fits arena s ∧ a = ofSession arena s

/-- The steps settle on the outcome of the step of a session, and on an interpreter that stands for
the session after it. -/
def Follows {α : Type} (f : Nat → Option (Except Diagnostic α × Interpreter))
    (r : Except Diagnostic α × Session) : Prop :=
  ∃ a, Represents a r.2 ∧ Settles f (r.1, a)

/-- With enough fuel there is the answer of the session. -/
theorem Follows.exists_forall {α : Type} {f : Nat → Option (Except Diagnostic α × Interpreter)}
    {r : Except Diagnostic α × Session} (h : Follows f r) :
    ∃ N a, ∀ n, N ≤ n → f n = some (r.1, a) := by
  obtain ⟨a, -, hsettles⟩ := h
  obtain ⟨N, hN⟩ := hsettles.eventually
  exact ⟨N, a, hN⟩

/-- No amount of fuel gives another one. -/
theorem Follows.eq_of_some {α : Type} {f : Nat → Option (Except Diagnostic α × Interpreter)}
    {r : Except Diagnostic α × Session} (h : Follows f r) {n : Nat} {v : Except Diagnostic α}
    {a : Interpreter} (hf : f n = some (v, a)) : v = r.1 := by
  obtain ⟨b, -, hsettles⟩ := h
  exact congrArg Prod.fst (hsettles.eq_of_some hf)

variable {arena : Arena} {a : Interpreter} {s : Session}

/-- A session and an arena that fits it make an interpreter that stands for the session. -/
theorem Fits.represents (h : Fits arena s) : Represents (ofSession arena s) s := ⟨arena, h, rfl⟩

/-- A message is written on both sides. -/
theorem Represents.report (h : Represents a s) (message : String) :
    Represents (a.report message) (s.report message) := by
  obtain ⟨arena, hfits, rfl⟩ := h
  exact ⟨arena, ⟨hfits.length, hfits.holds⟩, rfl⟩

/-! ### Lines -/

/-- What an attempt computes on the runner is performed on the session. -/
theorem follows_perform {α : Type} {f : Nat → Attempt α} {x : Action α} (h : Fits arena s)
    (hx : Computes arena s.machine.depthLeft f x) :
    Follows (fun n ↦ (ofSession arena s).perform (f n)) (s.perform x) := by
  obtain ⟨hsettles, hready⟩ := hx s.machine ⟨rfl, h.holds⟩
  refine ⟨ofSession arena (s.perform x).2, Fits.represents ⟨?_, ?_⟩, ?_⟩
  · rw [Session.perform]
    cases x s.machine <;> exact h.length
  · rw [Session.machine_perform]
    exact hready.holds
  · rw [Session.perform]
    cases hm : x s.machine <;> rw [hm] at hsettles <;> exact hsettles.map _

/-- A passage is laid down behind all others and runs from there. -/
theorem follows_runPassage (h : Fits arena s) (p : Passage) :
    Follows (fun n ↦ (ofSession arena s).runPassage n p) (s.runPassage p) := by
  have hlength : (ofSession arena s).arena.length = s.nextId := h.length
  have htwice : (ofSession arena s).twice? = s.twice? := rfl
  unfold Session.runPassage runPassage
  simp only [hlength, htwice]
  rcases hp : Tree.ofPassage? p s.nextId with - | ⟨t, next⟩
  · exact ⟨_, Fits.represents ⟨h.length, h.holds⟩, .const _⟩
  · obtain ⟨hnumbered, rfl⟩ := Tree.numberedFrom_ofPassage? hp
    obtain ⟨hrepeated, hnext⟩ := Tree.numberedFrom_repeated hnumbered s.twice?
    -- the tree that runs, which may be the one that was built, run twice
    obtain ⟨t', next', ht'⟩ :
      ∃ t' next', t.repeated s.twice? (s.nextId + t.flatten.length) = (t', next') := ⟨_, _, rfl⟩
    simp only [ht'] at hrepeated hnext ⊢
    have hfits : Fits (arena ++ t'.flatten) { s with twice? := false, nextId := next' } := by
      refine ⟨?_, h.holds.append _⟩
      rw [List.length_append, h.length]
      exact hnext.symm
    have hstored : t'.Stored (arena ++ t'.flatten) :=
      Tree.stored_append_flatten arena (by rwa [h.length])
    exact follows_perform hfits (computes_runTree hstored).discard

/-- A line settles: it is held, or it completes a tree that is added to the arena and settles there.
-/
theorem follows_feed (h : Represents a s) (text : String) (number : Nat) :
    Follows (fun n ↦ a.feed n text number) (s.feed text number) := by
  obtain ⟨arena, hfits, rfl⟩ := h
  have hcollector : (ofSession arena s).collector = s.collector := rfl
  unfold Session.feed feed
  simp only [hcollector]
  split
  · exact ⟨_, hfits.represents, .const _⟩
  · rcases s.collector.push { number, text := Text.trimmed text } with ⟨collector, - | p⟩
    · exact ⟨_, Fits.represents ⟨hfits.length, hfits.holds⟩, .const _⟩
    · refine follows_runPassage (s := { s with collector }) ?_ p
      exact ⟨hfits.length, hfits.holds⟩

/-- The induction is on the lines; the arena grows from line to line. -/
theorem follows_feedEach (h : Represents a s) (lines : List SourceLine) :
    Follows (fun n ↦ a.feedEach n lines) (s.feedEach lines) := by
  induction lines generalizing a s with
  | nil => exact ⟨a, h, .const _⟩
  | cons line rest ih =>
    obtain ⟨a', h', hsettles⟩ := follows_feed h line.text line.number
    rw [Session.feedEach]
    rcases hfeed : s.feed line.text line.number with ⟨_ | _, s'⟩ <;> rw [hfeed] at h' hsettles
    · exact ⟨a', h', hsettles.bind (.const _)⟩
    · obtain ⟨a'', h'', hsettles'⟩ := ih h'
      exact ⟨a'', h'', hsettles.bind hsettles'⟩

/-! ### Deferred calls -/

/-- A call keeps the limits, so the one that counts the deferred calls does not move meanwhile. -/
theorem limits_perform_callee (s : Session) (name : String) (args : List Value) :
    (s.perform (Action.callee name args)).2.machine.limits = s.machine.limits := by
  rw [Session.machine_perform]
  exact (respects_callFunction s.machine.depthLeft name args s.machine).limits

/-- Draining that has run some calls settles on what is left of it. The induction is on the calls
that may still run. -/
theorem settles_drain (h : Represents a s) {count left : Nat}
    (hcount : count + left = s.machine.limits.iterations) :
    ∃ a', Represents a' (s.runDeferred left) ∧ Settles (fun n ↦ a.drain n count) a' := by
  induction left generalizing a s count with
  | zero =>
    obtain ⟨arena, hfits, rfl⟩ := h
    have hdeferred : (ofSession arena s).runner.machine.deferred = s.machine.deferred := rfl
    have hlimit : (ofSession arena s).runner.machine.limits.iterations ≤ count := by
      show s.machine.limits.iterations ≤ count
      omega
    rcases hd : s.machine.deferred with - | ⟨call, rest⟩
    · simp only [Session.runDeferred, hd]
      refine ⟨_, hfits.represents, .succ rfl ?_⟩
      simp only [drain, hdeferred, hd]
      exact .const _
    · -- no call may run any more, so those that wait are dropped
      simp only [Session.runDeferred, hd]
      refine ⟨_, Fits.represents ⟨hfits.length, hfits.holds⟩, .succ rfl ?_⟩
      simp only [drain, hdeferred, hd, if_pos hlimit]
      exact .const _
  | succ left ih =>
    obtain ⟨arena, hfits, rfl⟩ := h
    have hdeferred : (ofSession arena s).runner.machine.deferred = s.machine.deferred := rfl
    have hlimit : ¬ (ofSession arena s).runner.machine.limits.iterations ≤ count := by
      show ¬ s.machine.limits.iterations ≤ count
      omega
    rcases hd : s.machine.deferred with - | ⟨call, rest⟩
    · simp only [Session.runDeferred, hd]
      refine ⟨_, hfits.represents, .succ rfl ?_⟩
      simp only [drain, hdeferred, hd]
      exact .const _
    · obtain ⟨a', h', hsettles⟩ :=
        follows_perform (s := { s with machine.deferred := rest }) ⟨hfits.length, hfits.holds⟩
          (computes_callee call.name call.args)
      have hlimits : (Session.perform { s with machine.deferred := rest }
          (Action.callee call.name call.args)).2.machine.limits = s.machine.limits :=
        limits_perform_callee _ call.name call.args
      simp only [Session.runDeferred, hd]
      rcases hcall : Session.perform { s with machine.deferred := rest }
        (Action.callee call.name call.args) with ⟨d | _, s'⟩ <;>
        rw [hcall] at h' hsettles hlimits
      · -- the failure is reported, and the next call runs
        have hcount' : count + 1 + left = s'.machine.limits.iterations := by rw [hlimits]; omega
        obtain ⟨a'', h'', hsettles'⟩ := @ih _ (s'.report _) (h'.report _) (count + 1) hcount'
        refine ⟨a'', h'', .succ rfl ?_⟩
        simp only [drain, hdeferred, hd, if_neg hlimit]
        exact hsettles.bind hsettles'
      · have hcount' : count + 1 + left = s'.machine.limits.iterations := by rw [hlimits]; omega
        obtain ⟨a'', h'', hsettles'⟩ := @ih _ s' h' (count + 1) hcount'
        refine ⟨a'', h'', .succ rfl ?_⟩
        simp only [drain, hdeferred, hd, if_neg hlimit]
        exact hsettles.bind hsettles'

/-! ### Sources and their ends -/

/-- The end of the source settles, since each call does, and there are at most as many of them as
the limit says. -/
theorem settles_finish (h : Represents a s) :
    ∃ a', Represents a' s.finish ∧ Settles (fun n ↦ a.finish n) a' := by
  obtain ⟨arena, hfits, rfl⟩ := h
  have hclosed : Fits arena { s with collector := .idle, twice? := false } :=
    ⟨hfits.length, hfits.holds⟩
  exact settles_drain hclosed.represents (Nat.zero_add _)

/-- A source settles line by line, and then at its end. -/
theorem follows_runSource (h : Represents a s) (source : String) :
    Follows (fun n ↦ a.runSource n source) (s.runSource source) := by
  unfold Session.runSource runSource
  simp only [Session.feedAll_eq_feedEach]
  split
  · generalize List.map _ ((Text.lines source).zipIdx 1) = lines
    obtain ⟨a', h', hsettles⟩ := follows_feedEach h lines
    rcases hfeed : s.feedEach lines with ⟨_ | _, s'⟩ <;> rw [hfeed] at h' hsettles
    · exact ⟨a', h', hsettles.bind (.const _)⟩
    · obtain ⟨a'', h'', hsettles'⟩ := settles_finish h'
      exact ⟨a'', h'', hsettles.bind (hsettles'.map _)⟩
  · exact ⟨_, h.report _, .const _⟩

/-! ### Everything that comes about -/

/-- An interpreter stands for the session that starts with the same. -/
theorem represents_start (generator : Generator) (limits : Limits) (input : List String) :
    Represents (start generator limits input) (Session.start generator limits input) :=
  ⟨[], ⟨rfl, fun _ _ hf ↦ nomatch hf⟩, rfl⟩

/-- Whatever has been run, the interpreter stands for a session that has run the same. -/
theorem Reachable.represents (h : a.Reachable) : ∃ s : Session, s.Reachable ∧ a.Represents s := by
  induction h with
  | start generator limits input =>
    exact ⟨_, .start generator limits input, represents_start generator limits input⟩
  | @feed _ a' _ number text _ _ hfeed ih =>
    obtain ⟨s, hs, hrepresents⟩ := ih
    obtain ⟨a'', h'', hsettles⟩ := follows_feed hrepresents text number
    obtain rfl : a' = a'' := congrArg Prod.snd (hsettles.eq_of_some hfeed)
    exact ⟨_, hs.feed text number, h''⟩
  | @runSource _ a' _ source _ _ hrun ih =>
    obtain ⟨s, hs, hrepresents⟩ := ih
    obtain ⟨a'', h'', hsettles⟩ := follows_runSource hrepresents source
    obtain rfl : a' = a'' := congrArg Prod.snd (hsettles.eq_of_some hrun)
    exact ⟨_, hs.runSource source, h''⟩
  | finish _ hfinish ih =>
    obtain ⟨s, hs, hrepresents⟩ := ih
    obtain ⟨a'', h'', hsettles⟩ := settles_finish hrepresents
    cases hsettles.eq_of_some hfinish
    exact ⟨_, hs.finish, h''⟩

/-- Every session that comes about is one that an interpreter stands for. -/
theorem exists_represents (h : s.Reachable) :
    ∃ a : Interpreter, a.Reachable ∧ a.Represents s := by
  induction h with
  | start generator limits input =>
    exact ⟨_, .start generator limits input, represents_start generator limits input⟩
  | feed _ text number ih =>
    obtain ⟨a, ha, hrepresents⟩ := ih
    obtain ⟨a', h', hsettles⟩ := follows_feed hrepresents text number
    obtain ⟨N, hN⟩ := hsettles.eventually
    exact ⟨a', ha.feed (hN N (Nat.le_refl N)), h'⟩
  | runSource _ source ih =>
    obtain ⟨a, ha, hrepresents⟩ := ih
    obtain ⟨a', h', hsettles⟩ := follows_runSource hrepresents source
    obtain ⟨N, hN⟩ := hsettles.eventually
    exact ⟨a', ha.runSource (hN N (Nat.le_refl N)), h'⟩
  | finish _ ih =>
    obtain ⟨a, ha, hrepresents⟩ := ih
    obtain ⟨a', h', hsettles⟩ := settles_finish hrepresents
    obtain ⟨N, hN⟩ := hsettles.eventually
    exact ⟨a', ha.finish (hN N (Nat.le_refl N)), h'⟩

end Arena.Interpreter

end Haklang

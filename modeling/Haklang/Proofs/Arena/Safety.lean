import Haklang.Proofs.Arena.Parser
import Haklang.Proofs.Execution.Upheld
import Haklang.Proofs.Session.Integrity
import Haklang.Proofs.Session.Termination

/-!
# No number leads astray

An interpreter parses a passage into its arena, runs the node that comes of it, and puts the numbers
of bodies into its table of functions while the arena goes on growing. It never checks a number.
Its arena comes about by calls of the parser alone (`Arena.Interpreter.grows_runSource` and the
like), so it is a forest, and what is in it stays. The numbers in the table of functions are those
of trees that are stored (`Arena.Interpreter.Represents`), so they are in the arena too. Hence every
step has an answer, which it would not have if a node were looked for where there is none.

The table of functions changes while nodes run, and what it has in the middle of a run may be gone
in the end. A stored tree defines functions whose bodies are stored (`Tree.upholds_holds`), so the
numbers in the table are in the arena at every moment on the way (`Arena.Interpreter.Midway`).
-/

open Relation (ReflTransGen)

namespace Haklang

/-! ### Trees in an arena -/

namespace Tree

variable {arena : Arena} {t : Tree}

/-- A stored tree has stored children. -/
theorem Stored.children (h : t.Stored arena) : ∀ u ∈ t.children, u.Stored arena := by
  cases t with
  | statement => exact nofun
  | block id line head body =>
    cases head with
    | function name params => exact nofun
    | _ => exact storedAll_iff.1 h.1
  | twice id line inner => exact fun u hu ↦ List.mem_singleton.1 hu ▸ h.1

/-- Trees that are stored define functions whose bodies are stored. -/
theorem upholds_holds (arena : Arena) :
    Upholds (Stored arena) fun m ↦ arena.Holds m.store.functions where
  congr hfunctions _ h := by
    rw [hfunctions]
    exact h
  body h hf := storedAll_iff.1 (h _ _ hf)
  children _ ht := ht.children
  function _ _ name params body ht _ h := h.insert (f := { params, body }) ht.1 name
  defer _ _ _ _ _ _ _ h := h

end Tree

namespace Arena

namespace Interpreter

open Haklang.Action

variable {a a' : Interpreter} {n : Nat}

/-! ### How the arena grows -/

/-- What runs does not add to the arena. -/
theorem arena_perform {α : Type} {x : Attempt α} {r : Except Diagnostic α}
    (h : a.perform x = some (r, a')) : a'.arena = a.arena := by
  obtain ⟨answer, -, hanswer⟩ := Option.map_eq_some_iff.1 h
  cases answer <;> cases hanswer <;> rfl

/-- A passage is parsed, and its node made to run twice if a marker stands before it. -/
theorem grows_runPassage {p : Passage} {r : Except Diagnostic Unit}
    (h : a.runPassage n p = some (r, a')) : Grows a.arena a'.arena := by
  have hlay := layPassage_eq p a.arena
  rw [runPassage] at h
  rcases hp : Tree.ofPassage? p a.arena.length with - | ⟨t, next⟩ <;> rw [hp] at h hlay
  · cases h
    exact .refl
  · obtain ⟨hnumbered, rfl⟩ := Tree.numberedFrom_ofPassage? hp
    have hrepeat := layRepeated_eq hnumbered a.twice?
    rw [arena_perform h]
    rcases htwice : a.twice? with - | -
    · exact .single (.passage hlay)
    · rw [htwice] at hrepeat
      exact .single (.twice hlay hrepeat)

/-- A line adds at most the tree that it completes. -/
theorem grows_feed {text : String} {number : Nat} {r : Except Diagnostic Unit}
    (h : a.feed n text number = some (r, a')) : Grows a.arena a'.arena := by
  unfold feed at h
  simp only at h
  split at h
  · cases h
    exact .refl
  · rcases hpush : a.collector.push { number, text := Text.trimmed text }
      with ⟨collector, - | p⟩ <;> rw [hpush] at h
    · cases h
      exact .refl
    · exact grows_runPassage (a := { a with collector }) h

/-- Lines one after the other add to the arena what they complete. -/
theorem grows_feedEach {lines : List SourceLine} {r : Except Diagnostic Unit}
    (h : a.feedEach n lines = some (r, a')) : Grows a.arena a'.arena := by
  induction lines generalizing a with
  | nil =>
    cases h
    exact .refl
  | cons line rest ih =>
    obtain ⟨⟨_ | _, a''⟩, hfeed, hrest⟩ := Option.bind_eq_some_iff.1 h
    · cases hrest
      exact grows_feed hfeed
    · exact (grows_feed hfeed).trans (ih hrest)

/-- Nothing is parsed at the end of a source. The induction is on the fuel, since each deferred call
takes some. -/
theorem arena_drain {count : Nat} (h : a.drain n count = some a') : a'.arena = a.arena := by
  induction n generalizing a count with
  | zero => cases h
  | succ n ih =>
    rw [drain] at h
    split at h
    · cases h
      rfl
    · split at h
      · cases h
        rfl
      · obtain ⟨⟨_ | _, a''⟩, hcall, hrest⟩ := Option.bind_eq_some_iff.1 h
        all_goals
          have harena := arena_perform hcall
          exact (ih hrest).trans harena

/-- The end of a source adds nothing, since only calls run. -/
theorem arena_finish (h : a.finish n = some a') : a'.arena = a.arena :=
  arena_drain (a := { a with collector := .idle, twice? := false }) h

/-- A source adds to the arena what its lines complete. -/
theorem grows_runSource {source : String} {r : Except Diagnostic Session.Outcome}
    (h : a.runSource n source = some (r, a')) : Grows a.arena a'.arena := by
  unfold runSource at h
  simp only at h
  split at h
  · obtain ⟨⟨_ | _, a''⟩, hfeed, hrest⟩ := Option.bind_eq_some_iff.1 h
    · cases hrest
      exact grows_feedEach hfeed
    · obtain ⟨a₃, hfinish, hlast⟩ := Option.map_eq_some_iff.1 hrest
      cases hlast
      rw [arena_finish hfinish]
      exact grows_feedEach hfeed
  · cases h
    exact .refl

/-- The arena of every interpreter that comes about has been brought about by the parser. -/
theorem Reachable.grows (h : a.Reachable) : Grows [] a.arena := by
  induction h with
  | start => exact .refl
  | feed _ hfeed ih => exact ih.trans (grows_feed hfeed)
  | runSource _ hrun ih => exact ih.trans (grows_runSource hrun)
  | finish _ hfinish ih => exact arena_finish hfinish ▸ ih

/-! ### Functions -/

/-- The numbers in the bodies of all functions are in the arena. -/
def Bounded (a : Interpreter) : Prop :=
  ∀ name f, a.runner.routines.find? name = some f → ∀ id ∈ f.body, id < a.arena.length

/-- If the bodies of all functions are stored, their numbers are in the arena. -/
theorem bounded_of_holds {m : Machine} (hrunner : a.runner = .ofMachine m)
    (h : a.arena.Holds m.store.functions) : a.Bounded := by
  intro name f hf id hid
  rw [hrunner] at hf
  have hfind : (Runner.ofMachine m).routines.find? name =
      (m.store.functions.find? name).map .ofFunction := Table.find?_map _ _ _
  obtain ⟨g, hg, rfl⟩ := Option.map_eq_some_iff.1 (hfind.symm.trans hf)
  obtain ⟨t, ht, rfl⟩ := List.mem_map.1 hid
  exact (List.getElem?_eq_some_iff.1 (Tree.storedAll_iff.1 (h name g hg) t ht).getElem?).choose

/-- An interpreter that stands for a session has functions whose bodies are stored. -/
theorem Represents.bounded {s : Session} (h : Represents a s) : a.Bounded := by
  obtain ⟨arena, hfits, rfl⟩ := h
  exact bounded_of_holds rfl hfits.holds

/-! ### In the middle of a run -/

/-- Machines before and behind the tasks that a moment leads to, itself included. -/
inductive Passes (p : Moment) : Machine → Prop where
  /-- Before a task. -/
  | before {q : Moment} (h : ReflTransGen Starts p q) : Passes p q.machine
  /-- Behind a task, which may have failed. -/
  | behind {q : Moment} (h : ReflTransGen Starts p q) : Passes p q.after

/-- Interpreters in the middle of what one does next. While nodes run, nothing but the runner
changes. -/
inductive Midway (a : Interpreter) : Interpreter → Prop where
  /-- A line has laid its nodes down, and they run. -/
  | line {s : Session} (hs : Represents a s) {text : String} {number : Nat} {p : Moment}
    (hp : s.opening? text number = some p) {n : Nat} {r : Except Diagnostic Unit}
    {a' : Interpreter} (hfeed : a.feed n text number = some (r, a')) {m : Machine}
    (hm : Passes p m) : Midway a { a' with runner := .ofMachine m }
  /-- At the end of the source, some deferred calls have been attempted, and the next one runs. -/
  | deferred {s s' : Session} (hs : Represents a s) {log : List Session.Attempt}
    (hdrains : Session.Drains { s with collector := .idle, twice? := false } log s')
    (hlength : log.length < s.machine.limits.iterations) {call : DeferredCall}
    {rest : List DeferredCall} (hqueue : s'.machine.deferred = call :: rest) {m : Machine}
    (hm : Passes ⟨s'.machine.depthLeft, .call call.name call.args,
      { s'.machine with deferred := rest }⟩ m) :
    Midway a { a with collector := .idle, twice? := false, runner := .ofMachine m }

/-- What a moment passes through, the one that it starts passes through. -/
theorem Passes.of_starts {p q : Moment} (h : Starts p q) {m : Machine} (hm : Passes q m) :
    Passes p m := by
  cases hm with
  | before hq => exact .before (.head h hq)
  | behind hq => exact .behind (.head h hq)

/-- At every moment on the way of the session there is an interpreter in the middle of a run. -/
theorem Represents.exists_midway {s : Session} (hs : Represents a s) {p : Moment}
    (hp : p.During s) : ∃ a', Midway a a' ∧ a'.runner = .ofMachine p.machine := by
  have hall : ∃ f : Machine → Interpreter, (∀ m, (f m).runner = .ofMachine m) ∧
      ∀ m, Passes p m → Midway a (f m) := by
    induction hp with
    | @line text number p hp =>
      obtain ⟨a', -, hsettles⟩ := follows_feed hs text number
      obtain ⟨N, hN⟩ := hsettles.eventually
      exact ⟨_, fun _ ↦ rfl, fun m hm ↦ .line hs hp (hN N le_rfl) hm⟩
    | deferred hdrains hlength hqueue =>
      exact ⟨_, fun _ ↦ rfl, fun m hm ↦ .deferred hs hdrains hlength hqueue hm⟩
    | starts _ h ih =>
      obtain ⟨f, hrunner, hmidway⟩ := ih
      exact ⟨f, hrunner, fun m hm ↦ hmidway m (hm.of_starts h)⟩
  obtain ⟨f, hrunner, hmidway⟩ := hall
  exact ⟨f p.machine, hmidway _ (.before .refl), hrunner _⟩

/-- All along the way the bodies of functions are stored, if they are at the start of it. -/
theorem Passes.holds {arena : Arena} {p : Moment} {m : Machine} (hm : Passes p m)
    (htask : p.task.Kind (Machine.Inherits fun m ↦ arena.Holds m.store.functions)
      (Tree.Stored arena)) (hp : arena.Holds p.machine.store.functions) :
    arena.Holds m.store.functions := by
  have hupholds := Tree.upholds_holds arena
  cases hm with
  | before h => exact (hupholds.reaches htask hp h).2
  | behind h =>
    have hq := hupholds.reaches htask hp h
    exact hupholds.after hq.1 hq.2

/-- While a line runs, its tree is in the arena, and so are the bodies of functions. -/
theorem exists_tree_of_feed {s : Session} (hs : Represents a s) {text : String} {number : Nat}
    {p : Moment} (hp : s.opening? text number = some p) {r : Except Diagnostic Unit}
    (hfeed : a.feed n text number = some (r, a')) :
    ∃ t, t.Stored a'.arena ∧ p.task = .tree t ∧ p.machine = s.machine ∧
      a'.arena.Holds s.machine.store.functions := by
  obtain ⟨arena, hfits, rfl⟩ := hs
  obtain ⟨c, passage, t, next, hpush, htree, rfl⟩ := Session.exists_of_opening? hp
  rw [← hfits.length] at htree
  obtain ⟨hnumbered, rfl⟩ := Tree.numberedFrom_ofPassage? htree
  obtain ⟨hrepeated, -⟩ := Tree.numberedFrom_repeated hnumbered s.twice?
  have hpush : (ofSession arena s).collector.push { number, text := Text.trimmed text } =
      (c, some passage) := hpush
  unfold feed at hfeed
  simp only [hpush] at hfeed
  split at hfeed
  case isTrue hblank =>
    rw [Session.opening?, if_pos hblank] at hp
    cases hp
  case isFalse =>
    simp only [runPassage, ofSession, htree] at hfeed
    rw [arena_perform hfeed]
    exact ⟨_, Tree.stored_append_flatten arena hrepeated, rfl, rfl, hfits.holds.append _⟩

/-- In the middle of a run the parser has done its part, and the numbers in the bodies of all
functions are in the arena. -/
theorem Midway.grows_bounded (h : Midway a a') : Grows a.arena a'.arena ∧ a'.Bounded := by
  cases h with
  | line hs hp hfeed hm =>
    have hgrows := grows_feed hfeed
    refine ⟨hgrows, bounded_of_holds rfl ?_⟩
    obtain ⟨t, ht, htask, hmachine, hholds⟩ := exists_tree_of_feed hs hp hfeed
    exact hm.holds (by rwa [htask]) (by rwa [hmachine])
  | @deferred s s' hs _ hdrains _ _ _ _ _ hm =>
    refine ⟨.refl, bounded_of_holds rfl ?_⟩
    obtain ⟨arena, hfits, rfl⟩ := hs
    have hupholds := Tree.upholds_holds arena
    have hs' : arena.Holds s'.machine.store.functions :=
      hdrains.rel_of hupholds.respects_callee (fun _ _ ↦ hupholds.congr rfl rfl)
        (fun _ _ _ _ h ↦ h) hfits.holds
    exact hm.holds trivial hs'

/-! ### Safety -/

/-- No number leads astray in an interpreter, nor in what it does next. -/
structure Safe (a : Interpreter) : Prop where
  /-- The arena has been brought about by the parser. -/
  grows : Grows [] a.arena
  /-- The arena is safe. -/
  arena : a.arena.Safe
  /-- The numbers in the bodies of all functions are in the arena. -/
  bodies : a.Bounded
  /-- A line has an answer, and no node changes on the way. -/
  feed : ∀ text number, ∃ r a', Settles (fun n ↦ a.feed n text number) (r, a') ∧
    a.arena <+: a'.arena
  /-- A source has an answer, and no node changes on the way. -/
  runSource : ∀ source, ∃ r a', Settles (fun n ↦ a.runSource n source) (r, a') ∧
    a.arena <+: a'.arena
  /-- The end of a source has an answer, and no node changes on the way. -/
  finish : ∃ a', Settles (fun n ↦ a.finish n) a' ∧ a'.arena = a.arena
  /-- While nodes run, whatever functions they define, the arena is safe, no node has changed, and
  the numbers in the bodies of all functions are in the arena. -/
  midway : ∀ a', a.Midway a' → a'.arena.Safe ∧ a.arena <+: a'.arena ∧ a'.Bounded

/-- A reachable interpreter is safe: everything in it and all that it stores is within bounds. -/
theorem Reachable.safe (h : a.Reachable) : a.Safe := by
  obtain ⟨s, -, hs⟩ := h.represents
  refine ⟨h.grows, h.grows.safe, hs.bounded, fun text number ↦ ?_, fun source ↦ ?_, ?_,
    fun a' ha' ↦ ?_⟩
  · obtain ⟨a', -, hsettles⟩ := follows_feed hs text number
    obtain ⟨N, hN⟩ := hsettles.eventually
    exact ⟨_, a', hsettles, (grows_feed (hN N le_rfl)).isPrefix⟩
  · obtain ⟨a', -, hsettles⟩ := follows_runSource hs source
    obtain ⟨N, hN⟩ := hsettles.eventually
    exact ⟨_, a', hsettles, (grows_runSource (hN N le_rfl)).isPrefix⟩
  · obtain ⟨a', -, hsettles⟩ := settles_finish hs
    obtain ⟨N, hN⟩ := hsettles.eventually
    exact ⟨a', hsettles, arena_finish (hN N le_rfl)⟩
  · obtain ⟨hgrows, hbounded⟩ := ha'.grows_bounded
    exact ⟨Grows.safe (h.grows.trans hgrows), hgrows.isPrefix, hbounded⟩

end Interpreter

/-- No number leads astray: neither in an arena that any calls of the parser have brought about, nor
in an interpreter that has been through any lines, sources and ends. -/
theorem safe_of_grows_and_reachable :
    (∀ arena, Grows [] arena → arena.Safe) ∧ ∀ a : Interpreter, a.Reachable → a.Safe :=
  ⟨fun _ ↦ Grows.safe, fun _ ↦ Interpreter.Reachable.safe⟩

/-- A function whose body runs a statement twice, in an arena and in an interpreter that has defined
it. -/
theorem safe_nested_function :
    Safe (Tree.flattenAll (Tree.ofLines [⟨1, "[f]미쉥물 연료[]전줴"⟩, ⟨2, "학"⟩, ⟨3, "두그릇"⟩,
      ⟨4, "포자빵"⟩, ⟨5, "학"⟩] 0).1) ∧
    ∃ n r a, (Interpreter.start (.ofSeed 0) {} []).runSource n
      "학범\n[f]미쉥물 연료[]전줴\n학\n두그릇\n포자빵\n학" = some (r, a) ∧ a.Safe := by
  obtain ⟨harena, hinterpreter⟩ := safe_of_grows_and_reachable
  refine ⟨harena _ (.single (.lines (layLines_eq _ []))), ?_⟩
  have hstart : (Interpreter.start (.ofSeed 0) {} []).Reachable := .start (.ofSeed 0) {} []
  obtain ⟨r, a, hsettles, -⟩ := (hinterpreter _ hstart).runSource
    "학범\n[f]미쉥물 연료[]전줴\n학\n두그릇\n포자빵\n학"
  obtain ⟨n, hn⟩ := hsettles.eventually
  exact ⟨n, r, a, hn n le_rfl, hinterpreter _ (hstart.runSource (hn n le_rfl))⟩

end Arena

end Haklang

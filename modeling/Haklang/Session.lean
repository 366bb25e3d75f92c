import Haklang.Execution

/-!
# Sessions

A session takes source line by line. Each line is gathered; as soon as a passage is complete it is
built into a tree and run, so a program runs up to its first bad line. The end of a session drops
what is still open and runs the calls that were put off.

A session can go on after a failure: `Session.feed` gives the outcome and the session after it
separately. Ending a session cannot fail, since a deferred call that fails is reported at the
console and the next one runs. Where a run is stopped (`Fault.noMagnitude`) there is no session
behind it; what is given as one then, here as after a failure, is for the caller to leave aside.
-/

namespace Haklang

/-- A session between two lines. -/
structure Session where
  /-- The state that statements act on. -/
  machine : Machine
  /-- Where the gathering of lines stands. -/
  collector : Collector := .idle
  /-- Whether the marker that makes the next item run twice has been met. -/
  twice? : Bool := false
  /-- The next free serial number of a tree. -/
  nextId : Nat := 0

/-- How a whole program ends, if it does not fail. -/
inductive Session.Outcome where
  /-- All lines ran. -/
  | completed
  /-- The first line does not start with the word that every program starts with; nothing ran. -/
  | missingSentinel
deriving DecidableEq, Repr

namespace Session

/-- A session at its start. -/
def start (generator : Generator) (limits : Limits) (input : List String) : Session :=
  { machine := { generator, limits, console := { input } } }

/-- Whether a block is open. -/
def isCollecting (s : Session) : Bool := s.collector.isCollecting

/-- Runs an action on the machine. -/
def perform {α : Type} (s : Session) (x : Action α) : Except Diagnostic α × Session :=
  match x s.machine with
  | .ok a machine => (.ok a, { s with machine })
  | .error d machine => (.error d, { s with machine })

/-- Writes a message at the console. -/
def report (s : Session) (message : String) : Session :=
  { s with machine.console := s.machine.console.note (.message message) }

/-- Builds and runs a passage. A signal that no loop and no call takes notice of has no effect. -/
def runPassage (s : Session) (p : Passage) : Except Diagnostic Unit × Session :=
  match Tree.ofPassage? p s.nextId with
  | none => (.ok (), { s with twice? := true })
  | some (t, nextId) =>
    let (t, nextId) := t.repeated s.twice? nextId
    { s with twice? := false, nextId }.perform (discard (Action.runTree t))

/-- Takes one line of source, and runs the passage that it completes. Blank lines, and lines of the
word that programs start with, are skipped. -/
def feed (s : Session) (text : String) (number : Nat) : Except Diagnostic Unit × Session :=
  let text := Text.trimmed text
  if text = "" ∨ text = Line.sentinel then (.ok (), s)
  else
    let (collector, passage?) := s.collector.push { number, text }
    match passage? with
    | none => (.ok (), { s with collector })
    | some p => { s with collector }.runPassage p

/-- Takes lines numbered from `number`, up to the first that fails. -/
def feedAll (s : Session) (number : Nat) : List String → Except Diagnostic Unit × Session
  | [] => (.ok (), s)
  | text :: rest =>
    match s.feed text number with
    | (.ok _, s) => s.feedAll (number + 1) rest
    | (.error d, s) => (.error d, s)

/-- Runs the deferred calls in order, those that are put off meanwhile included, for at most as
many as are left. A failure is reported and the next call runs; calls beyond the limit are reported
once and dropped. -/
def runDeferred (s : Session) : Nat → Session
  | 0 =>
    match s.machine.deferred with
    | [] => s
    | call :: _ =>
      let d : Diagnostic := { fault := .runawayDeferred s.machine.limits.iterations }
      { s with machine.deferred := [] }.report ((d.locate call.line).render ++ "\n")
  | left + 1 =>
    match s.machine.deferred with
    | [] => s
    | call :: rest =>
      match { s with machine.deferred := rest }.perform (Action.callee call.name call.args) with
      | (.ok _, s) => s.runDeferred left
      | (.error d, s) => (s.report ((d.locate call.line).render ++ "\n")).runDeferred left

/-- The end of the source: an open block and a marker before nothing are dropped, and the deferred
calls run. -/
def finish (s : Session) : Session :=
  { s with collector := .idle, twice? := false }.runDeferred s.machine.limits.iterations

/-- Whether the first line that is not blank starts with the word that every program starts
with. -/
def hasSentinel (lines : List String) : Bool :=
  match (lines.map fun line ↦ Text.trim line.toList).find? (· ≠ []) with
  | some line => (Text.after? Line.sentinel.toList line).isSome
  | none => false

/-- Runs a whole program. -/
def runSource (s : Session) (source : String) : Except Diagnostic Outcome × Session :=
  let lines := Text.lines source
  if hasSentinel lines then
    match s.feedAll 1 lines with
    | (.ok _, s) => (.ok .completed, s.finish)
    | (.error d, s) => (.error d, s)
  else
    (.ok .missingSentinel, s.report ("program must begin with '" ++ Line.sentinel ++ "'\n"))

end Session

end Haklang

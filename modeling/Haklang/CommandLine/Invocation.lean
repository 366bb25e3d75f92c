import Haklang.CommandLine.Arguments
import Haklang.CommandLine.Prompt

/-!
# Invocations

One run of the program, from its arguments to its exit code. All that a run depends on is given:
the arguments, the seed in the environment, the files, the standard input, and a seed for the case
that none is set. What the run does is the transcript of its console, to be carried out afterwards.

A session goes on behind every failure, but a process does not go on behind an arithmetic that stops
it (`Fault.noMagnitude`). So the transcript of a run ends there (`Report.ofConsole`).
-/

namespace Haklang

/-- What a run depends on. -/
structure Invocation where
  /-- The arguments, without the name of the program. -/
  arguments : List String
  /-- The seed in the environment, if it is set there. -/
  environmentSeed? : Option String := none
  /-- The text of the file at a path, or why it cannot be read. -/
  file : String → Except String String
  /-- The standard input. -/
  input : String := ""
  /-- The seed that is used if none is set. -/
  freshSeed : UInt64

/-- What a run comes to. -/
structure Report where
  /-- The exit code. -/
  code : Nat
  /-- The console at the end. -/
  console : Console

namespace Report

/-- A run that writes text and succeeds. -/
def text (s : String) : Report := { code := 0, console := ({} : Console).note (.output s) }

/-- A run that writes a message and ends with a code. -/
def message (code : Nat) (s : String) : Report :=
  { code, console := ({} : Console).note (.message (s ++ "\n")) }

/-- The code of a run that was stopped. -/
def stoppedCode : Nat := 101

/-- Whether an event is the message of a run that was stopped. -/
def isStop (e : Console.Event) : Bool :=
  e.message?.any fun s ↦ s.startsWith Fault.noMagnitude.render

/-- A run that ends with a code, unless it was stopped. Then it went no further than the message
that says so. -/
def ofConsole (code : Nat) (c : Console) : Report :=
  match c.transcript.findIdx? isStop with
  | none => { code, console := c }
  | some i =>
    { code := stoppedCode, console := { c with transcript := c.transcript.extract 0 (i + 1) } }

end Report

/-- Where a program comes from. -/
inductive Arguments.Source where
  /-- The program is given as it is. -/
  | text (program : String)
  /-- The program is in a file. -/
  | file (path : String)
  /-- There is no program, only the prompt. -/
  | prompt

/-- Where the arguments take the program from. A program that is given as it is goes before a
path. -/
def Arguments.source (a : Arguments) : Source :=
  match a.eval?, a.path? with
  | some program, _ => .text program
  | none, some path => .file path
  | none, none => .prompt

namespace Invocation

/-- The summary of the options. -/
def summary : String :=
  "An interpreter for the Haklang scripting language\n\n"
    ++ "Usage: haklang [OPTIONS] [SOURCE]\n\n"
    ++ "Arguments:\n"
    ++ "  [SOURCE]  Haklang source file to execute\n\n"
    ++ "Options:\n"
    ++ "  -e, --eval <EVAL>\n"
    ++ "          Execute program text given on the command line\n"
    ++ "  -i, --interactive\n"
    ++ "          Start the interactive prompt (after running SOURCE or -e, if given)\n"
    ++ "      --seed <SEED>\n"
    ++ "          Seed for randomization statements [env: HAKLANG_SEED]\n"
    ++ "      --max-iterations <MAX_ITERATIONS>\n"
    ++ "          Loop iterations allowed before a runaway-loop error [default: 100000]\n"
    ++ "      --max-call-depth <MAX_CALL_DEPTH>\n"
    ++ "          Nested function calls allowed before a recursion error [default: 1000]\n"
    ++ "  -h, --help\n"
    ++ "          Print help\n"
    ++ "  -V, --version\n"
    ++ "          Print version\n"

/-- Runs a whole program, and then the prompt if it is wanted. A program that fails ends the run,
and its deferred calls do not run. -/
def runProgram (s : Session) (program : String) (interactive : Bool) : Report :=
  match s.runSource program with
  | (.error d, s) => .ofConsole 1 (s.report (d.render ++ "\n")).machine.console
  | (.ok _, s) =>
    let s := if interactive then Prompt.run s else s
    .ofConsole 0 s.machine.console

/-- What a run with arguments that could be read comes to. -/
def runWith (v : Invocation) (a : Arguments) : Report :=
  let generator := Generator.ofSeed (a.seed?.getD v.freshSeed)
  let s := Session.start generator a.limits (Console.lines v.input)
  match a.source with
  | .prompt => .ofConsole 0 (Prompt.run s).machine.console
  | .text program => runProgram s program a.interactive
  | .file path =>
    match v.file path with
    | .ok program => runProgram s program a.interactive
    | .error reason => .message 1 (Fault.unreadableFile path reason).render

/-- What a run comes to. -/
def run (v : Invocation) : Report :=
  match Arguments.ofList v.arguments v.environmentSeed? with
  | .ok a => v.runWith a
  | .error .help => .text summary
  | .error .version => .text (Prompt.programVersion ++ "\n")
  | .error (.misuse m) =>
    .message 2 ("error: " ++ m.render ++ "\n\nFor more information, try '--help'.")

end Invocation

end Haklang
